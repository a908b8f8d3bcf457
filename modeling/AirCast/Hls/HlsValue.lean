import AirCast.Hls.HlsLines

/-! # The attributes of a playlist line

`getValue` of `utils.c` on a line and a destination.  The scan for the closing
delimiter has no test for the end of the line, and the copy writes no terminator
behind the value. -/

set_option autoImplicit false

namespace AirCast.Hls

def COMMA : UInt8 := 44
def EQUALS : UInt8 := 61
def COLON : UInt8 := 58

def isQuote (c : UInt8) : Bool := c == 34 || c == 39

def isMark (c : UInt8) : Bool := c == EQUALS || isQuote c

/-- The loop over the marks in front of the value: `flag` and `p_start` behind it. -/
def skipMarks : UInt8 → Bytes → UInt8 × Bytes
  | flag, [] => (flag, [])
  | flag, c :: p_start =>
      if isMark c then skipMarks (if isQuote c then c else flag) p_start
      else (flag, c :: p_start)

/-- `getValue`: the destination and the returned length; `none` when the scan leaves the line,
the copy leaves the destination or `strlen` finds no terminator in it. -/
def getValue (str param value : Bytes) : Option (Bytes × ℤ) :=
  if param = [] then some (value, -1)
  else match strstr param str with
    | none => some (value, 0)
    | some (_, p_start) =>
        let (flag, p_start) := skipMarks 0 p_start
        let flag := if flag ≠ 0 then flag else COMMA
        let copied := p_start.takeWhile (· ≠ flag)
        if flag ∈ p_start ∧ copied.length ≤ value.length then
          let value := copied ++ value.drop copied.length
          (stringOf value).map fun string => (value, (string.length : ℤ))
        else none

/-! ## The value of an attribute -/

def valueText (text : Bytes) : Bytes :=
  match text with
  | [] => []
  | q :: body =>
      if isQuote q ∧ q ∈ body then body.takeWhile (· ≠ q) else text.takeWhile (· ≠ COMMA)

/-- Where a character of `#TAG:NAME=value,NAME="value"` stands. -/
inductive Place where
  | start
  | name
  | equals
  | quoted (q : UInt8)
  | value
  deriving DecidableEq

/-- The place behind `c`, in front of `text`.  A name begins behind the colon of the tag and
behind a comma outside quotes. -/
def Place.next (c : UInt8) (text : Bytes) : Place → Place
  | start | name => if c = EQUALS then equals else if c = COMMA ∨ c = COLON then start else name
  | equals => if isQuote c ∧ c ∈ text then quoted c else if c = COMMA then start else value
  | quoted q => if c = q then value else quoted q
  | value => if c = COMMA then start else value

/-- The text behind the equals sign of the first attribute with the name. -/
def attributeText (param : Bytes) : Place → Bytes → Option Bytes
  | _, [] => none
  | place, c :: text =>
      if place = .start ∧ param ++ [EQUALS] <+: c :: text then
        some ((c :: text).drop (param.length + 1))
      else attributeText param (place.next c text) text

/-- The call is safe and leaves the value of the attribute in the destination. -/
def Extracts (str param value : Bytes) : Prop :=
  ∃ found, getValue str param value = some found ∧
    ∀ text ∈ attributeText param .start str, stringOf found.1 = some (valueText text)

/-! ## The scan -/

theorem takeWhile_to {d : UInt8} {v : Bytes} (fresh : d ∉ v) (t : Bytes) :
    (v ++ d :: t).takeWhile (· ≠ d) = v := by
  rw [List.takeWhile_append_of_pos (fun c member => by
    simpa using fun same : c = d => fresh (same ▸ member))]
  simp

def delimiter (marks : Bytes) : UInt8 :=
  let flag := marks.foldl (fun flag c => if isQuote c then c else flag) 0
  if flag ≠ 0 then flag else COMMA

/-- `marks` are skipped in front of `body`. -/
structure Skipped (marks body : Bytes) : Prop where
  marks : ∀ c ∈ marks, isMark c = true
  body : ∀ c ∈ body.head?, isMark c = false

theorem skipMarks_eq {body : Bytes} (stops : ∀ c ∈ body.head?, isMark c = false) :
    ∀ (marks : Bytes) (flag : UInt8), (∀ c ∈ marks, isMark c = true) →
      skipMarks flag (marks ++ body) =
        (marks.foldl (fun flag c => if isQuote c then c else flag) flag, body) := by
  intro marks
  induction marks with
  | nil =>
      intro flag _
      cases body with
      | nil => rfl
      | cons c body => rw [List.nil_append, skipMarks, if_neg (by simp [stops c rfl])]; rfl
  | cons c marks ih =>
      intro flag skipped
      rw [List.cons_append, skipMarks, if_pos (skipped c List.mem_cons_self),
        ih _ fun d member => skipped d (List.mem_cons_of_mem _ member)]
      rfl

theorem Skipped.exists (rest : Bytes) : ∃ marks body, rest = marks ++ body ∧ Skipped marks body := by
  refine ⟨rest.takeWhile isMark, rest.dropWhile isMark, List.takeWhile_append_dropWhile.symm,
    fun c member => List.mem_takeWhile_imp member, fun c head => ?_⟩
  have stopped := List.head?_dropWhile_not isMark rest
  rw [Option.mem_def] at head
  rw [head] at stopped
  simpa using stopped

theorem quote_ne_zero {c : UInt8} (quote : isQuote c = true) : c ≠ 0 := by
  rintro rfl
  exact absurd quote (by decide)

theorem flag_quote : ∀ (marks : Bytes) (flag : UInt8), (isQuote flag = true ∨
    ∃ c ∈ marks, isQuote c = true) →
      isQuote (marks.foldl (fun flag c => if isQuote c then c else flag) flag) = true := by
  intro marks
  induction marks with
  | nil => intro flag quote; simpa using quote
  | cons c marks ih =>
      intro flag quote
      rw [List.foldl_cons]
      apply ih
      by_cases first : isQuote c = true
      · simp [first]
      · simpa [first] using quote

theorem delimiter_quote {marks : Bytes} (quote : ∃ c ∈ marks, isQuote c = true) :
    isQuote (delimiter marks) = true := by
  have last := flag_quote marks 0 (Or.inr quote)
  rw [delimiter, if_pos (quote_ne_zero last)]
  exact last

theorem delimiter_comma {marks : Bytes} (free : ∀ c ∈ marks, isQuote c = false) :
    delimiter marks = COMMA := by
  have kept : marks.foldl (fun flag c => if isQuote c then c else flag) 0 = 0 := by
    induction marks with
    | nil => rfl
    | cons c marks ih =>
        rw [List.foldl_cons, if_neg (by simp [free c List.mem_cons_self])]
        exact ih fun d member => free d (List.mem_cons_of_mem _ member)
  rw [delimiter, kept]
  rfl

theorem getValue_scan {str param before marks body : Bytes} (named : param ≠ [])
    (found : strstr param str = some (before, marks ++ body)) (skipped : Skipped marks body)
    (value : Bytes) :
    getValue str param value =
      let copied := body.takeWhile (· ≠ delimiter marks)
      if delimiter marks ∈ body ∧ copied.length ≤ value.length then
        (stringOf (copied ++ value.drop copied.length)).map fun string =>
          (copied ++ value.drop copied.length, (string.length : ℤ))
      else none := by
  rw [getValue, if_neg named, found]
  dsimp only
  rw [skipMarks_eq skipped.body marks 0 skipped.marks]
  rfl

theorem getValue_copies {str param before marks v t : Bytes} (named : param ≠ [])
    (found : strstr param str = some (before, marks ++ (v ++ delimiter marks :: t)))
    (skipped : Skipped marks (v ++ delimiter marks :: t)) (fresh : delimiter marks ∉ v)
    (value : Bytes) :
    getValue str param value =
      if v.length ≤ value.length then
        (stringOf (v ++ value.drop v.length)).map fun string =>
          (v ++ value.drop v.length, (string.length : ℤ))
      else none := by
  have copied := takeWhile_to fresh t
  have present : delimiter marks ∈ v ++ delimiter marks :: t := by simp
  rw [getValue_scan named found skipped]
  dsimp only
  rw [copied]
  simp only [present, true_and]

theorem getValue_leaves {str param before marks body : Bytes} (named : param ≠ [])
    (found : strstr param str = some (before, marks ++ body)) (skipped : Skipped marks body)
    (absent : delimiter marks ∉ body) (value : Bytes) : getValue str param value = none := by
  rw [getValue_scan named found skipped]
  exact if_neg fun both => absent both.1

theorem split_at {d : UInt8} {body : Bytes} (member : d ∈ body) :
    ∃ v t, body = v ++ d :: t ∧ d ∉ v := by
  obtain ⟨v, t, split, fresh⟩ := List.eq_append_cons_of_mem member
  exact ⟨v, t, split, fresh⟩

/-- What `Extracts` asks of the text behind the first occurrence of the name. -/
theorem extracts_scan {str param before marks body : Bytes} (named : param ≠ [])
    (found : strstr param str = some (before, marks ++ body)) (skipped : Skipped marks body)
    (nulFree : 0 ∉ body) (value : Bytes) :
    Extracts str param value ↔
      ∃ v t, body = v ++ delimiter marks :: t ∧ delimiter marks ∉ v ∧
        0 ∈ value.drop v.length ∧ ∀ text ∈ attributeText param .start str,
          stringOf (v ++ value.drop v.length) = some (valueText text) := by
  constructor
  · rintro ⟨⟨left, count⟩, got, reads⟩
    by_cases present : delimiter marks ∈ body
    · obtain ⟨v, t, rfl, fresh⟩ := split_at present
      rw [getValue_copies named found skipped fresh] at got
      split_ifs at got with fits
      obtain ⟨string, shown, same⟩ := Option.map_eq_some_iff.mp got
      obtain ⟨rfl, -⟩ := Prod.mk.inj same
      refine ⟨v, t, rfl, fresh, ?_, reads⟩
      rw [stringOf] at shown
      split_ifs at shown with terminated
      exact (List.mem_append.mp terminated).resolve_left
        fun member => nulFree (List.mem_append_left _ member)
    · rw [getValue_leaves named found skipped present] at got
      simp at got
  · rintro ⟨v, t, rfl, fresh, terminated, reads⟩
    have fits : v.length ≤ value.length := by
      by_contra long
      rw [List.drop_eq_nil_of_le (by omega)] at terminated
      simp at terminated
    have shown : stringOf (v ++ value.drop v.length) =
        some (CString.ofBytes (v ++ value.drop v.length)).chars :=
      if_pos (List.mem_append_right _ terminated)
    have copies := getValue_copies named found skipped fresh value
    rw [if_pos fits, shown, Option.map_some] at copies
    exact ⟨_, copies, reads⟩

/-! ## When the value is extracted -/

theorem delimiter_quoted {q : UInt8} (quote : isQuote q = true) : delimiter [EQUALS, q] = q := by
  have plain : isQuote EQUALS = false := by decide
  simp [delimiter, quote, plain, quote_ne_zero quote]

theorem delimiter_signs (n : ℕ) : delimiter (List.replicate n EQUALS) = COMMA :=
  delimiter_comma fun c member => by
    rw [List.eq_of_mem_replicate member]
    decide

theorem valueText_quoted {q : UInt8} (quote : isQuote q = true) {v : Bytes} (fresh : q ∉ v)
    (t : Bytes) : valueText (q :: (v ++ q :: t)) = v := by
  rw [valueText, if_pos ⟨quote, by simp⟩, takeWhile_to fresh]

theorem valueText_unquoted {text : Bytes} (plain : ∀ c ∈ text.head?, isQuote c = false) :
    valueText text = text.takeWhile (· ≠ COMMA) := by
  cases text with
  | nil => rfl
  | cons q body => rw [valueText, if_neg (by simp [plain q rfl])]

theorem valueText_signs (n : ℕ) (t : Bytes) :
    valueText (List.replicate (n + 1) EQUALS ++ COMMA :: t) = List.replicate (n + 1) EQUALS := by
  have fresh : COMMA ∉ List.replicate (n + 1) EQUALS := fun member =>
    absurd (List.eq_of_mem_replicate member) (by decide)
  rw [valueText_unquoted, takeWhile_to fresh]
  intro c head
  rw [← Option.some.inj head]
  decide

theorem valueText_mark {q m : UInt8} (quote : isQuote q = true) (mark : isMark m = true)
    (text : Bytes) : ∀ c ∈ (valueText (q :: m :: text)).head?, isMark c = true := by
  intro c head
  rw [valueText] at head
  split_ifs at head with closed
  · rw [List.takeWhile_cons] at head
    split_ifs at head
    · rwa [← Option.some.inj head]
    · simp at head
  · rw [List.takeWhile_cons] at head
    split_ifs at head
    · rw [← Option.some.inj head, isMark, quote, Bool.or_true]
    · simp at head

theorem valueText_sign (text : Bytes) : (valueText (EQUALS :: text)).head? = some EQUALS := by
  rw [valueText_unquoted (fun c head => by rw [← Option.some.inj head]; decide),
    List.takeWhile_cons_of_pos (by decide)]
  rfl

theorem isQuote_of_isMark {c : UInt8} (plain : isMark c = false) : isQuote c = false :=
  (Bool.or_eq_false_iff.mp plain).2

/-- The destination before the call, the text behind the equals sign of the attribute, and the
text behind the first occurrence of its name, with which the call is safe and leaves the value. -/
inductive Extractable (value : Bytes) : Option Bytes → Bytes → Prop
  | quoted (q : UInt8) (v t : Bytes) (quote : isQuote q = true) (fresh : q ∉ v)
      (starts : ∃ c ∈ v.head?, isMark c = false) (ended : value[v.length]? = some 0) :
      Extractable value (some (q :: (v ++ q :: t))) (EQUALS :: q :: (v ++ q :: t))
  | unquoted (v t : Bytes) (fresh : COMMA ∉ v) (starts : ∀ c ∈ v.head?, isMark c = false)
      (ended : value[v.length]? = some 0) :
      Extractable value (some (v ++ COMMA :: t)) (EQUALS :: (v ++ COMMA :: t))
  -- all of the value is skipped, and the destination held it before
  | skipped (n : ℕ) (t : Bytes)
      (held : stringOf value = some (List.replicate (n + 1) EQUALS)) :
      Extractable value (some (List.replicate (n + 1) EQUALS ++ COMMA :: t))
        (EQUALS :: (List.replicate (n + 1) EQUALS ++ COMMA :: t))
  -- no attribute, but a text that is copied
  | unset (marks v t : Bytes) (passed : Skipped marks (v ++ delimiter marks :: t))
      (fresh : delimiter marks ∉ v) (terminated : 0 ∈ value.drop v.length) :
      Extractable value none (marks ++ (v ++ delimiter marks :: t))
  -- the name occurs before the attribute, with a text that begins the value as well
  | elsewhere (text marks v u t : Bytes)
      (apart : marks ++ (v ++ delimiter marks :: t) ≠ EQUALS :: text)
      (passed : Skipped marks (v ++ delimiter marks :: t)) (fresh : delimiter marks ∉ v)
      (begins : valueText text = v ++ u) (held : stringOf (value.drop v.length) = some u) :
      Extractable value (some text) (marks ++ (v ++ delimiter marks :: t))

theorem getValue_ended {str param before v t value : Bytes} {d : UInt8} (marks : Bytes)
    (delimits : delimiter marks = d) (named : param ≠ [])
    (found : strstr param str = some (before, marks ++ (v ++ d :: t)))
    (skipped : Skipped marks (v ++ d :: t)) (fresh : d ∉ v) (nulFree : 0 ∉ v)
    (ended : value[v.length]? = some 0) :
    getValue str param value = some (v ++ value.drop v.length, (v.length : ℤ)) := by
  subst delimits
  have fits : v.length ≤ value.length := (List.getElem?_eq_some_iff.mp ended).1.le
  have shown : stringOf (v ++ value.drop v.length) = some v :=
    (stringOf_append nulFree _).mpr (List.head?_drop.trans ended)
  rw [getValue_copies named found skipped fresh value, if_pos fits, shown, Option.map_some]

theorem extracts_ended {str param before v t value : Bytes} {d : UInt8} (marks : Bytes)
    (delimits : delimiter marks = d) (named : param ≠ [])
    (found : strstr param str = some (before, marks ++ (v ++ d :: t)))
    (skipped : Skipped marks (v ++ d :: t)) (fresh : d ∉ v) (nulFree : 0 ∉ v)
    (ended : value[v.length]? = some 0)
    (valued : ∀ text ∈ attributeText param .start str, valueText text = v) :
    Extracts str param value := by
  refine ⟨_, getValue_ended marks delimits named found skipped fresh nulFree ended,
    fun text member => ?_⟩
  rw [valued text member]
  exact (stringOf_append nulFree _).mpr (List.head?_drop.trans ended)

theorem head?_of_begins {c : UInt8} {v w : Bytes} (begins : c :: v <+: w) : w.head? = some c := by
  obtain ⟨rest, rfl⟩ := begins
  rfl

/-- The value that is read back behind the equals sign. -/
theorem extractable_of_reads {marks v t value : Bytes}
    (passed : Skipped (EQUALS :: marks) (v ++ delimiter (EQUALS :: marks) :: t))
    (fresh : delimiter (EQUALS :: marks) ∉ v) (nulFree : 0 ∉ v)
    (reads : stringOf (v ++ value.drop v.length) =
      some (valueText (marks ++ (v ++ delimiter (EQUALS :: marks) :: t)))) :
    Extractable value (some (marks ++ (v ++ delimiter (EQUALS :: marks) :: t)))
      (EQUALS :: marks ++ (v ++ delimiter (EQUALS :: marks) :: t)) := by
  have begins := stringOf_prefix nulFree reads
  have plain : ∀ c ∈ v.head?, isMark c = false := by
    intro c head
    exact passed.body c (by simp [List.head?_append, Option.mem_def.mp head])
  cases marks with
  | nil =>
      have text := valueText_unquoted fun c head => isQuote_of_isMark (passed.body c head)
      have whole := reads.trans (congrArg some (text.trans (takeWhile_to fresh t)))
      have ended := List.head?_drop.symm.trans ((stringOf_append nulFree _).mp whole)
      exact Extractable.unquoted v t fresh plain ended
  | cons m marks =>
      have mark := passed.marks m (by simp)
      by_cases quote : isQuote m = true
      · have ends : isQuote (delimiter (EQUALS :: m :: marks)) = true :=
          delimiter_quote ⟨m, by simp, quote⟩
        cases v with
        | nil =>
            have open_mark := passed.body _ rfl
            rw [isMark, ends, Bool.or_true] at open_mark
            exact absurd open_mark (by decide)
        | cons c v =>
            cases marks with
            | nil =>
                rw [delimiter_quoted quote] at fresh reads ⊢
                have text := valueText_quoted quote fresh t
                have whole := reads.trans (congrArg some text)
                have ended := List.head?_drop.symm.trans ((stringOf_append nulFree _).mp whole)
                exact Extractable.quoted m (c :: v) t quote fresh ⟨c, rfl, plain c rfl⟩ ended
            | cons m2 marks =>
                have mark2 := passed.marks m2 (by simp)
                have first := valueText_mark quote mark2
                  (marks ++ (c :: v ++ delimiter (EQUALS :: m :: m2 :: marks) :: t)) c
                  (head?_of_begins begins)
                exact absurd first (by rw [plain c rfl]; decide)
      · obtain rfl : m = EQUALS := by simpa [isMark, quote] using mark
        have emptied : v = [] := by
          cases v with
          | nil => rfl
          | cons c v =>
              have first := (head?_of_begins begins).symm.trans (valueText_sign _)
              obtain rfl := Option.some.inj first
              exact absurd (plain EQUALS rfl) (by decide)
        subst emptied
        have noQuote : ∀ c ∈ EQUALS :: EQUALS :: marks, isQuote c = false := by
          intro c member
          by_contra found
          have ends := delimiter_quote ⟨c, member, by simpa using found⟩
          have plainEnd := isQuote_of_isMark (passed.body _ rfl)
          exact absurd (ends.symm.trans plainEnd) (by decide)
        obtain ⟨n, rfl⟩ : ∃ n, marks = List.replicate n EQUALS := by
          refine ⟨marks.length, List.eq_replicate_of_mem fun c member => ?_⟩
          have mark := passed.marks c (by simp [member])
          simpa [isMark, noQuote c (by simp [member])] using mark
        have delimits := delimiter_comma noQuote
        rw [delimits] at reads ⊢
        exact Extractable.skipped n t (reads.trans (congrArg some (valueText_signs n t)))

section extract

variable {str param before rest value : Bytes} (named : param ≠ [])
  (found : strstr param str = some (before, rest)) (nulFree : 0 ∉ rest)
include named found nulFree

theorem Extractable.extracts
    (extractable : Extractable value (attributeText param .start str) rest) :
    Extracts str param value := by
  generalize placed : attributeText param .start str = text at extractable
  cases extractable with
  | quoted q v t quote fresh starts ended =>
      obtain ⟨c, head, plain⟩ := starts
      have passed : Skipped [EQUALS, q] (v ++ q :: t) :=
        ⟨by simp [isMark, quote], by simp [List.head?_append, Option.mem_def.mp head, plain]⟩
      have free : 0 ∉ v := fun member => nulFree (by simp [member])
      refine extracts_ended [EQUALS, q] (delimiter_quoted quote) named found passed fresh free
        ended fun text given => ?_
      obtain rfl := Option.some.inj (placed.symm.trans given)
      exact valueText_quoted quote fresh t
  | unquoted v t fresh starts ended =>
      have comma : isMark COMMA = false := by decide
      have plain : ∀ c ∈ (v ++ COMMA :: t).head?, isMark c = false := by
        cases v with
        | nil => simp [comma]
        | cons c v => exact starts
      have passed : Skipped [EQUALS] (v ++ COMMA :: t) := ⟨by simp [isMark], plain⟩
      have free : 0 ∉ v := fun member => nulFree (by simp [member])
      refine extracts_ended [EQUALS] rfl named found passed fresh free ended fun text given => ?_
      obtain rfl := Option.some.inj (placed.symm.trans given)
      have value_eq := valueText_unquoted fun c head => isQuote_of_isMark (plain c head)
      exact value_eq.trans (takeWhile_to fresh t)
  | skipped n t held =>
      have passed : Skipped (List.replicate (n + 2) EQUALS) (COMMA :: t) := by
        refine ⟨fun c member => ?_, fun c head => ?_⟩
        · rw [List.eq_of_mem_replicate member]
          decide
        · rw [← Option.some.inj head]
          decide
      have free : 0 ∉ COMMA :: t := fun member => nulFree (by simp [member])
      have delimits := delimiter_signs (n + 2)
      refine (extracts_scan named found passed free value).mpr
        ⟨[], t, by rw [delimits]; rfl, by simp, ?_, ?_⟩
      · rw [stringOf] at held
        split_ifs at held with terminated
        exact terminated
      · intro text given
        obtain rfl := Option.some.inj (placed.symm.trans given)
        exact held.trans (congrArg some (valueText_signs n t).symm)
  | unset marks v t passed fresh terminated =>
      have free : 0 ∉ v ++ delimiter marks :: t := fun member =>
        nulFree (List.mem_append_right _ member)
      refine (extracts_scan named found passed free value).mpr
        ⟨v, t, rfl, fresh, terminated, fun text given => ?_⟩
      rw [placed] at given
      simp at given
  | elsewhere text marks v u t apart passed fresh begins held =>
      have free : 0 ∉ v ++ delimiter marks :: t := fun member =>
        nulFree (List.mem_append_right _ member)
      have freeV : 0 ∉ v := fun member => free (List.mem_append_left _ member)
      refine (extracts_scan named found passed free value).mpr
        ⟨v, t, rfl, fresh, stringOf_terminated held, fun other given => ?_⟩
      obtain rfl := Option.some.inj (placed.symm.trans given)
      rw [begins, stringOf_behind freeV, held, Option.map_some]

theorem Extracts.extractable (extracts : Extracts str param value) :
    Extractable value (attributeText param .start str) rest := by
  obtain ⟨marks, body, rfl, passed⟩ := Skipped.exists rest
  have free : 0 ∉ body := fun member => nulFree (List.mem_append_right _ member)
  obtain ⟨v, t, rfl, fresh, terminated, reads⟩ :=
    (extracts_scan named found passed free value).mp extracts
  have freeV : 0 ∉ v := fun member => free (List.mem_append_left _ member)
  cases placed : attributeText param .start str with
  | none => exact Extractable.unset marks v t passed fresh terminated
  | some text =>
      have read := reads text placed
      by_cases same : marks ++ (v ++ delimiter marks :: t) = EQUALS :: text
      · -- the first occurrence is the attribute
        cases marks with
        | nil =>
            have plain := passed.body EQUALS (congrArg List.head? same)
            exact absurd plain (by decide)
        | cons m marks =>
            obtain ⟨rfl, rfl⟩ := List.cons.inj same
            exact extractable_of_reads passed fresh freeV read
      · rw [stringOf_behind freeV] at read
        obtain ⟨u, held, begins⟩ := Option.map_eq_some_iff.mp read
        exact Extractable.elsewhere text marks v u t same passed fresh begins.symm held

end extract

theorem strstr_split {needle : Bytes} : ∀ {text before rest : Bytes},
    strstr needle text = some (before, rest) → text = before ++ (needle ++ rest) := by
  intro text
  induction text with
  | nil =>
      intro before rest found
      rw [strstr] at found
      split_ifs at found with empty
      obtain ⟨rfl, rfl⟩ := Prod.mk.inj (Option.some.inj found)
      rw [empty]
      rfl
  | cons c text ih =>
      intro before rest found
      rw [strstr] at found
      split_ifs at found with begins
      · obtain ⟨rfl, rfl⟩ := Prod.mk.inj (Option.some.inj found)
        obtain ⟨behind, split⟩ := List.isPrefixOf_iff_prefix.mp begins
        rw [← split, List.drop_left, List.nil_append]
      · obtain ⟨⟨front, back⟩, later, same⟩ := Option.map_eq_some_iff.mp found
        obtain ⟨rfl, rfl⟩ := Prod.mk.inj same
        rw [ih later]
        rfl

theorem behind_nulFree {needle text before rest : Bytes} (nulFree : 0 ∉ text)
    (found : strstr needle text = some (before, rest)) : 0 ∉ rest := by
  rw [strstr_split found] at nulFree
  exact fun member => nulFree (by simp [member])

theorem strstr_none {needle behind : Bytes} : ∀ {text before : Bytes},
    strstr needle text = none → text ≠ before ++ (needle ++ behind) := by
  intro text
  induction text with
  | nil =>
      intro before missing same
      rw [strstr] at missing
      split_ifs at missing with empty
      obtain ⟨-, rest⟩ := List.append_eq_nil_iff.mp same.symm
      exact empty (List.append_eq_nil_iff.mp rest).1
  | cons c text ih =>
      intro before missing same
      rw [strstr] at missing
      split_ifs at missing with begins
      cases before with
      | nil =>
          have first : needle <+: c :: text := ⟨behind, same.symm⟩
          exact begins (List.isPrefixOf_iff_prefix.mpr first)
      | cons d before =>
          exact ih (Option.map_eq_none_iff.mp missing) (List.cons.inj same).2

theorem attributeText_split {param behind : Bytes} : ∀ {text : Bytes} {place : Place},
    attributeText param place text = some behind →
      ∃ before, text = before ++ (param ++ EQUALS :: behind) := by
  intro text
  induction text with
  | nil => intro place found; simp [attributeText] at found
  | cons c text ih =>
      intro place found
      rw [attributeText] at found
      split_ifs at found with here
      · obtain ⟨rest, split⟩ := here.2
        obtain rfl := Option.some.inj found
        refine ⟨[], ?_⟩
        rw [← split, List.drop_left' (by simp)]
        simp
      · obtain ⟨before, rfl⟩ := ih found
        exact ⟨c :: before, rfl⟩

example : (attributeText (bytesOf "AUDIO") .start (bytesOf "X-AUDIO=\"a\",AUDIO=\"b\"")).map
    valueText = some (bytesOf "b") := by decide

/-- `getValue` is safe and leaves the value exactly in the extractable cases. -/
theorem getValue_extracts_iff (line : CString) (name value : Bytes) (named : name ≠ []) :
    Extracts line.chars name value ↔
      ∀ parts ∈ strstr name line.chars,
        Extractable value (attributeText name .start line.chars) parts.2 := by
  cases found : strstr name line.chars with
  | none =>
      have kept : getValue line.chars name value = some (value, 0) := by
        rw [getValue, if_neg named, found]
      refine ⟨fun _ parts member => by simp at member, fun _ => ⟨_, kept, fun text placed => ?_⟩⟩
      obtain ⟨before, split⟩ := attributeText_split placed
      exact absurd split (strstr_none found)
  | some parts =>
      obtain ⟨before, rest⟩ := parts
      have nulFree := behind_nulFree line.nulFree found
      constructor
      · intro extracts parts member
        obtain rfl := Option.some.inj member
        exact extracts.extractable named found nulFree
      · exact fun extractable => (extractable _ rfl).extracts named found nulFree

/-- A line with three attributes, and a destination that held a value as long. -/
theorem groupId_extracts :
    Extracts (CString.lit "#EXT-X-MEDIA:TYPE=AUDIO,GROUP-ID=\"g\",NAME=\"n\"").chars
      (bytesOf "GROUP-ID") (104 :: List.replicate 31 0) := by
  refine (getValue_extracts_iff _ _ _ (by decide)).mpr fun parts member => ?_
  have found : strstr (bytesOf "GROUP-ID")
      (CString.lit "#EXT-X-MEDIA:TYPE=AUDIO,GROUP-ID=\"g\",NAME=\"n\"").chars =
        some (bytesOf "#EXT-X-MEDIA:TYPE=AUDIO,", bytesOf "=\"g\",NAME=\"n\"") := by
    decide
  have placed : attributeText (bytesOf "GROUP-ID") .start
      (CString.lit "#EXT-X-MEDIA:TYPE=AUDIO,GROUP-ID=\"g\",NAME=\"n\"").chars =
        some (bytesOf "\"g\",NAME=\"n\"") := by
    decide
  obtain rfl := Option.some.inj (found.symm.trans member)
  rw [placed]
  exact Extractable.quoted 34 [103] _ rfl (by decide) ⟨103, rfl, rfl⟩ rfl

/-- The last attribute of a line, without quotes. -/
theorem lastAttribute_unread :
    ¬ Extracts (CString.lit "A=x").chars (bytesOf "A") (List.replicate 32 0) := by
  rintro ⟨found, got, -⟩
  have leaves : getValue (CString.lit "A=x").chars (bytesOf "A") (List.replicate 32 0) = none := by
    decide
  rw [leaves] at got
  simp at got

end AirCast.Hls
