import AirCast.CString
import AirCast.Lib.Runs

/-! # The lines of a playlist

`get_line` of `utils.c` and the two loops of `trans` that call it.  It ends at the
end of the text and at an empty line alike, and cuts a line at the size of the
buffer; the loop of the master playlist reads some lines into a buffer that is
not cleared. -/

set_option autoImplicit false

namespace AirCast.Hls

def MAX_LINE : ℕ := 2048

def isBreak (c : UInt8) : Bool := c == 13 || c == 10

/-- The bytes that `p` passes in the first loop of `get_line`. -/
def lineChars : ℕ → Bytes → Bytes
  | 0, _ => []
  | _ + 1, [] => []
  | size + 1, c :: src => if size = 0 ∨ isBreak c then [] else c :: lineChars size src

/-- `get_line`: the buffer `line` and the new position in the text, which ends before its
terminator; `none` is the null pointer. -/
def getLine (size : ℕ) (line src : Bytes) : Option (Bytes × Bytes) :=
  let chars := lineChars size src
  if chars = [] then none
  else some (chars ++ line.drop chars.length, (src.drop chars.length).dropWhile isBreak)

theorem lineChars_begins : ∀ (size : ℕ) (src : Bytes), lineChars size src <+: src := by
  intro size
  induction size with
  | zero => intro src; exact List.nil_prefix
  | succ size ih =>
      intro src
      cases src with
      | nil => exact List.nil_prefix
      | cons c src =>
          rw [lineChars]
          split_ifs
          · exact List.nil_prefix
          · exact List.cons_prefix_cons.mpr ⟨rfl, ih src⟩

theorem getLine_shorter {size : ℕ} {line src : Bytes} {found : Bytes × Bytes}
    (got : getLine size line src = some found) : found.2.length < src.length := by
  rw [getLine] at got
  split_ifs at got with empty
  obtain rfl := Option.some.inj got
  have positive := List.length_pos_iff.mpr empty
  have inside := (lineChars_begins size src).length_le
  have rest := ((src.drop (lineChars size src).length).dropWhile_suffix isBreak).length_le
  rw [List.length_drop] at rest
  dsimp only
  omega

/-! ## The loops -/

/-- The string that a buffer holds; `none` when its terminator is not in the buffer. -/
def stringOf (buffer : Bytes) : Option Bytes :=
  if 0 ∈ buffer then some (CString.ofBytes buffer).chars else none

/-- `memset(line, 0, MAX_LINE)`. -/
def cleared : Bytes := List.replicate MAX_LINE 0

def mediaLines (src : Bytes) : Option (List Bytes) :=
  match _found : getLine MAX_LINE cleared src with
  | none => some []
  | some (line, rest) =>
      (stringOf line).bind fun shown => (mediaLines rest).map (shown :: ·)
termination_by src.length
decreasing_by exact getLine_shorter _found

def EXT_X_STREAM_INF : Bytes := bytesOf "#EXT-X-STREAM-INF"

/-- The lines that the loop of a master playlist visits; the line behind a stream is read into
`line2`, which keeps the bytes behind it. -/
def masterLines (line2 src : Bytes) : Option (List Bytes) :=
  match _found : getLine MAX_LINE cleared src with
  | none => some []
  | some (line, rest) =>
      (stringOf line).bind fun shown =>
        if EXT_X_STREAM_INF <+: shown then
          match _found2 : getLine MAX_LINE line2 rest with
          | none => some [shown]
          | some (line2, rest2) =>
              (stringOf line2).bind fun shown2 =>
                (masterLines line2 rest2).map (shown :: shown2 :: ·)
        else (masterLines line2 rest).map (shown :: ·)
termination_by src.length
decreasing_by
  · exact (getLine_shorter _found2).trans (getLine_shorter _found)
  · exact getLine_shorter _found

/-! ## One line -/

theorem lineChars_eq : ∀ (size : ℕ) (src : Bytes),
    lineChars (size + 1) src = (src.takeWhile fun c => !isBreak c).take size := by
  intro size
  induction size with
  | zero =>
      intro src
      cases src with
      | nil => rfl
      | cons c src => rw [lineChars, if_pos (Or.inl rfl), List.take_zero]
  | succ size ih =>
      intro src
      cases src with
      | nil => rfl
      | cons c src =>
          rw [lineChars]
          by_cases ends : isBreak c = true
          · rw [if_pos (Or.inr ends), List.takeWhile_cons_of_neg (by simpa using ends),
              List.take_nil]
          · rw [if_neg (by simpa using ends), List.takeWhile_cons_of_pos (by simpa using ends),
              List.take_succ_cons, ih]

/-- `run` is the first run of the text `run ++ rest`. -/
structure FirstRun (run rest : Bytes) : Prop where
  nonempty : run ≠ []
  free : ∀ c ∈ run, isBreak c = false
  ends : ∀ c ∈ rest.head?, isBreak c = true

theorem FirstRun.exists_of_head {c : UInt8} (first : isBreak c = false) (src : Bytes) :
    ∃ run rest, c :: src = run ++ rest ∧ FirstRun run rest := by
  refine ⟨c :: src.takeWhile fun d => !isBreak d, src.dropWhile fun d => !isBreak d, ?_,
    List.cons_ne_nil _ _, ?_, ?_⟩
  · rw [List.cons_append, List.takeWhile_append_dropWhile]
  · intro d member
    rcases List.mem_cons.mp member with rfl | inside
    · exact first
    · simpa using List.mem_takeWhile_imp inside
  · intro d head
    have stopped := List.head?_dropWhile_not (fun d => !isBreak d) src
    rw [Option.mem_def] at head
    rw [head] at stopped
    simpa using stopped

theorem FirstRun.takeWhile {run rest : Bytes} (first : FirstRun run rest) :
    ((run ++ rest).takeWhile fun c => !isBreak c) = run := by
  rw [List.takeWhile_append_of_pos (fun c member => by simp [first.free c member])]
  cases rest with
  | nil => rw [List.takeWhile_nil, List.append_nil]
  | cons c rest =>
      rw [List.takeWhile_cons_of_neg (by simp [first.ends c rfl]), List.append_nil]

theorem FirstRun.getLine {run rest : Bytes} (first : FirstRun run rest) {size : ℕ}
    (fits : run.length < size) (line : Bytes) :
    getLine size line (run ++ rest) =
      some (run ++ line.drop run.length, rest.dropWhile isBreak) := by
  obtain ⟨size, rfl⟩ := Nat.exists_eq_add_of_lt (Nat.zero_lt_of_lt fits)
  rw [Hls.getLine, Nat.zero_add, lineChars_eq, first.takeWhile,
    List.take_of_length_le (by omega)]
  simp only [if_neg first.nonempty, List.drop_left]

theorem FirstRun.getLine_cut {run rest : Bytes} (first : FirstRun run rest) {size : ℕ}
    (more : 0 < size) (long : size < run.length) (line : Bytes) :
    ∃ left, Hls.getLine (size + 1) line (run ++ rest) =
      some (run.take size ++ line.drop size, left) := by
  have some_chars : run.take size ≠ [] := by
    rw [← List.length_pos_iff, List.length_take]
    omega
  have count : (run.take size).length = size := List.length_take_of_le long.le
  rw [Hls.getLine, lineChars_eq, first.takeWhile]
  simp only [if_neg some_chars, count]
  exact ⟨_, rfl⟩

theorem stringOf_append {chars : Bytes} (nulFree : 0 ∉ chars) (behind : Bytes) :
    stringOf (chars ++ behind) = some chars ↔ behind.head? = some 0 := by
  have passed : (CString.ofBytes (chars ++ behind)).chars =
      chars ++ behind.takeWhile (· ≠ 0) :=
    List.takeWhile_append_of_pos fun c member => by
      simpa using fun zero : c = 0 => nulFree (zero ▸ member)
  rw [stringOf, passed]
  cases behind with
  | nil => simp [nulFree]
  | cons c behind =>
      by_cases zero : c = 0
      · simp [zero]
      · simp [zero, List.takeWhile_cons_of_pos]

theorem stringOf_behind {chars : Bytes} (nulFree : 0 ∉ chars) (behind : Bytes) :
    stringOf (chars ++ behind) = (stringOf behind).map (chars ++ ·) := by
  have passed : (CString.ofBytes (chars ++ behind)).chars =
      chars ++ (CString.ofBytes behind).chars :=
    List.takeWhile_append_of_pos fun c member => by
      simpa using fun zero : c = 0 => nulFree (zero ▸ member)
  rw [stringOf, stringOf, passed]
  by_cases terminated : 0 ∈ behind
  · simp [terminated]
  · simp [terminated, nulFree]

theorem stringOf_terminated {buffer shown : Bytes} (read : stringOf buffer = some shown) :
    0 ∈ buffer := by
  rw [stringOf] at read
  split_ifs at read with terminated
  exact terminated

theorem stringOf_prefix {chars behind shown : Bytes} (nulFree : 0 ∉ chars)
    (read : stringOf (chars ++ behind) = some shown) : chars <+: shown := by
  rw [stringOf_behind nulFree] at read
  obtain ⟨u, -, rfl⟩ := Option.map_eq_some_iff.mp read
  exact List.prefix_append chars u

theorem shown_cleared {run : Bytes} (nulFree : 0 ∉ run)
    (fits : run.length < MAX_LINE) :
    stringOf (run ++ cleared.drop run.length) = some run := by
  rw [stringOf_append nulFree, cleared, List.drop_replicate, List.head?_replicate,
    if_neg (by omega)]

theorem stringOf_length {buffer shown : Bytes} (read : stringOf buffer = some shown) :
    shown.length < buffer.length := by
  rw [stringOf] at read
  split_ifs at read with terminated
  obtain rfl := Option.some.inj read
  refine lt_of_le_of_ne (List.takeWhile_prefix _).length_le fun whole => ?_
  have same : (CString.ofBytes buffer).chars = buffer :=
    (List.takeWhile_prefix _).eq_of_length whole
  exact (CString.ofBytes buffer).nulFree (same.symm ▸ terminated)

theorem cut_shown {run line shown : Bytes} (long : MAX_LINE ≤ run.length)
    (size : line.length = MAX_LINE)
    (read : stringOf (run.take 2047 ++ line.drop 2047) = some shown) : shown ≠ run := by
  have short := stringOf_length read
  simp only [List.length_append, List.length_take, List.length_drop, MAX_LINE] at short long size
  rintro rfl
  omega

theorem cleared_length : cleared.length = MAX_LINE := List.length_replicate

section media

variable {run rest : Bytes}

theorem mediaLines_nil : mediaLines [] = some [] := by
  rw [mediaLines]
  rfl

theorem mediaLines_run (first : FirstRun run rest) (nulFree : 0 ∉ run)
    (fits : run.length < MAX_LINE) :
    mediaLines (run ++ rest) = (mediaLines (rest.dropWhile isBreak)).map (run :: ·) := by
  rw [mediaLines]
  split
  · rename_i nothing
    exact absurd (nothing.symm.trans (first.getLine fits cleared)) (by simp)
  · rename_i line left found
    obtain ⟨rfl, rfl⟩ := Prod.mk.inj
      (Option.some.inj (found.symm.trans (first.getLine fits cleared)))
    rw [shown_cleared nulFree fits, Option.bind_some]

theorem mediaLines_cut (first : FirstRun run rest) (long : MAX_LINE ≤ run.length)
    (others : List Bytes) : mediaLines (run ++ rest) ≠ some (run :: others) := by
  obtain ⟨left, cut⟩ := first.getLine_cut (show 0 < 2047 by omega) long cleared
  intro visited
  rw [mediaLines] at visited
  split at visited
  · simp at visited
  · rename_i line behind found
    obtain ⟨rfl, rfl⟩ := Prod.mk.inj (Option.some.inj (found.symm.trans cut))
    obtain ⟨shown, read, same⟩ := Option.bind_eq_some_iff.mp visited
    obtain ⟨_, _, heads⟩ := Option.map_eq_some_iff.mp same
    exact cut_shown long cleared_length read (List.cons.inj heads).1

def AtLine (src : Bytes) : Prop := ∀ c ∈ src.head?, isBreak c = false

theorem AtLine.dropWhile (src : Bytes) : AtLine (src.dropWhile isBreak) := by
  intro c head
  have stopped := List.head?_dropWhile_not isBreak src
  rw [Option.mem_def] at head
  rw [head] at stopped
  simpa using stopped

theorem AtLine.cases {src : Bytes} (atLine : AtLine src) :
    src = [] ∨ ∃ run rest, src = run ++ rest ∧ FirstRun run rest := by
  cases src with
  | nil => exact Or.inl rfl
  | cons c src => exact Or.inr (FirstRun.exists_of_head (atLine c rfl) src)

theorem FirstRun.runs (first : FirstRun run rest) :
    runs isBreak (run ++ rest) = run :: AirCast.runs isBreak (rest.dropWhile isBreak) := by
  rw [runs_append first.nonempty first.free first.ends, runs_dropWhile]

theorem FirstRun.dropWhile_length (first : FirstRun run rest) :
    (rest.dropWhile isBreak).length < (run ++ rest).length := by
  have positive := List.length_pos_iff.mpr first.nonempty
  have shorter := (rest.dropWhile_suffix isBreak).length_le
  rw [List.length_append]
  omega

theorem mediaLines_atLine (src : Bytes) (atLine : AtLine src) (nulFree : 0 ∉ src) :
    mediaLines src = some (runs isBreak src) ↔
      ∀ run ∈ runs isBreak src, run.length < MAX_LINE := by
  induction size : src.length using Nat.strong_induction_on generalizing src with
  | _ size ih =>
      subst size
      obtain rfl | ⟨run, rest, rfl, first⟩ := atLine.cases
      · simp [mediaLines_nil]
      · have nulFreeRun : 0 ∉ run := fun member => nulFree (List.mem_append_left _ member)
        have nulFreeRest : 0 ∉ rest.dropWhile isBreak := fun member =>
          nulFree (List.mem_append_right _ ((rest.dropWhile_sublist isBreak).mem member))
        rw [first.runs, List.forall_mem_cons]
        by_cases fits : run.length < MAX_LINE
        · rw [mediaLines_run first nulFreeRun fits, Option.map_eq_some_iff,
            ← ih _ first.dropWhile_length _ (AtLine.dropWhile rest) nulFreeRest rfl]
          simp [fits]
        · simp only [fits, false_and, iff_false]
          exact mediaLines_cut first (not_lt.mp fits) _

end media

section master

variable {run rest line2 : Bytes}

theorem masterLines_nil : masterLines line2 [] = some [] := by
  rw [masterLines]
  rfl

theorem masterLines_other (first : FirstRun run rest) (nulFree : 0 ∉ run)
    (fits : run.length < MAX_LINE) (other : ¬ EXT_X_STREAM_INF <+: run) :
    masterLines line2 (run ++ rest) =
      (masterLines line2 (rest.dropWhile isBreak)).map (run :: ·) := by
  rw [masterLines]
  split
  · rename_i nothing
    exact absurd (nothing.symm.trans (first.getLine fits cleared)) (by simp)
  · rename_i line left found
    obtain ⟨rfl, rfl⟩ := Prod.mk.inj
      (Option.some.inj (found.symm.trans (first.getLine fits cleared)))
    rw [shown_cleared nulFree fits, Option.bind_some, if_neg other]

theorem masterLines_last (first : FirstRun run rest) (nulFree : 0 ∉ run)
    (fits : run.length < MAX_LINE) (stream : EXT_X_STREAM_INF <+: run)
    (last : rest.dropWhile isBreak = []) :
    masterLines line2 (run ++ rest) = some [run] := by
  rw [masterLines]
  split
  · rename_i nothing
    exact absurd (nothing.symm.trans (first.getLine fits cleared)) (by simp)
  · rename_i line left found
    obtain ⟨rfl, rfl⟩ := Prod.mk.inj
      (Option.some.inj (found.symm.trans (first.getLine fits cleared)))
    rw [shown_cleared nulFree fits, Option.bind_some, if_pos stream]
    split
    · rfl
    · rename_i found2
      rw [last] at found2
      simp [getLine, lineChars_eq, MAX_LINE] at found2

theorem masterLines_stream (first : FirstRun run rest) (nulFree : 0 ∉ run)
    (fits : run.length < MAX_LINE) (stream : EXT_X_STREAM_INF <+: run)
    {buffer rest2 : Bytes}
    (found : getLine MAX_LINE line2 (rest.dropWhile isBreak) = some (buffer, rest2)) :
    masterLines line2 (run ++ rest) = (stringOf buffer).bind fun shown =>
      (masterLines buffer rest2).map (run :: shown :: ·) := by
  rw [masterLines]
  split
  · rename_i nothing
    exact absurd (nothing.symm.trans (first.getLine fits cleared)) (by simp)
  · rename_i line left found1
    obtain ⟨rfl, rfl⟩ := Prod.mk.inj
      (Option.some.inj (found1.symm.trans (first.getLine fits cleared)))
    rw [shown_cleared nulFree fits, Option.bind_some, if_pos stream]
    split
    · rename_i nothing
      exact absurd (nothing.symm.trans found) (by simp)
    · rename_i buffer' left found2
      obtain ⟨rfl, rfl⟩ := Prod.mk.inj (Option.some.inj (found2.symm.trans found))
      rfl

theorem masterLines_behind (first : FirstRun run rest) (nulFree : 0 ∉ run)
    (fits : run.length < MAX_LINE) (stream : EXT_X_STREAM_INF <+: run)
    {run2 rest2 : Bytes} (first2 : FirstRun run2 rest2) (nulFree2 : 0 ∉ run2)
    (fits2 : run2.length < MAX_LINE) (split : rest.dropWhile isBreak = run2 ++ rest2)
    (lines : List Bytes) :
    masterLines line2 (run ++ rest) = some (run :: run2 :: lines) ↔
      line2[run2.length]? = some 0 ∧
        masterLines (run2 ++ line2.drop run2.length) (rest2.dropWhile isBreak) = some lines := by
  have found := first2.getLine fits2 line2
  rw [← split] at found
  rw [masterLines_stream first nulFree fits stream found, Option.bind_eq_some_iff,
    ← List.head?_drop, ← stringOf_append nulFree2]
  constructor
  · rintro ⟨shown, read, later⟩
    obtain ⟨others, visited, same⟩ := Option.map_eq_some_iff.mp later
    obtain ⟨rfl, rfl⟩ := List.cons.inj (List.cons.inj same).2
    exact ⟨read, visited⟩
  · rintro ⟨read, visited⟩
    exact ⟨run2, read, by rw [visited, Option.map_some]⟩

theorem masterLines_behind_cut (first : FirstRun run rest) (nulFree : 0 ∉ run)
    (fits : run.length < MAX_LINE) (stream : EXT_X_STREAM_INF <+: run)
    {run2 rest2 : Bytes} (first2 : FirstRun run2 rest2) (long : MAX_LINE ≤ run2.length)
    (bytes : line2.length = MAX_LINE) (split : rest.dropWhile isBreak = run2 ++ rest2)
    (lines : List Bytes) : masterLines line2 (run ++ rest) ≠ some (run :: run2 :: lines) := by
  obtain ⟨left, cut⟩ := first2.getLine_cut (show 0 < 2047 by omega) long line2
  rw [← split] at cut
  rw [masterLines_stream first nulFree fits stream cut]
  intro visited
  obtain ⟨shown, read, later⟩ := Option.bind_eq_some_iff.mp visited
  obtain ⟨_, _, same⟩ := Option.map_eq_some_iff.mp later
  exact cut_shown long bytes read (List.cons.inj (List.cons.inj same).2).1

theorem masterLines_cut (first : FirstRun run rest) (long : MAX_LINE ≤ run.length)
    (others : List Bytes) : masterLines line2 (run ++ rest) ≠ some (run :: others) := by
  obtain ⟨left, cut⟩ := first.getLine_cut (show 0 < 2047 by omega) long cleared
  intro visited
  rw [masterLines] at visited
  split at visited
  · simp at visited
  · rename_i line behind found
    obtain ⟨rfl, rfl⟩ := Prod.mk.inj (Option.some.inj (found.symm.trans cut))
    obtain ⟨shown, read, same⟩ := Option.bind_eq_some_iff.mp visited
    have begins : shown = run := by
      split_ifs at same
      · split at same
        · exact (List.cons.inj (Option.some.inj same)).1
        · obtain ⟨_, _, same⟩ := Option.bind_eq_some_iff.mp same
          obtain ⟨_, _, heads⟩ := Option.map_eq_some_iff.mp same
          exact (List.cons.inj heads).1
      · obtain ⟨_, _, heads⟩ := Option.map_eq_some_iff.mp same
        exact (List.cons.inj heads).1
    exact cut_shown long cleared_length read begins

/-- Behind every line that is read into `line2` the buffer holds a terminator; `lines` are read
from here. -/
def Line2Ends : Bytes → List Bytes → Prop
  | _, [] => True
  | _, [_] => True
  | line2, line :: next :: lines =>
      if EXT_X_STREAM_INF <+: line then
        line2[next.length]? = some 0 ∧ Line2Ends (next ++ line2.drop next.length) lines
      else Line2Ends line2 (next :: lines)

theorem line2Ends_other (other : ¬ EXT_X_STREAM_INF <+: run) (lines : List Bytes) :
    Line2Ends line2 (run :: lines) ↔ Line2Ends line2 lines := by
  cases lines with
  | nil => simp [Line2Ends]
  | cons next lines => rw [Line2Ends, if_neg other]

theorem masterLines_atLine (src : Bytes) (atLine : AtLine src) (nulFree : 0 ∉ src)
    (line2 : Bytes) (bytes : line2.length = MAX_LINE) :
    masterLines line2 src = some (runs isBreak src) ↔
      (∀ run ∈ runs isBreak src, run.length < MAX_LINE) ∧
        Line2Ends line2 (runs isBreak src) := by
  induction size : src.length using Nat.strong_induction_on generalizing src line2 with
  | _ size ih =>
      subst size
      obtain rfl | ⟨run, rest, rfl, first⟩ := atLine.cases
      · simp [masterLines_nil, Line2Ends]
      · have nulFreeRun : 0 ∉ run := fun member => nulFree (List.mem_append_left _ member)
        have nulFreeRest : 0 ∉ rest.dropWhile isBreak := fun member =>
          nulFree (List.mem_append_right _ ((rest.dropWhile_sublist isBreak).mem member))
        have shorter := first.dropWhile_length
        rw [first.runs, List.forall_mem_cons]
        by_cases fits : run.length < MAX_LINE
        · by_cases stream : EXT_X_STREAM_INF <+: run
          · obtain last | ⟨run2, rest2, split, first2⟩ := (AtLine.dropWhile rest).cases
            · rw [masterLines_last first nulFreeRun fits stream last, last]
              simp [fits, Line2Ends]
            · rw [split] at nulFreeRest shorter ⊢
              have nulFreeRun2 : 0 ∉ run2 := fun member =>
                nulFreeRest (List.mem_append_left _ member)
              rw [first2.runs, List.forall_mem_cons, Line2Ends, if_pos stream]
              by_cases fits2 : run2.length < MAX_LINE
              · have bytes2 : (run2 ++ line2.drop run2.length).length = MAX_LINE := by
                  rw [List.length_append, List.length_drop]
                  omega
                rw [masterLines_behind first nulFreeRun fits stream first2 nulFreeRun2 fits2 split,
                  ih _ (first2.dropWhile_length.trans shorter) _ (AtLine.dropWhile rest2)
                    (fun member => nulFreeRest (List.mem_append_right _
                      ((rest2.dropWhile_sublist isBreak).mem member))) _ bytes2 rfl]
                simp only [fits, fits2, true_and]
                exact and_left_comm
              · simp only [fits2, false_and, and_false, iff_false]
                exact masterLines_behind_cut first nulFreeRun fits stream first2
                  (not_lt.mp fits2) bytes split _
          · rw [masterLines_other first nulFreeRun fits stream, line2Ends_other stream,
              Option.map_eq_some_iff]
            have later := ih _ shorter _ (AtLine.dropWhile rest) nulFreeRest line2 bytes rfl
            simp [fits, later]
        · simp only [fits, false_and, iff_false]
          exact masterLines_cut first (not_lt.mp fits) _

end master

/-! ## The loops visit the lines -/

/-- The text begins with a line unless it has none, and its lines fit the buffer. -/
def Readable (text : Bytes) : Prop :=
  ((∃ c ∈ text.head?, isBreak c = true) → ∀ c ∈ text, isBreak c = true) ∧
    ∀ run ∈ runs isBreak text, run.length < MAX_LINE

theorem getLine_break {size : ℕ} {line text : Bytes} (leads : ∃ c ∈ text.head?, isBreak c = true) :
    getLine size line text = none := by
  obtain ⟨c, head, separator⟩ := leads
  obtain ⟨rest, rfl⟩ := List.head?_eq_some_iff.mp head
  cases size with
  | zero => rfl
  | succ size => simp [getLine, lineChars, separator]

section leading

variable {text : Bytes} (leads : ∃ c ∈ text.head?, isBreak c = true)
include leads

theorem mediaLines_leading : mediaLines text = some [] := by
  rw [mediaLines]
  split
  · rfl
  · rename_i found
    exact absurd (found.symm.trans (getLine_break leads)) (by simp)

theorem masterLines_leading {line2 : Bytes} : masterLines line2 text = some [] := by
  rw [masterLines]
  split
  · rfl
  · rename_i found
    exact absurd (found.symm.trans (getLine_break leads)) (by simp)

theorem visits_leading : some [] = some (runs isBreak text) ↔ Readable text := by
  rw [Readable, Option.some_inj, eq_comm, runs_eq_nil_iff]
  constructor
  · intro breaks
    refine ⟨fun _ => breaks, ?_⟩
    rw [(runs_eq_nil_iff text).mpr breaks]
    simp
  · exact fun readable => readable.1 leads

end leading

theorem atLine_of_not (text : Bytes) (leads : ¬ ∃ c ∈ text.head?, isBreak c = true) :
    AtLine text := by
  intro c head
  simpa using fun separator => leads ⟨c, head, separator⟩

theorem readable_atLine {text : Bytes} (leads : ¬ ∃ c ∈ text.head?, isBreak c = true) :
    Readable text ↔ ∀ run ∈ runs isBreak text, run.length < MAX_LINE :=
  and_iff_right fun found => absurd found leads

theorem media_visited_iff (text : CString) :
    mediaLines text.chars = some (runs isBreak text.chars) ↔ Readable text.chars := by
  by_cases leads : ∃ c ∈ text.chars.head?, isBreak c = true
  · rw [mediaLines_leading leads]
    exact visits_leading leads
  · rw [readable_atLine leads]
    exact mediaLines_atLine _ (atLine_of_not text.chars leads) text.nulFree

theorem master_visited_iff (text : CString) (line2 : Bytes) (bytes : line2.length = MAX_LINE) :
    masterLines line2 text.chars = some (runs isBreak text.chars) ↔
      Readable text.chars ∧ Line2Ends line2 (runs isBreak text.chars) := by
  by_cases leads : ∃ c ∈ text.chars.head?, isBreak c = true
  · rw [masterLines_leading leads]
    refine (visits_leading leads).trans ⟨fun readable => ?_, And.left⟩
    rw [(runs_eq_nil_iff text.chars).mpr (readable.1 leads)]
    exact ⟨readable, trivial⟩
  · rw [readable_atLine leads]
    exact masterLines_atLine _ (atLine_of_not text.chars leads) text.nulFree line2 bytes

/-- Both loops visit every line of a text, whole and in order, and then stop. -/
theorem lines_visited_iff (text : CString) (line2 : Bytes) (bytes : line2.length = MAX_LINE) :
    (mediaLines text.chars = some (runs isBreak text.chars) ↔ Readable text.chars) ∧
      (masterLines line2 text.chars = some (runs isBreak text.chars) ↔
        Readable text.chars ∧ Line2Ends line2 (runs isBreak text.chars)) :=
  ⟨media_visited_iff text, master_visited_iff text line2 bytes⟩

def fourLines : CString :=
  .ofBytes (bytesOf "#EXTM3U\n#EXT-X-STREAM-INF:B=1\na.m3u8\r\n\n#EXTINF:2\n")

theorem fourLines_runs :
    runs isBreak fourLines.chars = [bytesOf "#EXTM3U", bytesOf "#EXT-X-STREAM-INF:B=1",
      bytesOf "a.m3u8", bytesOf "#EXTINF:2"] := by
  decide

def leftBy (address : Bytes) : Bytes := address ++ List.replicate (MAX_LINE - address.length) 0

theorem leftBy_length {address : Bytes} (fits : address.length ≤ MAX_LINE) :
    (leftBy address).length = MAX_LINE := by
  rw [leftBy, List.length_append, List.length_replicate]
  omega

/-- The four lines are visited behind an address of the same length, but not behind a longer one. -/
theorem fourLines_visited :
    mediaLines fourLines.chars = some (runs isBreak fourLines.chars) ∧
      masterLines (leftBy (bytesOf "b.m3u8")) fourLines.chars =
          some (runs isBreak fourLines.chars) ∧
        masterLines (leftBy (bytesOf "longer.m3u8")) fourLines.chars ≠
          some (runs isBreak fourLines.chars) := by
  have readable : Readable fourLines.chars := by
    refine ⟨by decide, ?_⟩
    rw [fourLines_runs]
    decide
  have same : (leftBy (bytesOf "b.m3u8")).length = MAX_LINE := leftBy_length (by decide)
  have longer : (leftBy (bytesOf "longer.m3u8")).length = MAX_LINE := leftBy_length (by decide)
  have ends (line2 : Bytes) :
      Line2Ends line2 (runs isBreak fourLines.chars) ↔ line2[6]? = some 0 := by
    rw [fourLines_runs, line2Ends_other (by decide), Line2Ends, if_pos (by decide)]
    exact and_iff_left trivial
  refine ⟨(lines_visited_iff fourLines _ same).1.mpr readable,
    (lines_visited_iff fourLines _ same).2.mpr ⟨readable, (ends _).mpr (by decide)⟩,
    fun visited => ?_⟩
  have stopped := (ends _).mp ((lines_visited_iff fourLines _ longer).2.mp visited).2
  revert stopped
  decide

/-- The line of a text that begins with a line break is not visited. -/
theorem leadingBreak_unvisited :
    mediaLines (10 :: bytesOf "#EXTM3U") ≠ some (runs isBreak (10 :: bytesOf "#EXTM3U")) := by
  have lines : runs isBreak (10 :: bytesOf "#EXTM3U") = [bytesOf "#EXTM3U"] := by
    rw [runs_cons_separator (by decide)]
    decide
  rw [mediaLines_leading ⟨10, rfl, rfl⟩, lines]
  decide

end AirCast.Hls
