import AirCast.Hls.HlsTrans

/-! # Playlists with condensed URLs

A media playlist of `#` lines, headers and the segment lines behind them, the lines
it stands for, and what `trans` writes for it. -/

set_option autoImplicit false

namespace AirCast.Hls

/-! ## Playlists -/

def IsLine (line : Bytes) : Prop := ∀ c ∈ line, c ≠ 0 ∧ isBreak c = false

/-- The line has the attribute `name` with the quoted value `v`. -/
def Attribute (line name v : Bytes) : Prop :=
  ∃ q after, isQuote q = true ∧ q ∉ v ∧
    attributeText name .start line = some (q :: (v ++ q :: after))

structure Comment where
  line : Bytes
  isLine : IsLine line
  hash : line.head? = some HASH
  other : ¬ CONDENSED_URL <+: line

structure Header where
  line : Bytes
  baseUri : Bytes
  params : List Bytes
  linePrefix : Bytes
  isLine : IsLine line
  begins : CONDENSED_URL <+: line
  setsBaseUri : Attribute line BASE_URI baseUri
  setsParams : Attribute line PARAMS ([COMMA].intercalate params)
  setsPrefix : Attribute line PREFIX linePrefix
  names : ∀ param ∈ params, param ≠ [] ∧ COMMA ∉ param

/-- A line behind a header with `count` parameters. -/
inductive Entry (count : ℕ)
  | comment (line : Comment)
  | segment (values : List Bytes) (all : values.length = count)
      (parts : ∀ v ∈ values, IsLine v ∧ v ≠ [] ∧ SLASH ∉ v)

structure Section where
  header : Header
  entries : List (Entry header.params.length)

def Section.HasSegment (s : Section) : Prop :=
  ∃ values all parts, Entry.segment values all parts ∈ s.entries

/-- The comments before the first header, and the headers with the lines behind each. -/
structure Playlist where
  lead : List Comment
  sections : List Section

/-! ## The lines of a playlist and of its file -/

def Entry.line {count : ℕ} (header : Header) : Entry count → Bytes
  | comment line => line.line
  | segment values _ _ => [SLASH].intercalate (header.linePrefix :: values)

def Section.lines (s : Section) : List Bytes := s.header.line :: s.entries.map (Entry.line s.header)

def Playlist.lines (playlist : Playlist) : List Bytes :=
  playlist.lead.map Comment.line ++ playlist.sections.flatMap Section.lines

/-- `/p1/v1/…/pn/vn`. -/
def pairs (names values : List Bytes) : Bytes :=
  (names.zip values).flatMap fun pair => SLASH :: pair.1 ++ SLASH :: pair.2

/-- The line that is written for an entry when the parameters are `names`. -/
def Entry.written {count : ℕ} (header : Header) (names : List Bytes) : Entry count → Bytes
  | comment line => line.line
  | segment values _ _ => header.baseUri ++ pairs names values

def Section.written (names : List Bytes) (s : Section) : List Bytes :=
  s.entries.map (Entry.written s.header names)

/-- The lines of the file: every URL is built from the header of its section. -/
def Playlist.written (playlist : Playlist) : List Bytes :=
  playlist.lead.map Comment.line ++
    playlist.sections.flatMap fun s => s.written s.header.params

def fileOf (lines : List Bytes) : Bytes := lines.flatMap (· ++ [10])

/-- The file holds the lines, and the result tells whether there was a header. -/
def Expands (playlist : Playlist) (text : Bytes) : Prop :=
  ∃ ret, trans text = some (fileOf playlist.written, ret) ∧
    (ret = 0 ↔ playlist.sections ≠ [])

/-! ## What the loop needs of a playlist -/

def Held.read (held : Held) (header : Header) : Held where
  url := header.baseUri ++ held.url.drop header.baseUri.length
  params := cutTokens false ([COMMA].intercalate header.params) ++
    held.params.drop ([COMMA].intercalate header.params).length
  linePrefix := header.linePrefix ++ held.linePrefix.drop header.linePrefix.length
  hlsParamList := held.hlsParamList ++ header.params

/-- Each value of the header can be read into the buffers as they are, and the lines behind it
can be told apart and fit.  The prefix of a segment line is one part between slashes. -/
structure Section.Clean (s : Section) (held : Held) : Prop where
  baseUri : Reads s.header.line BASE_URI s.header.baseUri held.url
  params : Reads s.header.line PARAMS ([COMMA].intercalate s.header.params) held.params
  linePrefix : Reads s.header.line PREFIX s.header.linePrefix held.linePrefix
  onePart : s.HasSegment → ∃ part, runs (· == SLASH) s.header.linePrefix = [part]
  other : s.HasSegment → ¬ CONDENSED_URL <+: s.header.linePrefix
  comments : ∀ line, Entry.comment line ∈ s.entries → ¬ s.header.linePrefix <+: line.line
  fits : ∀ entry ∈ s.entries,
    (entry.written s.header (held.hlsParamList ++ s.header.params)).length + 1 < 2 * MAX_LINE

def CleanFrom : Held → List Section → Prop
  | _, [] => True
  | held, s :: sections => s.Clean held ∧ CleanFrom (held.read s.header) sections

/-- Behind every header that a segment follows, the list that is never cleared begins with the
parameters of the header. -/
def ParamsAgree : List Bytes → List Section → Prop
  | _, [] => True
  | hlsParamList, s :: sections =>
      (s.HasSegment → s.header.params <+: hlsParamList ++ s.header.params) ∧
      ParamsAgree (hlsParamList ++ s.header.params) sections

def built : List Bytes → List Section → List Bytes
  | _, [] => []
  | hlsParamList, s :: sections =>
      s.written (hlsParamList ++ s.header.params) ++
        built (hlsParamList ++ s.header.params) sections

section lines

theorem isLine_nulFree {line : Bytes} (isLine : IsLine line) : 0 ∉ line :=
  fun member => (isLine 0 member).1 rfl

theorem Attribute.isLine {line name v : Bytes} (set : Attribute line name v)
    (isLine : IsLine line) : IsLine v := by
  obtain ⟨q, after, _, _, placed⟩ := set
  obtain ⟨before, rfl⟩ := attributeText_split placed
  exact fun c member => isLine c (by simp [member])

theorem Header.params_tokens (header : Header) :
    runs (· == COMMA) ([COMMA].intercalate header.params) = header.params :=
  runs_intercalate header.names

theorem condensedUrl_clean {s : Section} {t : Trans} (clean : s.Clean t.held) :
    condensedUrl s.header.line t =
      some { held := t.held.read s.header, flag := true, file := t.file } := by
  have free {name v : Bytes} (set : Attribute s.header.line name v) : 0 ∉ v :=
    isLine_nulFree (set.isLine s.header.isLine)
  have freeParams := free s.header.setsParams
  have shown : stringOf ([COMMA].intercalate s.header.params ++
      t.held.params.drop ([COMMA].intercalate s.header.params).length) =
        some ([COMMA].intercalate s.header.params) := by
    obtain ⟨_, _, _, _, _, _, _, ended⟩ := clean.params
    exact (stringOf_append freeParams _).mpr (List.head?_drop.trans ended)
  have positive {name v value : Bytes} (reads : Reads s.header.line name v value) :
      ¬ (v.length : ℤ) ≤ 0 := by
    have := reads.length_pos
    omega
  simp only [condensedUrl, clean.baseUri.getValue (by decide) (free s.header.setsBaseUri),
    clean.params.getValue (by decide) freeParams, shown,
    clean.linePrefix.getValue (by decide) (free s.header.setsPrefix),
    if_neg (positive clean.baseUri), if_neg (positive clean.params),
    if_neg (positive clean.linePrefix), Option.bind_eq_bind, Option.bind_some,
    Option.pure_def, s.header.params_tokens, Held.read, List.drop_left]

theorem transLine_header {s : Section} {t : Trans} (clean : s.Clean t.held) :
    transLine t s.header.line =
      some { held := t.held.read s.header, flag := true, file := t.file } := by
  have nonempty : s.header.line ≠ [] := by
    intro empty
    have begins := s.header.begins
    rw [empty] at begins
    exact absurd begins (by decide)
  rw [transLine, if_neg nonempty, if_pos s.header.begins, condensedUrl_clean clean]

theorem transLine_comment {t : Trans} {linePrefix : Bytes} (line : Comment)
    (held : stringOf t.held.linePrefix = some linePrefix)
    (apart : linePrefix ≠ [] → ¬ linePrefix <+: line.line)
    (fits : line.line.length + 1 < 2 * MAX_LINE) :
    transLine t line.line = some { t with file := t.file ++ (line.line ++ [10]) } := by
  have nonempty : line.line ≠ [] := by
    intro empty
    have hash := line.hash
    rw [empty] at hash
    simp at hash
  rw [transLine, if_neg nonempty, if_neg line.other, held, Option.bind_some,
    if_neg fun both => apart both.1 both.2, if_pos line.hash, printed,
    if_pos (by simpa using fits), Option.map_some]

theorem expandUrl_eq : ∀ (names tokens buf : List _),
    (buf ++ pairs names tokens).length < 2 * MAX_LINE →
      expandUrl names tokens buf = some (buf ++ pairs names tokens) := by
  intro names
  induction names with
  | nil => intro tokens buf _; simp [expandUrl, pairs]
  | cons param names ih =>
      intro tokens buf fits
      cases tokens with
      | nil => simp [expandUrl, pairs]
      | cons p tokens =>
          have split : buf ++ pairs (param :: names) (p :: tokens) =
              buf ++ (SLASH :: param ++ SLASH :: p) ++ pairs names tokens := by
            simp [pairs]
          rw [split] at fits ⊢
          have first : (buf ++ (SLASH :: param ++ SLASH :: p)).length < 2 * MAX_LINE := by
            rw [List.length_append] at fits
            omega
          rw [expandUrl, printed, if_pos first, Option.bind_some, ih tokens _ fits]

theorem intercalate_cons (first : Bytes) (values : List Bytes) :
    ∃ rest, [SLASH].intercalate (first :: values) = first ++ rest ∧
      (rest = [] ∨ rest.head? = some SLASH) := by
  cases values with
  | nil => exact ⟨[], by simp, Or.inl rfl⟩
  | cons v values =>
      exact ⟨SLASH :: [SLASH].intercalate (v :: values),
        by rw [List.intercalate_cons_cons]; simp, Or.inr rfl⟩

theorem prefix_intercalate (first : Bytes) (values : List Bytes) :
    first <+: [SLASH].intercalate (first :: values) := by
  obtain ⟨rest, split, -⟩ := intercalate_cons first values
  exact ⟨rest, split.symm⟩

theorem not_condensed {first : Bytes} (values : List Bytes) (other : ¬ CONDENSED_URL <+: first) :
    ¬ CONDENSED_URL <+: [SLASH].intercalate (first :: values) := by
  obtain ⟨rest, split, empty | slash⟩ := intercalate_cons first values
  · rwa [split, empty, List.append_nil]
  · obtain ⟨rest, rfl⟩ := List.head?_eq_some_iff.mp slash
    rw [split]
    intro begins
    rcases Nat.lt_or_ge first.length CONDENSED_URL.length with shorter | longer
    · have inside : first ++ [SLASH] <+: CONDENSED_URL := by
        refine List.prefix_of_prefix_length_le ⟨rest, by simp⟩ begins ?_
        simpa using shorter
      exact absurd (inside.subset (by simp)) (by decide : SLASH ∉ CONDENSED_URL)
    · exact other (List.prefix_of_prefix_length_le begins (List.prefix_append _ _) longer)

/-- A segment is expanded with the parameters in the list. -/
theorem transLine_segment {t : Trans} {header : Header} {values : List Bytes}
    (heldPrefix : stringOf t.held.linePrefix = some header.linePrefix)
    (heldUrl : stringOf t.held.url = some header.baseUri)
    (nonempty : header.linePrefix ≠ [])
    (onePart : ∃ part, runs (· == SLASH) header.linePrefix = [part])
    (other : ¬ CONDENSED_URL <+: header.linePrefix)
    (parts : ∀ v ∈ values, IsLine v ∧ v ≠ [] ∧ SLASH ∉ v)
    (fits : (header.baseUri ++ pairs t.held.hlsParamList values).length + 1 < 2 * MAX_LINE) :
    transLine t ([SLASH].intercalate (header.linePrefix :: values)) =
      some { t with
        file := t.file ++ (header.baseUri ++ pairs t.held.hlsParamList values ++ [10]) } := by
  obtain ⟨part, one⟩ := onePart
  have tokens : runs (· == SLASH) ([SLASH].intercalate (header.linePrefix :: values)) =
      part :: values := by
    rw [runs_intercalate_cons fun v member => (parts v member).2, one]
    rfl
  have begins := prefix_intercalate header.linePrefix values
  have notHeader := not_condensed values other
  have someLine : [SLASH].intercalate (header.linePrefix :: values) ≠ [] := fun empty =>
    nonempty (List.prefix_nil.mp (empty ▸ begins))
  rw [transLine, if_neg someLine, if_neg notHeader, heldPrefix, Option.bind_some,
    if_pos ⟨nonempty, begins⟩, segmentLine, heldUrl, tokens]
  simp only [Option.bind_eq_bind, Option.bind_some, List.tail_cons]
  have whole : (header.baseUri ++ pairs t.held.hlsParamList values ++ [10]).length <
      2 * MAX_LINE := by
    rw [List.length_append]
    exact fits
  rw [expandUrl_eq _ _ _ (by omega), Option.bind_some, printed, if_pos whole]
  rfl

end lines

section runs

@[simp] theorem fileOf_nil : fileOf [] = [] := rfl

@[simp] theorem fileOf_cons (line : Bytes) (lines : List Bytes) :
    fileOf (line :: lines) = line ++ [10] ++ fileOf lines := rfl

theorem fileOf_append (lines others : List Bytes) :
    fileOf (lines ++ others) = fileOf lines ++ fileOf others := List.flatMap_append

theorem lead_run {held : Held} {flag : Bool} (unset : stringOf held.linePrefix = some []) :
    ∀ (lead : List Comment) (file : Bytes), (∀ line ∈ lead, line.line.length < MAX_LINE) →
      (lead.map Comment.line).foldlM transLine { held, flag, file } =
        some { held, flag, file := file ++ fileOf (lead.map Comment.line) } := by
  intro lead
  induction lead with
  | nil => intro file _; simp
  | cons line lead ih =>
      intro file fits
      obtain ⟨first, later⟩ := List.forall_mem_cons.mp fits
      have short : line.line.length + 1 < 2 * MAX_LINE := by
        simp only [MAX_LINE] at first ⊢
        omega
      rw [List.map_cons, List.foldlM_cons,
        transLine_comment line unset (fun set => absurd rfl set) short, Option.bind_eq_bind,
        Option.bind_some, ih _ later, fileOf_cons, List.append_assoc file]

theorem entries_run {s : Section} {held : Held} {flag : Bool} (clean : s.Clean held) :
    ∀ (entries : List (Entry s.header.params.length)) (file : Bytes), entries ⊆ s.entries →
      (entries.map (Entry.line s.header)).foldlM transLine
          { held := held.read s.header, flag, file } =
        some
          { held := held.read s.header
            flag
            file := file ++ fileOf
              (entries.map (Entry.written s.header (held.hlsParamList ++ s.header.params))) } := by
  have free {name v : Bytes} (set : Attribute s.header.line name v) : 0 ∉ v :=
    isLine_nulFree (set.isLine s.header.isLine)
  have heldPrefix : stringOf (held.read s.header).linePrefix = some s.header.linePrefix := by
    obtain ⟨_, _, _, _, _, _, _, ended⟩ := clean.linePrefix
    exact (stringOf_append (free s.header.setsPrefix) _).mpr (List.head?_drop.trans ended)
  have heldUrl : stringOf (held.read s.header).url = some s.header.baseUri := by
    obtain ⟨_, _, _, _, _, _, _, ended⟩ := clean.baseUri
    exact (stringOf_append (free s.header.setsBaseUri) _).mpr (List.head?_drop.trans ended)
  have nonempty : s.header.linePrefix ≠ [] :=
    List.length_pos_iff.mp clean.linePrefix.length_pos
  intro entries
  induction entries with
  | nil => intro file _; simp
  | cons entry entries ih =>
      intro file inside
      obtain ⟨first, later⟩ := List.cons_subset.mp inside
      have fits := clean.fits entry first
      rw [List.map_cons, List.foldlM_cons]
      cases entry with
      | comment line =>
          rw [Entry.line, transLine_comment line heldPrefix
              (fun _ => clean.comments line first) fits, Option.bind_eq_bind, Option.bind_some,
            ih _ later, List.map_cons, fileOf_cons, Entry.written, List.append_assoc file]
      | segment values all parts =>
          have hasSegment : s.HasSegment := ⟨values, all, parts, first⟩
          have step := transLine_segment (t := { held := held.read s.header, flag, file })
            heldPrefix heldUrl nonempty (clean.onePart hasSegment) (clean.other hasSegment) parts
            fits
          rw [Entry.line, step, Option.bind_eq_bind, Option.bind_some, ih _ later,
            List.map_cons, fileOf_cons, Entry.written, List.append_assoc file]
          rfl

theorem sections_run : ∀ (sections : List Section) (held : Held) (flag : Bool) (file : Bytes),
    CleanFrom held sections → ∃ left, (sections.flatMap Section.lines).foldlM transLine
        { held, flag, file } =
      some
        { held := left
          flag := flag || !sections.isEmpty
          file := file ++ fileOf (built held.hlsParamList sections) } := by
  intro sections
  induction sections with
  | nil => intro held flag file _; exact ⟨held, by simp [built]⟩
  | cons s sections ih =>
      intro held flag file clean
      obtain ⟨first, later⟩ := clean
      obtain ⟨left, rest⟩ := ih (held.read s.header) true
        (file ++ fileOf (s.written (held.hlsParamList ++ s.header.params))) later
      refine ⟨left, ?_⟩
      rw [List.flatMap_cons, Section.lines, List.cons_append, List.foldlM_cons,
        transLine_header first, Option.bind_eq_bind, Option.bind_some, List.foldlM_append,
        entries_run first s.entries file (List.Subset.refl _), Option.bind_eq_bind,
        Option.bind_some]
      refine rest.trans ?_
      simp [built, fileOf_append, Held.read]

theorem trans_builds (playlist : Playlist) (text : CString)
    (made : runs isBreak text.chars = playlist.lines) (readable : Readable text.chars)
    (clean : CleanFrom Held.start playlist.sections) :
    trans text.chars = some (fileOf (playlist.lead.map Comment.line ++ built [] playlist.sections),
      if playlist.sections = [] then -1 else 0) := by
  have visited := (media_visited_iff text).mpr readable
  have fits := readable.2
  rw [made] at visited fits
  have unset : stringOf Held.start.linePrefix = some [] := by decide
  have leads := @lead_run Held.start false unset playlist.lead [] fun line member =>
    fits line.line (List.mem_append_left _ (List.mem_map_of_mem member))
  obtain ⟨left, rest⟩ := sections_run playlist.sections Held.start false
    ([] ++ fileOf (playlist.lead.map Comment.line)) clean
  have ran := congrArg (Option.bind · fun s => some (s.file, if s.flag then (0 : ℤ) else -1)) rest
  rw [trans, visited, Option.bind_eq_bind, Option.bind_some, Playlist.lines,
    List.foldlM_append, leads]
  refine ran.trans ?_
  cases playlist.sections <;> simp [fileOf_append, Held.start]

end runs

section params

theorem split_unique {c : UInt8} {first other rest later : Bytes} (fresh : c ∉ first)
    (freshOther : c ∉ other) (same : first ++ c :: rest = other ++ c :: later) :
    first = other ∧ rest = later := by
  have found : strstr [c] (first ++ c :: rest) = some (first, rest) :=
    strstr_byte.mpr ⟨rfl, fresh⟩
  rw [same, strstr_byte.mpr ⟨rfl, freshOther⟩] at found
  exact (Prod.mk.inj (Option.some.inj found)).imp Eq.symm Eq.symm

theorem fileOf_injective : ∀ {lines others : List Bytes}, (∀ line ∈ lines, 10 ∉ line) →
    (∀ line ∈ others, 10 ∉ line) → fileOf lines = fileOf others → lines = others := by
  intro lines
  induction lines with
  | nil =>
      intro others _ _ same
      cases others with
      | nil => rfl
      | cons line others => simp at same
  | cons line lines ih =>
      intro others free freeOthers same
      cases others with
      | nil => simp at same
      | cons other others =>
          obtain ⟨fresh, freeLater⟩ := List.forall_mem_cons.mp free
          obtain ⟨freshOther, freeOthersLater⟩ := List.forall_mem_cons.mp freeOthers
          rw [fileOf_cons, fileOf_cons, List.append_assoc, List.append_assoc] at same
          obtain ⟨rfl, later⟩ := split_unique fresh freshOther same
          rw [ih freeLater freeOthersLater later]

theorem pairs_cons (name v : Bytes) (names values : List Bytes) :
    pairs (name :: names) (v :: values) =
      SLASH :: (name ++ SLASH :: (v ++ pairs names values)) := by
  simp [pairs]

theorem pairs_prefix : ∀ {names list values : List Bytes}, values.length = names.length →
    names <+: list → pairs list values = pairs names values := by
  intro names
  induction names with
  | nil => intro list values count _; rw [List.length_eq_zero_iff.mp count]; simp [pairs]
  | cons name names ih =>
      rintro _ values count ⟨rest, rfl⟩
      cases values with
      | nil => simp at count
      | cons v values =>
          rw [List.cons_append, pairs_cons, pairs_cons,
            ih (Nat.succ.inj count) (List.prefix_append names rest)]

theorem prefix_of_pairs : ∀ {names list values : List Bytes}, values.length = names.length →
    names.length ≤ list.length → (∀ name ∈ names, SLASH ∉ name) → (∀ name ∈ list, SLASH ∉ name) →
      pairs list values = pairs names values → names <+: list := by
  intro names
  induction names with
  | nil => intro list values _ _ _ _ _; exact List.nil_prefix
  | cons name names ih =>
      intro list values count enough plain plainList same
      cases list with
      | nil => simp at enough
      | cons other list =>
          cases values with
          | nil => simp at count
          | cons v values =>
              obtain ⟨fresh, plainLater⟩ := List.forall_mem_cons.mp plain
              obtain ⟨freshOther, plainListLater⟩ := List.forall_mem_cons.mp plainList
              rw [pairs_cons, pairs_cons, List.cons_inj_right] at same
              obtain ⟨rfl, later⟩ := split_unique freshOther fresh same
              exact List.cons_prefix_cons.mpr ⟨rfl, ih (Nat.succ.inj count)
                (Nat.le_of_succ_le_succ enough) plainLater plainListLater
                (List.append_cancel_left later)⟩

theorem written_agree {s : Section} {list : List Bytes}
    (agree : s.HasSegment → s.header.params <+: list) : s.written list = s.written s.header.params := by
  refine List.map_congr_left fun entry member => ?_
  cases entry with
  | comment line => rfl
  | segment values all parts =>
      rw [Entry.written, Entry.written, pairs_prefix all (agree ⟨values, all, parts, member⟩)]

theorem built_agree : ∀ {list : List Bytes} {sections : List Section}, ParamsAgree list sections →
    built list sections = sections.flatMap fun s => s.written s.header.params := by
  intro list sections
  induction sections generalizing list with
  | nil => intro _; rfl
  | cons s sections ih =>
      intro agree
      rw [built, written_agree agree.1, ih agree.2, List.flatMap_cons]

theorem prefix_of_written {s : Section} {held : List Bytes}
    (plain : ∀ name ∈ held ++ s.header.params, SLASH ∉ name)
    (same : s.written (held ++ s.header.params) = s.written s.header.params)
    (segments : s.HasSegment) : s.header.params <+: held ++ s.header.params := by
  obtain ⟨values, all, parts, member⟩ := segments
  have each := List.map_inj_left.mp same _ member
  have urls := List.append_cancel_left each
  exact prefix_of_pairs all (by simp) (fun name inside => plain name (by simp [inside])) plain urls

theorem agree_of_built : ∀ {list : List Bytes} {sections : List Section},
    (∀ name ∈ list, SLASH ∉ name) →
    (∀ s ∈ sections, ∀ name ∈ s.header.params, SLASH ∉ name) →
    (built list sections = sections.flatMap fun s => s.written s.header.params) →
      ParamsAgree list sections := by
  intro list sections
  induction sections generalizing list with
  | nil => intro _ _ _; trivial
  | cons s sections ih =>
      intro plain plainSections same
      obtain ⟨plainHere, plainLater⟩ := List.forall_mem_cons.mp plainSections
      have plainList : ∀ name ∈ list ++ s.header.params, SLASH ∉ name := by
        intro name member
        rcases List.mem_append.mp member with before | here
        · exact plain name before
        · exact plainHere name here
      rw [built, List.flatMap_cons] at same
      have count : (s.written (list ++ s.header.params)).length =
          (s.written s.header.params).length := by
        simp [Section.written]
      obtain ⟨here, later⟩ := List.append_inj same count
      exact ⟨prefix_of_written plainList here, ih plainList plainLater later⟩

end params

/-! ## When the playlist is expanded -/

theorem newline_notMem {line : Bytes} (isLine : IsLine line) : 10 ∉ line :=
  fun member => absurd (isLine 10 member).2 (by decide)

theorem pairs_free : ∀ {names values : List Bytes}, (∀ name ∈ names, IsLine name) →
    (∀ v ∈ values, IsLine v) → 10 ∉ pairs names values := by
  intro names
  induction names with
  | nil => intro values _ _; simp [pairs]
  | cons name names ih =>
      intro values freeNames freeValues
      cases values with
      | nil => simp [pairs]
      | cons v values =>
          obtain ⟨first, later⟩ := List.forall_mem_cons.mp freeNames
          obtain ⟨value, others⟩ := List.forall_mem_cons.mp freeValues
          have slash : (10 : UInt8) ≠ SLASH := by decide
          simp [pairs_cons, slash, newline_notMem first, newline_notMem value, ih later others]

theorem mem_intercalate {c : UInt8} {separator piece : Bytes} : ∀ {pieces : List Bytes},
    piece ∈ pieces → c ∈ piece → c ∈ separator.intercalate pieces := by
  intro pieces
  induction pieces with
  | nil => intro member _; simp at member
  | cons first pieces ih =>
      intro member inside
      cases pieces with
      | nil => simpa [List.mem_singleton.mp member] using inside
      | cons second pieces =>
          rw [List.intercalate_cons_cons]
          rcases List.mem_cons.mp member with rfl | later
          · simp [inside]
          · exact List.mem_append_right _ (ih later inside)

theorem Header.params_isLine (header : Header) : ∀ name ∈ header.params, IsLine name := by
  have joined := header.setsParams.isLine header.isLine
  exact fun name member c inside => joined c (mem_intercalate member inside)

theorem written_free {s : Section} {names : List Bytes} (isLine : ∀ name ∈ names, IsLine name) :
    ∀ line ∈ s.written names, 10 ∉ line := by
  intro line member
  obtain ⟨entry, _, rfl⟩ := List.mem_map.mp member
  cases entry with
  | comment line => exact newline_notMem line.isLine
  | segment values all parts =>
      have url := newline_notMem (s.header.setsBaseUri.isLine s.header.isLine)
      have rest := pairs_free isLine fun v inside => (parts v inside).1
      exact fun inside => (List.mem_append.mp inside).elim url rest

theorem built_free : ∀ {list : List Bytes} {sections : List Section},
    (∀ name ∈ list, IsLine name) → ∀ line ∈ built list sections, 10 ∉ line := by
  intro list sections
  induction sections generalizing list with
  | nil => intro _ line member; simp [built] at member
  | cons s sections ih =>
      intro isLine line member
      have held : ∀ name ∈ list ++ s.header.params, IsLine name := by
        intro name inside
        exact (List.mem_append.mp inside).elim (isLine name) (s.header.params_isLine name)
      exact (List.mem_append.mp member).elim (written_free held line) (ih held line)

/-- A clean playlist is expanded when the list agrees with every header, and only then unless a
parameter has a slash. -/
theorem trans_expands (playlist : Playlist) (text : CString)
    (made : runs isBreak text.chars = playlist.lines) (readable : Readable text.chars)
    (clean : CleanFrom Held.start playlist.sections) :
    (ParamsAgree [] playlist.sections → Expands playlist text.chars) ∧
      ((∀ s ∈ playlist.sections, ∀ name ∈ s.header.params, SLASH ∉ name) →
        Expands playlist text.chars → ParamsAgree [] playlist.sections) := by
  have result := trans_builds playlist text made readable clean
  constructor
  · intro agree
    rw [built_agree agree] at result
    refine ⟨_, result, ?_⟩
    split_ifs with empty <;> simp [empty]
  · rintro plain ⟨ret, wrote, -⟩
    have files := (Prod.mk.inj (Option.some.inj (result.symm.trans wrote))).1
    refine agree_of_built (by simp) plain ?_
    rw [Playlist.written] at files
    have lead : ∀ line ∈ playlist.lead.map Comment.line, 10 ∉ line := by
      intro line member
      obtain ⟨comment, _, rfl⟩ := List.mem_map.mp member
      exact newline_notMem comment.isLine
    refine List.append_cancel_left (fileOf_injective ?_ ?_ files)
    · intro line member
      exact (List.mem_append.mp member).elim (lead line) (built_free (by simp) line)
    · intro line member
      refine (List.mem_append.mp member).elim (lead line) fun inside => ?_
      obtain ⟨s, _, written⟩ := List.mem_flatMap.mp inside
      exact written_free s.header.params_isLine line written

/-! ## Two headers -/

theorem isLine_of {line : Bytes} (plain : 0 ∉ line ∧ 13 ∉ line ∧ 10 ∉ line) : IsLine line := by
  intro c member
  refine ⟨fun zero => plain.1 (zero ▸ member), Bool.eq_false_iff.mpr fun breaks => ?_⟩
  have either : c = 13 ∨ c = 10 := by simpa [isBreak] using breaks
  rcases either with rfl | rfl
  · exact plain.2.1 member
  · exact plain.2.2 member

def prefixPart : Bytes := bytesOf ",PREFIX=\"s\""

def paramsPart (params : List Bytes) : Bytes :=
  bytesOf ",PARAMS=" ++ 34 :: ([COMMA].intercalate params ++ 34 :: prefixPart)

def headerLine (baseUri : Bytes) (params : List Bytes) : Bytes :=
  bytesOf "#YT-EXT-CONDENSED-URL:BASE-URI=" ++ 34 :: (baseUri ++ 34 :: paramsPart params)

def samples : List (Bytes × List Bytes) :=
  [([117], [[97]]), ([117], [[98]]), ([117], [[97], [98]]), ([119], [[97], [98]])]

set_option maxRecDepth 4000 in
theorem headerLine_attributes : ∀ p ∈ samples,
    attributeText BASE_URI .start (headerLine p.1 p.2) = some (34 :: (p.1 ++ 34 :: paramsPart p.2)) ∧
      attributeText PARAMS .start (headerLine p.1 p.2) =
        some (34 :: ([COMMA].intercalate p.2 ++ 34 :: prefixPart)) ∧
      attributeText PREFIX .start (headerLine p.1 p.2) = some (34 :: ([115] ++ 34 :: [])) := by
  decide

theorem samples_fresh : ∀ p ∈ samples, 34 ∉ p.1 ∧ 34 ∉ [COMMA].intercalate p.2 := by decide

def sampleHeader (p : Bytes × List Bytes) (sample : p ∈ samples) : Header where
  line := headerLine p.1 p.2
  baseUri := p.1
  params := p.2
  linePrefix := [115]
  isLine := by
    have all : ∀ p ∈ samples, 0 ∉ headerLine p.1 p.2 ∧ 13 ∉ headerLine p.1 p.2 ∧
        10 ∉ headerLine p.1 p.2 := by
      decide
    exact isLine_of (all p sample)
  begins := by
    have all : ∀ p ∈ samples, CONDENSED_URL <+: headerLine p.1 p.2 := by decide
    exact all p sample
  setsBaseUri := ⟨34, _, rfl, (samples_fresh p sample).1, (headerLine_attributes p sample).1⟩
  setsParams := ⟨34, _, rfl, (samples_fresh p sample).2, (headerLine_attributes p sample).2.1⟩
  setsPrefix := ⟨34, _, rfl, by decide, (headerLine_attributes p sample).2.2⟩
  names := by
    have all : ∀ p ∈ samples, ∀ param ∈ p.2, param ≠ [] ∧ COMMA ∉ param := by decide
    exact all p sample

def extinf : Comment where
  line := bytesOf "#EXTINF:1"
  isLine := isLine_of (by decide)
  hash := by decide
  other := by decide

set_option maxRecDepth 2000 in
theorem samples_parts : ∀ p ∈ samples, ∀ v ∈ p.2,
    (∀ c ∈ v, c ≠ 0 ∧ isBreak c = false) ∧ v ≠ [] ∧ SLASH ∉ v := by
  decide

/-- The header, a comment, and a segment with the names of the parameters as values. -/
def sampleSection (p : Bytes × List Bytes) (sample : p ∈ samples) : Section where
  header := sampleHeader p sample
  entries := [Entry.comment extinf, Entry.segment p.2 rfl (samples_parts p sample)]

set_option maxRecDepth 4000 in
/-- The section is clean when every buffer ends behind the value that is read into it. -/
theorem sampleSection_clean {p : Bytes × List Bytes} (sample : p ∈ samples) {held : Held}
    (url : held.url[p.1.length]? = some 0)
    (params : held.params[([COMMA].intercalate p.2).length]? = some 0)
    (linePrefix : held.linePrefix[1]? = some 0)
    (list : held.hlsParamList ∈ [[], [[97]], [[97], [98]]]) :
    (sampleSection p sample).Clean held where
  baseUri := by
    have all : ∀ p ∈ samples, strstr BASE_URI (headerLine p.1 p.2) =
        some (bytesOf "#YT-EXT-CONDENSED-URL:",
          EQUALS :: 34 :: (p.1 ++ 34 :: paramsPart p.2)) ∧ ∃ c ∈ p.1.head?, isMark c = false := by
      decide
    obtain ⟨found, plain⟩ := all p sample
    exact ⟨_, _, _, found, rfl, (samples_fresh p sample).1, plain, url⟩
  params := by
    have all : ∀ p ∈ samples, strstr PARAMS (headerLine p.1 p.2) =
        some (bytesOf "#YT-EXT-CONDENSED-URL:BASE-URI=" ++ 34 :: (p.1 ++ bytesOf "\","),
          EQUALS :: 34 :: ([COMMA].intercalate p.2 ++ 34 :: prefixPart)) ∧
        ∃ c ∈ ([COMMA].intercalate p.2).head?, isMark c = false := by
      decide
    obtain ⟨found, plain⟩ := all p sample
    exact ⟨_, _, _, found, rfl, (samples_fresh p sample).2, plain, params⟩
  linePrefix := by
    have all : ∀ p ∈ samples, ∃ before ∈ (strstr PREFIX (headerLine p.1 p.2)).map Prod.fst,
        strstr PREFIX (headerLine p.1 p.2) =
          some (before, EQUALS :: 34 :: ([115] ++ 34 :: [])) := by
      decide
    obtain ⟨before, -, found⟩ := all p sample
    have fresh : 34 ∉ ([115] : Bytes) := by decide
    exact ⟨_, _, _, found, rfl, fresh, ⟨115, rfl, rfl⟩, linePrefix⟩
  onePart _ := ⟨[115], rfl⟩
  other _ := show ¬ CONDENSED_URL <+: [115] by decide
  comments line member := by
    have apart : ¬ ([115] : Bytes) <+: extinf.line := by decide
    rcases List.mem_cons.mp member with same | later
    · obtain rfl := Entry.comment.inj same
      exact apart
    · cases List.mem_singleton.mp later
  fits := by
    have all : ∀ p ∈ samples, ∀ names ∈ [[], [[97]], [[97], [98]]],
        (p.1 ++ pairs (names ++ p.2) p.2).length + 1 < 2 * MAX_LINE := by
      decide
    have comment : extinf.line.length + 1 < 2 * MAX_LINE := by decide
    intro entry member
    rcases List.mem_cons.mp member with rfl | later
    · exact comment
    · obtain rfl := List.mem_singleton.mp later
      exact all p sample held.hlsParamList list

def extm3u : Comment where
  line := bytesOf "#EXTM3U"
  isLine := isLine_of (by decide)
  hash := by decide
  other := by decide

def repeatedParams : Playlist where
  lead := [extm3u]
  sections := [sampleSection ([117], [[97], [98]]) (by decide),
    sampleSection ([119], [[97], [98]]) (by decide)]

def twoHeaders : Playlist where
  lead := []
  sections := [sampleSection ([117], [[97]]) (by decide), sampleSection ([117], [[98]]) (by decide)]

def repeatedText : CString where
  chars := fileOf repeatedParams.lines
  nulFree := by decide

def twoHeadersText : CString where
  chars := fileOf twoHeaders.lines
  nulFree := by decide

theorem repeated_made : runs isBreak repeatedText.chars = repeatedParams.lines := by
  decide

theorem twoHeaders_made : runs isBreak twoHeadersText.chars = twoHeaders.lines := by
  decide

theorem readable_of_hash {text : CString} {lines : List Bytes}
    (made : runs isBreak text.chars = lines) (hash : text.chars.head? = some HASH)
    (fits : ∀ line ∈ lines, line.length < MAX_LINE) : Readable text.chars := by
  refine ⟨fun leads => ?_, made ▸ fits⟩
  obtain ⟨c, head, separator⟩ := leads
  obtain rfl : HASH = c := Option.some.inj (hash.symm.trans head)
  exact absurd separator (by decide)

theorem repeated_clean : CleanFrom Held.start repeatedParams.sections := by
  refine ⟨sampleSection_clean _ ?_ ?_ ?_ ?_, sampleSection_clean _ ?_ ?_ ?_ ?_, trivial⟩
  all_goals decide

theorem twoHeaders_clean : CleanFrom Held.start twoHeaders.sections := by
  refine ⟨sampleSection_clean _ ?_ ?_ ?_ ?_, sampleSection_clean _ ?_ ?_ ?_ ?_, trivial⟩
  all_goals decide

theorem repeatedParams_expands : Expands repeatedParams repeatedText.chars := by
  have readable := readable_of_hash repeated_made (by decide) (by decide)
  refine (trans_expands repeatedParams repeatedText repeated_made readable repeated_clean).1 ?_
  exact ⟨fun _ => by decide, fun _ => by decide, trivial⟩

/-- The second URL has the parameter of the first header. -/
theorem secondHeader_unused : ¬ Expands twoHeaders twoHeadersText.chars := by
  have readable := readable_of_hash twoHeaders_made (by decide) (by decide)
  rintro ⟨ret, wrote, -⟩
  have result := trans_builds twoHeaders twoHeadersText twoHeaders_made readable twoHeaders_clean
  have files := (Prod.mk.inj (Option.some.inj (result.symm.trans wrote))).1
  revert files
  decide

end AirCast.Hls
