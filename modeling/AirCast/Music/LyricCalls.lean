import AirCast.Lib.Transducer
import AirCast.Music.LyricIndex

/-! # Calls of the lyric view

A read completes where its lines have no short tags and no broken stamps.  `onDraw`
finds what it looks up where the index is one of the map: a file without entries, or
one shorter than the file before, leaves an index that is not. -/

set_option autoImplicit false

namespace AirCast.Music

section calls

variable (twoDigits : Units → Bool) (tips : Units)

/-- A stamp has a character besides the separators, unless it is empty, and the three numbers
of a time can be read. -/
def StampReads (piece : Units) : Prop :=
  (piece ≠ [] → ∃ unit ∈ piece, unit ≠ colon ∧ unit ≠ dot ∧ unit ≠ at_) ∧
    ∀ m s ms, timedata piece = [m, s, ms] → twoDigits m = true →
      m.parseInt.isSome ∧ s.parseInt.isSome ∧ ms.parseInt.isSome

/-- A tag has a character besides its brackets and its name; another line has readable stamps. -/
def LineReads (data : Units) : Prop :=
  if units "[ti" <+: data ∨ units "[ar" <+: data ∨ units "[al" <+: data then 5 ≤ data.length
  else ∀ piece ∈ if stampsOnly data then splitdata data else (splitdata data).dropLast,
    StampReads twoDigits piece

theorem splitOn_nils_iff (separator : UInt16) (text : Units) :
    (∀ piece ∈ text.splitOn separator, piece = []) ↔ ∀ unit ∈ text, unit = separator := by
  induction text with
  | nil => simp
  | cons unit rest ih =>
      rw [List.splitOn_cons_eq_if_modifyHead]
      by_cases same : unit = separator
      · simp only [same, BEq.rfl, if_true, List.forall_mem_cons, true_and, ih]
      · obtain ⟨piece, pieces, split⟩ :=
          List.exists_cons_of_ne_nil (List.splitOn_ne_nil separator rest)
        simp [same, split]

theorem split_eq_nil_iff (text : Units) (separator : UInt16) :
    text.split separator = [] ↔ text ≠ [] ∧ ∀ unit ∈ text, unit = separator := by
  rw [Units.split]
  split_ifs with member
  · rw [List.rdropWhile_eq_nil_iff]
    simp only [decide_eq_true_eq, splitOn_nils_iff]
    exact ⟨fun all => ⟨List.ne_nil_of_mem member, all⟩, And.right⟩
  · refine iff_of_false (by simp) fun ⟨nonempty, all⟩ => ?_
    obtain ⟨unit, rest, rfl⟩ := List.exists_cons_of_ne_nil nonempty
    exact member (all unit List.mem_cons_self ▸ List.mem_cons_self)

theorem replace_single (text : Units) (target replacement : UInt16) :
    text.replace target [replacement] =
      text.map fun unit => if unit = target then replacement else unit := by
  induction text with
  | nil => rfl
  | cons unit rest ih =>
      rw [Units.replace, List.flatMap_cons, ← Units.replace, ih, List.map_cons]
      split_ifs <;> rfl

theorem timedata_eq_nil_iff (piece : Units) :
    timedata piece = [] ↔
      piece ≠ [] ∧ ∀ unit ∈ piece, unit = colon ∨ unit = dot ∨ unit = at_ := by
  have replaced : (piece.replace colon [dot]).replace dot [at_] =
      piece.map fun unit => if unit = colon ∨ unit = dot then at_ else unit := by
    rw [replace_single, replace_single, List.map_map]
    refine List.map_congr_left fun unit _ => ?_
    by_cases isColon : unit = colon
    · simp [isColon]
    · simp [isColon]
  rw [timedata, replaced, split_eq_nil_iff]
  simp only [ne_eq, List.map_eq_nil_iff, List.forall_mem_map]
  refine and_congr_right fun _ => forall₂_congr fun unit _ => ?_
  by_cases separates : unit = colon ∨ unit = dot
  · rw [if_pos separates]
    tauto
  · rw [if_neg separates]
    tauto

theorem stampTime_isSome_iff (zero : ℤ) (piece : Units) :
    (stampTime twoDigits zero piece).isSome = true ↔ StampReads twoDigits piece := by
  have unseparated : timedata piece ≠ [] ↔
      (piece ≠ [] → ∃ unit ∈ piece, unit ≠ colon ∧ unit ≠ dot ∧ unit ≠ at_) := by
    rw [ne_eq, timedata_eq_nil_iff, not_and]
    refine imp_congr_right fun _ => ?_
    simp only [not_forall, exists_prop, not_or, ne_eq]
  rw [StampReads, ← unseparated, stampTime]
  split
  next empty => simp [empty]
  next first second third fields =>
    have numbers : (∀ m s ms, timedata piece = [m, s, ms] → twoDigits m = true →
          m.parseInt.isSome ∧ s.parseInt.isSome ∧ ms.parseInt.isSome) ↔
        (twoDigits first = true →
          first.parseInt.isSome ∧ second.parseInt.isSome ∧ third.parseInt.isSome) := by
      constructor
      · exact fun all => all first second third fields
      · intro here m s ms same
        rw [fields] at same
        cases same
        exact here
    rw [numbers, fields]
    by_cases digits : twoDigits first = true
    · rw [if_pos digits]
      cases m : first.parseInt <;> cases s : second.parseInt <;> cases ms : third.parseInt <;>
        simp [digits]
    · rw [if_neg digits]
      simp [digits]
  next noStamp several =>
    refine iff_of_true rfl ⟨noStamp, fun m s ms fields => ?_⟩
    exact absurd fields (several m s ms)

theorem stampEntries_isSome_iff (zero : ℤ) (lrc : Units) (pieces : List Units) :
    (stampEntries twoDigits zero lrc pieces).isSome = true ↔
      ∀ piece ∈ pieces, StampReads twoDigits piece := by
  induction pieces with
  | nil => simp [stampEntries]
  | cons piece rest ih =>
      rw [List.forall_mem_cons, ← stampTime_isSome_iff twoDigits zero, ← ih, stampEntries]
      cases stampTime twoDigits zero piece <;>
        cases stampEntries twoDigits zero lrc rest <;> simp

theorem tagText_isSome_iff (data : Units) : (tagText data).isSome = true ↔ 5 ≤ data.length := by
  rw [tagText, Units.substring]
  split_ifs with inside
  · exact iff_of_true rfl (by omega)
  · exact iff_of_false Bool.false_ne_true (by omega)

theorem splitdata_ne_nil {data : Units} (text : stampsOnly data = false) : splitdata data ≠ [] := by
  rw [splitdata, ne_eq, split_eq_nil_iff]
  rintro ⟨nonempty, all⟩
  have last := all _ (List.getLast_mem nonempty)
  rw [stampsOnly, decide_eq_false_iff_not, List.getLast?_eq_getLast_of_ne_nil nonempty] at text
  exact text (congrArg some last)

theorem lineEntries_isSome_iff (data : Units) :
    (lineEntries twoDigits tips data).isSome = true ↔ LineReads twoDigits data := by
  have tag (f : Units → List LyricObject) :
      ((tagText data).bind fun text => some (f text)).isSome = true ↔ 5 ≤ data.length := by
    rw [← tagText_isSome_iff]
    cases tagText data <;> rfl
  rw [lineEntries, LineReads]
  by_cases title : units "[ti" <+: data
  · rw [if_pos title, if_pos (.inl title)]
    exact tag _
  by_cases artist : units "[ar" <+: data
  · rw [if_neg title, if_pos artist, if_pos (.inr (.inl artist))]
    exact tag _
  by_cases album : units "[al" <+: data
  · rw [if_neg title, if_neg artist, if_pos album, if_pos (.inr (.inr album))]
    exact tag _
  have noTag : ¬ (units "[ti" <+: data ∨ units "[ar" <+: data ∨ units "[al" <+: data) := by tauto
  rw [if_neg title, if_neg artist, if_neg album, if_neg noTag]
  by_cases stamps : stampsOnly data = true
  · rw [if_pos stamps, if_pos stamps]
    exact stampEntries_isSome_iff twoDigits 10 [] _
  · rw [if_neg stamps, if_neg stamps]
    have nonempty := splitdata_ne_nil (Bool.eq_false_iff.mpr stamps)
    rw [List.getLast?_eq_getLast_of_ne_nil nonempty]
    exact stampEntries_isSome_iff twoDigits 20 _ _

theorem fileEntries_isSome_iff (lines : List Units) :
    (fileEntries twoDigits tips lines).isSome = true ↔
      ∀ data ∈ lines, LineReads twoDigits data := by
  induction lines with
  | nil => simp [fileEntries]
  | cons data rest ih =>
      rw [List.forall_mem_cons, ← lineEntries_isSome_iff twoDigits tips, ← ih, fileEntries]
      cases lineEntries twoDigits tips data <;>
        cases fileEntries twoDigits tips rest <;> simp

inductive LyricCall where
  | read (file : LyricView.LyricFile)
  | selectIndex (time : ℤ)
  | onDraw (above below : ℕ → Bool)

/-- The view after a call, and whether the call throws nothing and finds an entry for every
index it looks up. -/
def call (view : LyricView) : LyricCall → LyricView × Bool
  | .read file => view.read twoDigits tips file
  | .selectIndex time =>
      match view.selectIndex time with
      | none => (view, false)
      | some (_, next) => (next, true)
  | .onDraw above below => (view, (view.onDraw above below).all fun i => view.lrc_map.contains i)

def machine : Transducer LyricView LyricCall Bool := ⟨call twoDigits tips⟩

/-- Every line of a file that is read can be read, and where the view shows lyrics its index is
one of the map when it is drawn. -/
def CallSafe (view : LyricView) : LyricCall → Prop
  | .read none => True
  | .read (some lines) => ∀ data ∈ lines, LineReads twoDigits data
  | .selectIndex _ => True
  | .onDraw _ _ => view.blLrc = true → view.lrcIndex < view.lrc_map.size

def Dense (view : LyricView) : Prop :=
  ∀ k : ℕ, view.lrc_map.contains k = true ↔ k < view.lrc_map.size

theorem dense_new : Dense .new := by
  intro k
  simp [LyricView.new]

theorem dense_index {entries : List LyricObject} {view : LyricView}
    (index : LyricIndex entries view) : Dense view := by
  intro k
  rw [Std.TreeMap.contains_eq_isSome_getElem?, Option.isSome_iff_exists]
  exact index.keys k

theorem read_dense {view : LyricView} (dense : Dense view) (file : LyricView.LyricFile) :
    Dense (view.read twoDigits tips file).1 := by
  cases file with
  | none => exact dense
  | some lines =>
      cases parsed : fileEntries twoDigits tips lines with
      | none =>
          simp only [LyricView.read, parsed]
          exact dense
      | some entries =>
          have completes : (view.read twoDigits tips (some lines)).2 = true := by
            simp only [LyricView.read, parsed]
          obtain ⟨_, _, index⟩ := read_index twoDigits tips completes
          exact dense_index index

theorem countBefore_isSome {view : LyricView} (dense : Dense view) (time : ℤ) :
    (view.countBefore time).isSome = true := by
  have loop : ∀ (indices : List ℕ) (index : ℕ), (∀ i ∈ indices, i < view.lrc_map.size) →
      (indices.foldlM (fun index i => (view.lrc_map[i]?).map fun temp =>
        if temp.begintime < time then index + 1 else index) index).isSome = true := by
    intro indices
    induction indices with
    | nil => intro index _; rfl
    | cons i rest ih =>
        intro index inside
        obtain ⟨first, later⟩ := List.forall_mem_cons.mp inside
        have present := (dense i).mpr first
        rw [Std.TreeMap.contains_eq_isSome_getElem?, Option.isSome_iff_exists] at present
        obtain ⟨temp, found⟩ := present
        rw [List.foldlM_cons, found]
        exact ih _ later
  exact loop _ _ fun i member => List.mem_range.mp member

theorem call_selectIndex {view : LyricView} (dense : Dense view) (time : ℤ) :
    Dense (call twoDigits tips view (.selectIndex time)).1 ∧
      (call twoDigits tips view (.selectIndex time)).2 = true := by
  by_cases lyrics : view.blLrc = true
  · obtain ⟨index, counted⟩ := Option.isSome_iff_exists.mp (countBefore_isSome dense time)
    have selected : view.selectIndex time =
        some (index - 1, { view with lrcIndex := index - 1 }) := by
      rw [LyricView.selectIndex, if_pos lyrics, counted]
      rfl
    simp only [call, selected]
    exact ⟨dense, trivial⟩
  · have selected : view.selectIndex time = some (0, view) := if_neg lyrics
    simp only [call, selected]
    exact ⟨dense, trivial⟩

theorem call_dense (view : LyricView) (called : LyricCall) (dense : Dense view) :
    Dense (call twoDigits tips view called).1 := by
  cases called with
  | read file => exact read_dense twoDigits tips dense file
  | selectIndex time => exact (call_selectIndex twoDigits tips dense time).1
  | onDraw above below => exact dense

theorem untilBreak_subset (breaks : ℕ → Bool) (indices : List ℕ) :
    LyricView.untilBreak breaks indices ⊆ indices := by
  induction indices with
  | nil => exact List.Subset.refl _
  | cons i rest ih =>
      rw [LyricView.untilBreak]
      split_ifs
      · simp
      · exact List.cons_subset_cons i ih

theorem onDraw_finds_iff {view : LyricView} (dense : Dense view) (above below : ℕ → Bool) :
    ((view.onDraw above below).all fun i => view.lrc_map.contains i) = true ↔
      (view.blLrc = true → view.lrcIndex < view.lrc_map.size) := by
  simp only [List.all_eq_true, dense _, LyricView.onDraw]
  by_cases lyrics : view.blLrc = true
  · simp only [lyrics, if_true, true_implies]
    constructor
    · exact fun all => all _ (List.mem_append_left _ List.mem_cons_self)
    · intro inside i member
      rcases List.mem_append.mp member with front | behind
      · rcases List.mem_cons.mp front with rfl | before
        · exact inside
        · have small := untilBreak_subset above _ before
          rw [List.mem_reverse, List.mem_range] at small
          omega
      · have small := untilBreak_subset below _ behind
        rw [List.mem_range'_1] at small
        omega
  · simp [lyrics]

theorem call_safe_iff (view : LyricView) (called : LyricCall) (dense : Dense view) :
    (call twoDigits tips view called).2 = true ↔ CallSafe twoDigits view called := by
  cases called with
  | read file =>
      cases file with
      | none => exact iff_of_true rfl trivial
      | some lines =>
          rw [CallSafe, ← fileEntries_isSome_iff twoDigits tips, call, LyricView.read]
          cases fileEntries twoDigits tips lines <;> simp
  | selectIndex time => exact iff_of_true (call_selectIndex twoDigits tips dense time).2 trivial
  | onDraw above below => exact onDraw_finds_iff dense above below

/-- A sequence of calls goes well exactly if every read file has readable lines and every view
that is drawn with lyrics has its index in the map. -/
theorem calls_safe_iff (calls : List LyricCall) :
    (∀ answer ∈ ((machine twoDigits tips).run .new calls).2, answer = true) ↔
      (machine twoDigits tips).Admissible (CallSafe twoDigits) .new calls :=
  (machine twoDigits tips).run_answers_iff (CallSafe twoDigits) Dense (· = true)
    (call_dense twoDigits tips) (call_safe_iff twoDigits tips) calls .new dense_new

end calls

/-- A file without lines leaves an empty map, in which the drawing finds nothing. -/
theorem emptyFile_crashes :
    ¬ ∀ calls : List LyricCall,
      ∀ answer ∈ ((machine twoAsciiDigits []).run .new calls).2, answer = true := by
  intro safe
  have found := safe [.read (some []), .onDraw (fun _ => false) fun _ => false] false (by decide)
  cases found

end AirCast.Music
