import Mathlib

/-! # Runs between separators

The maximal non-empty runs of a list that have no separator, in order. -/

set_option autoImplicit false

namespace AirCast

section runs

variable {α : Type*} (separates : α → Bool)

def runs (text : List α) : List (List α) :=
  (text.splitOnP separates).filter fun run => !run.isEmpty

@[simp] theorem runs_nil : runs separates [] = [] := rfl

variable {separates}

theorem runs_cons_separator {c : α} (separator : separates c = true) (rest : List α) :
    runs separates (c :: rest) = runs separates rest := by
  rw [runs, List.splitOnP_cons_eq_if_modifyHead, if_pos separator]
  rfl

theorem runs_append {run rest : List α} (nonempty : run ≠ [])
    (free : ∀ c ∈ run, separates c = false) (ends : ∀ c ∈ rest.head?, separates c = true) :
    runs separates (run ++ rest) = run :: runs separates rest := by
  cases rest with
  | nil =>
      rw [List.append_nil, runs, List.splitOnP_eq_singleton free]
      simp [nonempty]
  | cons c rest =>
      have separator := ends c rfl
      rw [runs_cons_separator separator, runs,
        List.splitOnP_append_cons_of_forall_mem free c separator]
      simp [nonempty, runs]

theorem runs_dropWhile (text : List α) :
    runs separates (text.dropWhile separates) = runs separates text := by
  induction text with
  | nil => rfl
  | cons c rest ih =>
      by_cases separator : separates c = true
      · rw [List.dropWhile_cons_of_pos separator, ih, runs_cons_separator separator]
      · rw [List.dropWhile_cons_of_neg separator]

theorem runs_cons {c : α} (first : separates c = false) (rest : List α) :
    runs separates (c :: rest) =
      (c :: rest.takeWhile fun d => !separates d) ::
        runs separates (rest.dropWhile fun d => !separates d) := by
  have split : c :: rest = (c :: rest.takeWhile fun d => !separates d) ++
      rest.dropWhile fun d => !separates d := by
    rw [List.cons_append, List.takeWhile_append_dropWhile]
  conv_lhs => rw [split]
  refine runs_append (List.cons_ne_nil _ _) ?_ ?_
  · intro d member
    rcases List.mem_cons.mp member with rfl | inside
    · exact first
    · simpa using List.mem_takeWhile_imp inside
  · intro d head
    have stopped := List.head?_dropWhile_not (fun d => !separates d) rest
    rw [Option.mem_def] at head
    rw [head] at stopped
    simpa using stopped

theorem runs_eq_nil_iff (text : List α) :
    runs separates text = [] ↔ ∀ c ∈ text, separates c = true := by
  induction text with
  | nil => simp
  | cons c rest ih =>
      by_cases separator : separates c = true
      · rw [runs_cons_separator separator, ih]
        simp [separator]
      · have first : separates c = false := by simpa using separator
        rw [runs_cons first]
        simp [first]

theorem runs_intercalate [BEq α] [LawfulBEq α] {c : α} {pieces : List (List α)}
    (free : ∀ piece ∈ pieces, piece ≠ [] ∧ c ∉ piece) :
    runs (· == c) ([c].intercalate pieces) = pieces := by
  cases pieces with
  | nil => rfl
  | cons first rest =>
      have split : ([c].intercalate (first :: rest)).splitOnP (· == c) = first :: rest := by
        rw [← List.splitOn_eq_splitOnP]
        exact List.splitOn_intercalate c (fun piece member => (free piece member).2)
          (List.cons_ne_nil _ _)
      rw [runs, split, List.filter_eq_self]
      exact fun piece member => by simpa using (free piece member).1

theorem runs_append_separator {c : α} (separator : separates c = true) (text rest : List α) :
    runs separates (text ++ c :: rest) = runs separates text ++ runs separates rest := by
  rw [runs, List.splitOnP_append_cons text rest separator, List.filter_append]
  rfl

theorem runs_intercalate_cons [BEq α] [LawfulBEq α] {c : α} {first : List α}
    {pieces : List (List α)} (free : ∀ piece ∈ pieces, piece ≠ [] ∧ c ∉ piece) :
    runs (· == c) ([c].intercalate (first :: pieces)) = runs (· == c) first ++ pieces := by
  have behind := runs_intercalate free
  cases pieces with
  | nil => simp
  | cons piece pieces =>
      rw [List.intercalate_cons_cons, List.append_assoc, List.singleton_append,
        runs_append_separator (by simp), behind]

end runs

end AirCast
