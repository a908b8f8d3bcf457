import Mathlib

/-! # Tables of slots that own resources

A table hands each acquired key to one slot.  `Balanced` says that the keys in the table
are distinct, and that of the keys acquired so far exactly those no longer in the table
have been released, each once. -/

set_option autoImplicit false

namespace AirCast.SlotTable

variable {ι κ : Type*}

section Balance

variable [DecidableEq κ]

structure Balanced (table : ι → Option κ) (acquired released : List κ) : Prop where
  distinct : ∀ i j k, table i = some k → table j = some k → i = j
  held : ∀ i k, table i = some k → k ∈ acquired ∧ released.count k = 0
  done : ∀ k ∈ acquired, (∀ i, table i ≠ some k) → released.count k = 1
  foreign : ∀ k, k ∉ acquired → released.count k = 0

variable {table : ι → Option κ} {acquired released : List κ}

theorem balanced_empty : Balanced (fun _ : ι => (none : Option κ)) [] [] where
  distinct := by simp
  held := by simp
  done := by simp
  foreign := by simp

theorem Balanced.refuse (balanced : Balanced table acquired released) {k : κ}
    (new : k ∉ acquired) : Balanced table (acquired ++ [k]) (released ++ [k]) := by
  constructor
  case distinct => exact balanced.distinct
  case held =>
      intro i l holds
      obtain ⟨member, unreleased⟩ := balanced.held i l holds
      have different : l ≠ k := by
        rintro rfl
        exact new member
      exact ⟨List.mem_append_left _ member, by simp [List.count_append, unreleased, different.symm]⟩
  case done =>
      intro l member gone
      by_cases same : l = k
      · subst same
        simp [List.count_append, balanced.foreign l new]
      · have before := balanced.done l (by simpa [same] using member) gone
        simp [List.count_append, before, Ne.symm same]
  case foreign =>
      intro l outside
      simp only [List.mem_append, List.mem_singleton, not_or] at outside
      simp [List.count_append, balanced.foreign l outside.1, Ne.symm outside.2]

variable [DecidableEq ι]

/-- A new key goes into a free slot. -/
theorem Balanced.acquire (balanced : Balanced table acquired released) {i : ι}
    (free : table i = none) {k : κ} (new : k ∉ acquired) :
    Balanced (Function.update table i (some k)) (acquired ++ [k]) released := by
  have absent : ∀ j, table j ≠ some k := fun j held => new (balanced.held j k held).1
  have cases' : ∀ j l, Function.update table i (some k) j = some l →
      (j = i ∧ l = k) ∨ (j ≠ i ∧ table j = some l) := by
    intro j l holds
    by_cases here : j = i
    · rw [here, Function.update_self, Option.some.injEq] at holds
      exact Or.inl ⟨here, holds.symm⟩
    · rw [Function.update_of_ne here] at holds
      exact Or.inr ⟨here, holds⟩
  constructor
  case distinct =>
      intro j l m first second
      rcases cases' j m first with ⟨rfl, rfl⟩ | ⟨-, heldFirst⟩
      · rcases cases' l m second with ⟨rfl, -⟩ | ⟨-, heldSecond⟩
        · rfl
        · exact absurd heldSecond (absent l)
      · rcases cases' l m second with ⟨-, rfl⟩ | ⟨-, heldSecond⟩
        · exact absurd heldFirst (absent j)
        · exact balanced.distinct j l m heldFirst heldSecond
  case held =>
      intro j l holds
      rcases cases' j l holds with ⟨-, rfl⟩ | ⟨-, holds⟩
      · exact ⟨by simp, balanced.foreign l new⟩
      · obtain ⟨member, unreleased⟩ := balanced.held j l holds
        exact ⟨List.mem_append_left _ member, unreleased⟩
  case done =>
      intro l member gone
      have other : l ≠ k := by
        rintro rfl
        exact gone i (Function.update_self ..)
      refine balanced.done l (by simpa [other] using member) fun j holds => gone j ?_
      have elsewhere : j ≠ i := by
        rintro rfl
        rw [free] at holds
        exact absurd holds (by simp)
      rw [Function.update_of_ne elsewhere, holds]
  case foreign =>
      intro l outside
      exact balanced.foreign l fun member => outside (List.mem_append_left _ member)

/-- The key of a slot is released and the slot is free again. -/
theorem Balanced.release (balanced : Balanced table acquired released) {i : ι} {k : κ}
    (holds : table i = some k) :
    Balanced (Function.update table i none) acquired (released ++ [k]) := by
  have elsewhere : ∀ j l, Function.update table i none j = some l → j ≠ i ∧ table j = some l := by
    intro j l held
    by_cases here : j = i
    · rw [here, Function.update_self] at held
      exact absurd held (by simp)
    · rw [Function.update_of_ne here] at held
      exact ⟨here, held⟩
  constructor
  case distinct =>
      intro j l m first second
      exact balanced.distinct j l m (elsewhere j m first).2 (elsewhere l m second).2
  case held =>
      intro j l held
      obtain ⟨other, held⟩ := elsewhere j l held
      have different : l ≠ k := by
        rintro rfl
        exact other (balanced.distinct j i l held holds)
      obtain ⟨member, unreleased⟩ := balanced.held j l held
      exact ⟨member, by simp [List.count_append, unreleased, different.symm]⟩
  case done =>
      intro l member gone
      by_cases same : l = k
      · subst same
        simp [List.count_append, (balanced.held i l holds).2]
      · have before := balanced.done l member fun j held => by
          refine gone j ?_
          have other : j ≠ i := by
            rintro rfl
            rw [holds, Option.some.injEq] at held
            exact same held.symm
          rw [Function.update_of_ne other, held]
        simp [List.count_append, before, Ne.symm same]
  case foreign =>
      intro l outside
      have different : l ≠ k := by
        rintro rfl
        exact outside (balanced.held i l holds).1
      simp [List.count_append, balanced.foreign l outside, different.symm]

end Balance

section Occupied

variable [Fintype ι]

def occupied (table : ι → Option κ) : ℕ :=
  (Finset.univ.filter fun i => (table i).isSome).card

theorem occupied_empty : occupied (fun _ : ι => (none : Option κ)) = 0 := by
  simp [occupied]

theorem occupied_le (table : ι → Option κ) : occupied table ≤ Fintype.card ι :=
  Finset.card_le_univ _

variable [DecidableEq ι] {table : ι → Option κ}

theorem occupied_acquire {i : ι} (free : table i = none) (k : κ) :
    occupied (Function.update table i (some k)) = occupied table + 1 := by
  have grown : (Finset.univ.filter fun j => (Function.update table i (some k) j).isSome) =
      insert i (Finset.univ.filter fun j => (table j).isSome) := by
    ext j
    by_cases here : j = i
    · simp [here]
    · simp [here]
  rw [occupied, grown, Finset.card_insert_of_notMem (by simp [free])]
  rfl

theorem occupied_release {i : ι} {k : κ} (holds : table i = some k) :
    occupied (Function.update table i none) + 1 = occupied table := by
  have back : Function.update (Function.update table i none) i (some k) = table := by
    rw [Function.update_idem, ← holds, Function.update_eq_self]
  rw [← occupied_acquire (Function.update_self ..) k, back]

end Occupied

end AirCast.SlotTable
