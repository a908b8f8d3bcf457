import Mathlib.Data.List.Basic
import Mathlib.Tactic.Common

/-! # Groups found by counting a marker

Groups of keyed values stand one behind the other.  A value of group `n` is looked up
behind the `n`-th pair with the marker, so a lookup also sees what the group before has
behind its marker, and what stands in later groups.  `Separable` says when that makes no
difference. -/

set_option autoImplicit false

namespace AirCast.Lib

variable {κ φ α : Type} [DecidableEq φ] (fold : κ → φ) (marker : κ)

/-- The first value whose key is `name` up to `fold`. -/
def lookupKey (name : κ) : List (κ × α) → Option α
  | [] => none
  | (key, value) :: rest => if fold key = fold name then some value else lookupKey name rest

/-- The same behind `skip` pairs with the marker. -/
def lookupBehind (name : κ) : ℕ → List (κ × α) → Option α
  | 0, pairs => lookupKey fold name pairs
  | _ + 1, [] => none
  | skip + 1, (key, _) :: rest =>
      lookupBehind name (if fold key = fold marker then skip else skip + 1) rest

def markers (pairs : List (κ × α)) : ℕ := pairs.countP fun pair => fold pair.1 = fold marker

def behindMarker : List (κ × α) → List (κ × α)
  | [] => []
  | (key, _) :: rest => if fold key = fold marker then rest else behindMarker rest

def carried (front : List (List (κ × α))) : List (κ × α) :=
  (front.getLast?.map (behindMarker fold marker)).getD []

section Lookup

variable {fold marker} {name : κ}

@[simp] theorem lookupBehind_zero (pairs : List (κ × α)) :
    lookupBehind fold marker name 0 pairs = lookupKey fold name pairs := by
  cases pairs <;> simp only [lookupBehind]

theorem lookupKey_append (first second : List (κ × α)) :
    lookupKey fold name (first ++ second) =
      (lookupKey fold name first).or (lookupKey fold name second) := by
  induction first with
  | nil => rfl
  | cons pair rest ih =>
      simp only [List.cons_append, lookupKey]
      split
      · rfl
      · exact ih

theorem lookupKey_isSome (fold : κ → φ) {pairs : List (κ × α)} {pair : κ × α} (member : pair ∈ pairs) :
    (lookupKey fold pair.1 pairs).isSome = true := by
  induction pairs with
  | nil => cases member
  | cons head rest ih =>
      simp only [lookupKey]
      split
      · rfl
      · rename_i other
        rcases List.mem_cons.mp member with rfl | member
        · exact absurd rfl other
        · exact ih member

theorem lookupKey_some {pairs : List (κ × α)} {value : α}
    (found : lookupKey fold name pairs = some value) :
    ∃ front key back, pairs = front ++ (key, value) :: back ∧ fold key = fold name := by
  induction pairs with
  | nil => cases found
  | cons pair rest ih =>
      obtain ⟨key, other⟩ := pair
      simp only [lookupKey] at found
      split at found
      · rename_i same
        cases Option.some.inj found
        exact ⟨[], key, rest, rfl, same⟩
      · obtain ⟨front, key', back, rfl, same⟩ := ih found
        exact ⟨(key, other) :: front, key', back, rfl, same⟩

theorem lookupKey_congr {other : κ} (same : fold name = fold other) (pairs : List (κ × α)) :
    lookupKey fold name pairs = lookupKey fold other pairs := by
  induction pairs with
  | nil => rfl
  | cons pair rest ih => simp only [lookupKey, same, ih]

theorem markers_cons (pair : κ × α) (rest : List (κ × α)) :
    markers fold marker (pair :: rest) =
      markers fold marker rest + if fold pair.1 = fold marker then 1 else 0 := by
  simp [markers, List.countP_cons]

theorem markers_append (first second : List (κ × α)) :
    markers fold marker (first ++ second) = markers fold marker first + markers fold marker second :=
  List.countP_append

theorem lookupBehind_some {value : α} :
    ∀ (skip : ℕ) (pairs : List (κ × α)), lookupBehind fold marker name skip pairs = some value →
      ∃ front key back, pairs = front ++ (key, value) :: back ∧ fold key = fold name ∧
        skip ≤ markers fold marker front := by
  intro skip pairs
  induction pairs generalizing skip with
  | nil => intro found; cases skip <;> cases found
  | cons pair rest ih =>
      intro found
      cases skip with
      | zero =>
          obtain ⟨front, key, back, split, same⟩ := lookupKey_some found
          exact ⟨front, key, back, split, same, Nat.zero_le _⟩
      | succ skip =>
          obtain ⟨front, key, back, rfl, same, enough⟩ := ih _ found
          refine ⟨pair :: front, key, back, rfl, same, ?_⟩
          rw [markers_cons]
          split at enough <;> rename_i marked <;> simp only [marked, if_true, if_false] <;> omega

theorem lookupBehind_skip {skip : ℕ} {front : List (κ × α)} (rest : List (κ × α))
    (unmarked : markers fold marker front = 0) :
    lookupBehind fold marker name (skip + 1) (front ++ rest) =
      lookupBehind fold marker name (skip + 1) rest := by
  induction front with
  | nil => rfl
  | cons pair front ih =>
      rw [markers_cons] at unmarked
      have other : ¬ fold pair.1 = fold marker := by
        intro same
        simp [same] at unmarked
      rw [if_neg other] at unmarked
      simp only [List.cons_append, lookupBehind, if_neg other]
      exact ih unmarked

theorem lookupBehind_group (name : κ) (skip : ℕ) {group : List (κ × α)} (rest : List (κ × α))
    (marked : markers fold marker group = 1) :
    lookupBehind fold marker name (skip + 1) (group ++ rest) =
      lookupBehind fold marker name skip (behindMarker fold marker group ++ rest) ∧
        markers fold marker (behindMarker fold marker group) = 0 := by
  induction group with
  | nil => simp [markers] at marked
  | cons pair group ih =>
      obtain ⟨key, value⟩ := pair
      rw [markers_cons] at marked
      simp only [List.cons_append, lookupBehind, behindMarker]
      split
      · rename_i same
        simp only [same, if_true] at marked
        exact ⟨rfl, by omega⟩
      · rename_i other
        simp only [other, if_false] at marked
        exact ih marked

theorem lookupBehind_groups (rest : List (κ × α)) :
    ∀ front : List (List (κ × α)), (∀ group ∈ front, markers fold marker group = 1) →
      lookupBehind fold marker name front.length (front.flatten ++ rest) =
        lookupKey fold name (carried fold marker front ++ rest) := by
  intro front
  induction front with
  | nil => intro _; simp [carried]
  | cons group front ih =>
      intro marked
      obtain ⟨skipped, unmarked⟩ := lookupBehind_group name front.length (front.flatten ++ rest)
        (marked group List.mem_cons_self)
      rw [List.flatten_cons, List.append_assoc, List.length_cons, skipped]
      cases front with
      | nil => simp [carried]
      | cons next front =>
          rw [List.length_cons, lookupBehind_skip _ unmarked, ← List.length_cons]
          exact ih fun group member => marked group (List.mem_cons_of_mem _ member)

end Lookup

section SeparateGroups

variable (groups : List (List (κ × α)))

def SeparateGroups : Prop :=
  ∀ front group back, groups = front ++ group :: back → ∀ name,
    lookupBehind fold marker name front.length groups.flatten = lookupKey fold name group

/-- Every group but the last has the marker, the keys behind it mean the same in the next
group, and no later group has a key of its own. -/
structure Separable : Prop where
  marked : ∀ group ∈ groups.dropLast, markers fold marker group = 1
  carries : ∀ front group back, groups = front ++ group :: back →
    ∀ pair ∈ carried fold marker front,
      lookupKey fold pair.1 (carried fold marker front) = lookupKey fold pair.1 group
  known : ∀ front group back, groups = front ++ group :: back →
    ∀ pair ∈ back.flatten, (lookupKey fold pair.1 group).isSome = true

variable {fold marker groups}

/-- One group among the others. -/
theorem lookups_agree_iff (before group after : List (κ × α)) :
    (∀ name, lookupKey fold name (before ++ (group ++ after)) = lookupKey fold name group) ↔
      (∀ pair ∈ before, lookupKey fold pair.1 before = lookupKey fold pair.1 group) ∧
        ∀ pair ∈ after, (lookupKey fold pair.1 group).isSome = true := by
  simp only [lookupKey_append]
  constructor
  · intro agree
    have carries : ∀ pair ∈ before,
        lookupKey fold pair.1 before = lookupKey fold pair.1 group := by
      intro pair member
      obtain ⟨value, found⟩ := Option.isSome_iff_exists.mp (lookupKey_isSome fold member)
      rw [← agree pair.1, found, Option.some_or]
    refine ⟨carries, fun pair member => ?_⟩
    obtain ⟨value, found⟩ := Option.isSome_iff_exists.mp (lookupKey_isSome fold member)
    by_contra missing
    have agrees := agree pair.1
    rw [Option.not_isSome_iff_eq_none.mp missing, found, Option.none_or,
      Option.or_eq_none_iff] at agrees
    exact absurd agrees.2 (by simp)
  · rintro ⟨carries, known⟩ name
    cases early : lookupKey fold name before with
    | some value =>
        obtain ⟨front, key, back, rfl, same⟩ := lookupKey_some early
        have agree := carries (key, value) (by simp)
        rw [lookupKey_congr same, lookupKey_congr same group] at agree
        rw [Option.some_or, ← agree, early]
    | none =>
        rw [Option.none_or]
        cases own : lookupKey fold name group with
        | some value => rfl
        | none =>
            rw [Option.none_or]
            cases late : lookupKey fold name after with
            | none => rfl
            | some value =>
                obtain ⟨front, key, back, rfl, same⟩ := lookupKey_some late
                have agree := known (key, value) (by simp)
                rw [lookupKey_congr same, own] at agree
                simp at agree

theorem markers_flatten_le (groups : List (List (κ × α)))
    (single : ∀ group ∈ groups, markers fold marker group ≤ 1) :
    markers fold marker groups.flatten ≤ groups.length ∧
      (groups.length ≤ markers fold marker groups.flatten →
        ∀ group ∈ groups, markers fold marker group = 1) := by
  induction groups with
  | nil => simp [markers]
  | cons group rest ih =>
      obtain ⟨bound, all⟩ := ih fun g member => single g (List.mem_cons_of_mem _ member)
      have own := single group List.mem_cons_self
      rw [List.flatten_cons, markers_append, List.length_cons]
      refine ⟨by omega, fun enough => ?_⟩
      rintro g (_ | ⟨_, member⟩)
      · omega
      · exact all (by omega) g member

theorem separable_markers (single : ∀ group ∈ groups, ∃ value, group = [(marker, value)]) :
    Separable fold marker groups where
  marked := by
    intro group member
    obtain ⟨value, rfl⟩ := single group (List.dropLast_subset _ member)
    simp [markers]
  carries := by
    rintro front group back rfl pair member
    have nothing : carried fold marker front = [] := by
      rcases List.eq_nil_or_concat front with rfl | ⟨init, last, rfl⟩
      · rfl
      · obtain ⟨value, rfl⟩ := single last (by simp)
        simp [carried, behindMarker]
    rw [nothing] at member
    cases member
  known := by
    rintro front group back rfl pair member
    obtain ⟨other, inside, given⟩ := List.mem_flatten.mp member
    obtain ⟨own, rfl⟩ := single group (by simp)
    obtain ⟨value, rfl⟩ := single other (by simp [inside])
    rw [List.mem_singleton.mp given]
    simp [lookupKey]

variable {numbers : κ → Bool} (respects : ∀ a b, fold a = fold b → numbers a = numbers b)
  (marks : numbers marker = true)
  (numbered : ∀ group ∈ groups, group.countP (fun pair => numbers pair.1) = 1)

include respects marks

theorem markers_le_numbers (pairs : List (κ × α)) :
    markers fold marker pairs ≤ pairs.countP (fun pair => numbers pair.1) := by
  refine List.countP_mono_left fun pair _ same => ?_
  rw [respects _ _ (by simpa using same), marks]

include numbered

theorem markers_le_one : ∀ group ∈ groups, markers fold marker group ≤ 1 := fun group member =>
  numbered group member ▸ markers_le_numbers respects marks group

theorem marked_of_separate (separate : SeparateGroups fold marker groups) :
    ∀ group ∈ groups.dropLast, markers fold marker group = 1 := by
  rcases List.eq_nil_or_concat groups with rfl | ⟨front, last, rfl⟩
  · simp
  · rw [List.concat_eq_append] at separate numbered ⊢
    rw [List.dropLast_concat]
    have single := markers_le_one respects marks numbered
    refine (markers_flatten_le front fun g member => single g (by simp [member])).2 ?_
    have one := numbered last (by simp)
    obtain ⟨⟨key, value⟩, member, number⟩ := List.countP_pos_iff.mp (one ▸ Nat.one_pos)
    obtain ⟨found, own⟩ := Option.isSome_iff_exists.mp (lookupKey_isSome fold member)
    have looked := separate front last [] rfl key
    rw [own] at looked
    obtain ⟨before, key', back, split, same, enough⟩ := lookupBehind_some _ _ looked
    have number' : numbers key' = true := (respects _ _ same).trans number
    rw [List.flatten_append, List.flatten_cons, List.flatten_nil, List.append_nil] at split
    rcases List.append_eq_append_iff.mp split with ⟨middle, rfl, rest⟩ | ⟨middle, rest, -⟩
    · -- the pair stands in the last group, which has no other number
      rw [rest, List.countP_append, List.countP_cons_of_pos (by simpa using number')] at one
      have none_ := markers_le_numbers respects marks middle
      rw [markers_append] at enough
      omega
    · rw [rest, markers_append]
      omega

theorem separate_iff : SeparateGroups fold marker groups ↔ Separable fold marker groups := by
  have inside : (∀ group ∈ groups.dropLast, markers fold marker group = 1) →
      ∀ front group back, groups = front ++ group :: back →
        ((∀ name, lookupBehind fold marker name front.length groups.flatten =
            lookupKey fold name group) ↔
          (∀ pair ∈ carried fold marker front,
            lookupKey fold pair.1 (carried fold marker front) = lookupKey fold pair.1 group) ∧
            ∀ pair ∈ back.flatten, (lookupKey fold pair.1 group).isSome = true) := by
    rintro marked front group back rfl
    have others : ∀ g ∈ front, markers fold marker g = 1 := by
      intro g member
      refine marked g ?_
      rw [List.dropLast_append_of_ne_nil (List.cons_ne_nil group back)]
      exact List.mem_append_left _ member
    rw [← lookups_agree_iff]
    simp only [List.flatten_append, List.flatten_cons, lookupBehind_groups _ front others]
  constructor
  · intro separate
    have marked := marked_of_separate respects marks numbered separate
    exact ⟨marked, fun front group back split =>
        ((inside marked front group back split).mp (separate front group back split)).1,
      fun front group back split =>
        ((inside marked front group back split).mp (separate front group back split)).2⟩
  · intro separable front group back split
    exact (inside separable.marked front group back split).mpr
      ⟨separable.carries front group back split, separable.known front group back split⟩

end SeparateGroups

end AirCast.Lib
