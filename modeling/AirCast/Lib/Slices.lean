import Mathlib

/-! # Parts cut out by declared lengths

Parts stand one behind the other in a text.  A reader looks for each behind the declared
lengths of those before it, and takes its own declared length or the length of the whole
text.  He finds the parts exactly if each declares its length up to that of the text. -/

set_option autoImplicit false

namespace AirCast.Lib

variable {α : Type}

def cut (text : List α) (offset length : ℕ) : Option (List α) :=
  let taken := min length text.length
  if taken = 0 then some []
  else if offset + taken ≤ text.length then some ((text.drop offset).take taken)
  else none

variable {text part : List α} {offset length : ℕ}

theorem cut_length (found : cut text offset length = some part) :
    part.length = min length text.length := by
  unfold cut at found
  dsimp only at found
  split_ifs at found with nothing inside
  · cases found
    exact nothing.symm
  · cases found
    rw [List.length_take, List.length_drop]
    omega

theorem cut_part (front back : List α) (fits : part.length = min length (front ++ part ++ back).length)
    (behind : part ≠ [] → offset = front.length) :
    cut (front ++ part ++ back) offset length = some part := by
  unfold cut
  dsimp only
  rw [← fits]
  split_ifs with nothing inside
  · rw [List.length_eq_zero_iff.mp nothing]
  · have nonempty : part ≠ [] := fun empty => nothing (by rw [empty, List.length_nil])
    rw [behind nonempty, List.append_assoc, List.drop_left, List.take_left]
  · have nonempty : part ≠ [] := fun empty => nothing (by rw [empty, List.length_nil])
    rw [behind nonempty] at inside
    simp only [List.length_append] at inside
    omega

abbrev Declared (α : Type) := List (List α × ℕ)

theorem parts_found_iff (parts : Declared α) :
    (∀ front own back, parts = front ++ own :: back →
        cut (parts.map Prod.fst).flatten (front.map Prod.snd).sum own.2 = some own.1) ↔
      ∀ own ∈ parts, own.1.length = min own.2 (parts.map Prod.fst).flatten.length := by
  constructor
  · intro found own member
    obtain ⟨front, back, split⟩ := List.append_of_mem member
    exact cut_length (found front own back split)
  · intro fits front own back split
    have whole : (parts.map Prod.fst).flatten =
        (front.map Prod.fst).flatten ++ own.1 ++ (back.map Prod.fst).flatten := by
      simp [split]
    have own_fits := fits own (by simp [split])
    rw [whole] at own_fits ⊢
    refine cut_part _ _ own_fits fun nonempty => ?_
    have positive := List.length_pos_iff.mpr nonempty
    -- a part beside one that is not empty is shorter than the text
    have declared : ∀ other ∈ front, other.2 = other.1.length := by
      intro other member
      obtain ⟨before, after, rfl⟩ := List.append_of_mem member
      have other_fits := fits other (by simp [split])
      rw [whole] at other_fits
      simp only [List.map_append, List.map_cons, List.flatten_append, List.flatten_cons,
        List.length_append] at other_fits
      omega
    rw [List.length_flatten, List.map_map]
    exact congrArg List.sum (List.map_congr_left fun other member => declared other member)

end AirCast.Lib
