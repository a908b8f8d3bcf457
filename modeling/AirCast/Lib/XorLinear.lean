import Mathlib

/-! # Functions on words that keep exclusive or

Such a function is known from what it makes of the words with a single bit, so that two of them are
compared by computing. -/

set_option autoImplicit false

namespace AirCast

def XorLinear {n m : ℕ} (f : BitVec n → BitVec m) : Prop := ∀ a b, f (a ^^^ b) = f a ^^^ f b

namespace XorLinear

variable {n m k : ℕ}

theorem xor_left_comm (a b c : BitVec n) : a ^^^ (b ^^^ c) = b ^^^ (a ^^^ c) := by
  rw [← BitVec.xor_assoc, BitVec.xor_comm a b, BitVec.xor_assoc]

theorem zero {f : BitVec n → BitVec m} (linear : XorLinear f) : f 0 = 0 := by
  have twice := linear 0 0
  rwa [BitVec.xor_self, BitVec.xor_self] at twice

theorem id : XorLinear fun a : BitVec n => a := fun _ _ => rfl

theorem xor {f g : BitVec n → BitVec m} (first : XorLinear f) (second : XorLinear g) :
    XorLinear fun a => f a ^^^ g a := by
  intro a b
  dsimp only
  rw [first, second, BitVec.xor_assoc, BitVec.xor_assoc, xor_left_comm (f b)]

theorem comp {f : BitVec n → BitVec m} {g : BitVec m → BitVec k} (second : XorLinear g)
    (first : XorLinear f) : XorLinear fun a => g (f a) := by
  intro a b
  dsimp only
  rw [first, second]

theorem setWidth_succ (a : BitVec n) (i : ℕ) :
    ((a.setWidth (i + 1)).setWidth n : BitVec n) =
      (a.setWidth i).setWidth n ^^^ (if a.getLsbD i then BitVec.twoPow n i else 0) := by
  apply BitVec.eq_of_getLsbD_eq
  intro j inside
  have single : (if a.getLsbD i then BitVec.twoPow n i else 0).getLsbD j =
      (a.getLsbD i && decide (j = i)) := by
    cases a.getLsbD i <;> simp [inside]
  rw [BitVec.getLsbD_xor, single, BitVec.getLsbD_setWidth, BitVec.getLsbD_setWidth,
    BitVec.getLsbD_setWidth, BitVec.getLsbD_setWidth]
  rcases Nat.lt_trichotomy j i with below | rfl | above
  · simp [below, show j < i + 1 by omega, show j ≠ i by omega]
  · simp [inside]
  · simp [show ¬ j < i by omega, show ¬ j < i + 1 by omega, show j ≠ i by omega]

theorem ext {f g : BitVec n → BitVec m} (first : XorLinear f) (second : XorLinear g)
    (agree : ∀ i : Fin n, f (BitVec.twoPow n i) = g (BitVec.twoPow n i)) (a : BitVec n) :
    f a = g a := by
  have upTo : ∀ i ≤ n, f ((a.setWidth i).setWidth n) = g ((a.setWidth i).setWidth n) := by
    intro i inside
    induction i with
    | zero =>
        have none_ : (a.setWidth 0).setWidth n = 0 := by
          apply BitVec.eq_of_getLsbD_eq
          intro j _
          simp
        rw [none_, first.zero, second.zero]
    | succ i ih =>
        rw [setWidth_succ, first, second, ih (by omega)]
        congr 1
        split_ifs
        · exact agree ⟨i, inside⟩
        · rw [first.zero, second.zero]
  have whole := upTo n le_rfl
  rwa [BitVec.setWidth_eq, BitVec.setWidth_eq] at whole

end XorLinear

end AirCast
