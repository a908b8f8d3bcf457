import Mathlib

/-! # Serial numbers: unbounded counters seen through fixed-width words

A counter that never wraps is an integer; the machine keeps it modulo `2 ^ w`
and compares two of them by the sign of their wrapped difference.  The lemmas
say when that comparison is exact, and that any index whose modulus divides
`2 ^ w` is read off the wrapped word unchanged. -/

set_option autoImplicit false

namespace AirCast.SerialNumber

def wrap (w : ℕ) (n : ℤ) : BitVec w := BitVec.ofInt w n

def signedDiff {w : ℕ} (a b : BitVec w) : ℤ := (a - b).toInt

theorem wrap_add (w : ℕ) (a b : ℤ) : wrap w a + wrap w b = wrap w (a + b) := by
  simp only [wrap, BitVec.ofInt_add]

theorem wrap_sub (w : ℕ) (a b : ℤ) : wrap w (a - b) = wrap w a + wrap w (-b) := by
  rw [wrap_add]
  rfl

theorem wrap_toNat {w : ℕ} (a : BitVec w) : wrap w a.toNat = a := by
  simp only [wrap, BitVec.ofInt_natCast, BitVec.ofNat_toNat, BitVec.setWidth_eq]

theorem signedDiff_wrap_bmod (w : ℕ) (a b : ℤ) :
    signedDiff (wrap w a) (wrap w b) = (a - b).bmod (2 ^ w) := by
  simp [signedDiff, wrap]

theorem signedDiff_eq_bmod {w : ℕ} (a b : BitVec w) :
    signedDiff a b = ((a.toNat : ℤ) - b.toNat).bmod (2 ^ w) := by
  rw [← signedDiff_wrap_bmod, wrap_toNat, wrap_toNat]

theorem signedDiff_wrap (w : ℕ) (a b : ℤ)
    (lower : -(2 ^ w : ℤ) ≤ 2 * (a - b)) (upper : 2 * (a - b) < 2 ^ w) :
    signedDiff (wrap w a) (wrap w b) = a - b := by
  rw [signedDiff_wrap_bmod]
  have positive : (0 : ℤ) < 2 ^ w := by positivity
  have cast : ((2 ^ w : ℕ) : ℤ) = 2 ^ w := by push_cast; rfl
  apply Int.bmod_eq_of_le_mul_two
  · rw [cast]
    omega
  · rw [cast]
    omega

theorem wrap_toNat_mod (w m : ℕ) (n : ℤ) (divides : m ∣ 2 ^ w) :
    ((wrap w n).toNat % m : ℕ) = (n % (m : ℤ)).toNat := by
  have cast : ((m : ℤ)) ∣ ((2 ^ w : ℕ) : ℤ) := Int.natCast_dvd_natCast.mpr divides
  have positive : (0 : ℤ) < ((2 ^ w : ℕ) : ℤ) := by positivity
  have wrapped : ((wrap w n).toNat : ℤ) = n % ((2 ^ w : ℕ) : ℤ) := by
    simp only [wrap, BitVec.toNat_ofInt]
    exact Int.toNat_of_nonneg (Int.emod_nonneg _ positive.ne')
  have same : (((wrap w n).toNat % m : ℕ) : ℤ) = n % (m : ℤ) := by
    rw [Int.natCast_mod, wrapped, Int.emod_emod_of_dvd _ cast]
  omega

theorem eq_of_emod_eq (m : ℕ) (first a b : ℤ) (same : a % (m : ℤ) = b % (m : ℤ))
    (ha : first ≤ a ∧ a < first + m) (hb : first ≤ b ∧ b < first + m) : a = b := by
  have divides : (m : ℤ) ∣ a - b := Int.ModEq.dvd (Int.ModEq.symm same)
  obtain ⟨k, hk⟩ := divides
  have small : -(m : ℤ) < (m : ℤ) * k ∧ (m : ℤ) * k < m := by omega
  have zero : k = 0 := by
    by_contra nonzero
    rcases lt_or_gt_of_ne nonzero with h | h
    · nlinarith
    · nlinarith
  subst zero
  omega

end AirCast.SerialNumber
