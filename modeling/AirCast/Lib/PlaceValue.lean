import Mathlib

/-! # Digits under a change of one place

Facts about the value of a list of digits, least significant first, beyond those of
`Nat.ofDigits` in the library: one digit is raised, each digit is written out in a smaller
base, and all the bytes of a number are listed with the most significant one first. -/

set_option autoImplicit false

namespace AirCast

theorem ofDigits_modify (b d : ℕ) : ∀ (digits : List ℕ) (i : ℕ), i < digits.length →
    Nat.ofDigits b (digits.modify i (· + d)) = Nat.ofDigits b digits + d * b ^ i := by
  intro digits
  induction digits with
  | nil => intro i inside; exact absurd inside (Nat.not_lt_zero i)
  | cons digit rest ih =>
      intro i inside
      cases i with
      | zero =>
          rw [List.modify_zero_cons, Nat.ofDigits_cons, Nat.ofDigits_cons, pow_zero]
          omega
      | succ i =>
          have raised := ih i (Nat.lt_of_succ_lt_succ inside)
          rw [List.modify_succ_cons, Nat.ofDigits_cons, Nat.ofDigits_cons, raised, pow_succ]
          ring

theorem ofDigits_flatMap {α : Type*} {b k : ℕ} (split : α → List ℕ) (value : α → ℕ)
    (each : ∀ a, (split a).length = k ∧ Nat.ofDigits b (split a) = value a) (digits : List α) :
    Nat.ofDigits b (digits.flatMap split) = Nat.ofDigits (b ^ k) (digits.map value) := by
  induction digits with
  | nil => rfl
  | cons digit rest ih =>
      rw [List.flatMap_cons, Nat.ofDigits_append, ih, (each digit).1, (each digit).2,
        List.map_cons, Nat.ofDigits_cons]

theorem ofDigits_take_of_lt {b n : ℕ} {digits : List ℕ} (positive : 0 < b)
    (proper : ∀ digit ∈ digits, digit < b) (small : Nat.ofDigits b digits < b ^ n) :
    Nat.ofDigits b (digits.take n) = Nat.ofDigits b digits := by
  rw [← Nat.ofDigits_mod_pow_eq_ofDigits_take n positive digits proper, Nat.mod_eq_of_lt small]

def numberOf (bytes : List UInt8) : ℕ := Nat.ofDigits 256 (bytes.reverse.map UInt8.toNat)

/-- The last `k` bytes of a number. -/
def octets : ℕ → ℕ → List UInt8
  | 0, _ => []
  | k + 1, n => octets k (n / 256) ++ [UInt8.ofNat n]

theorem octets_length (k n : ℕ) : (octets k n).length = k := by
  induction k generalizing n with
  | zero => rfl
  | succ k ih => rw [octets, List.length_append, ih, List.length_singleton]

theorem numberOf_concat (bytes : List UInt8) (c : UInt8) :
    numberOf (bytes ++ [c]) = c.toNat + 256 * numberOf bytes := by
  rw [numberOf, List.reverse_append, List.reverse_singleton, List.singleton_append, List.map_cons,
    Nat.ofDigits_cons, numberOf]

theorem numberOf_cons (c : UInt8) (bytes : List UInt8) :
    numberOf (c :: bytes) = numberOf bytes + 256 ^ bytes.length * c.toNat := by
  rw [numberOf, List.reverse_cons, List.map_append, Nat.ofDigits_append, List.length_map,
    List.length_reverse, List.map_singleton, Nat.ofDigits_singleton, numberOf]

theorem byte_digits (bytes : List UInt8) : ∀ digit ∈ bytes.map UInt8.toNat, digit < 256 := by
  intro digit member
  obtain ⟨c, -, rfl⟩ := List.mem_map.mp member
  exact c.toNat_lt

theorem numberOf_lt (bytes : List UInt8) : numberOf bytes < 256 ^ bytes.length := by
  have bound := Nat.ofDigits_lt_base_pow_length (by norm_num) (byte_digits bytes.reverse)
  rwa [List.length_map, List.length_reverse] at bound

theorem numberOf_octets {k n : ℕ} (small : n < 256 ^ k) : numberOf (octets k n) = n := by
  induction k generalizing n with
  | zero =>
      rw [pow_zero] at small
      obtain rfl : n = 0 := by omega
      rfl
  | succ k ih =>
      have smaller : n / 256 < 256 ^ k := by
        rw [pow_succ] at small
        omega
      rw [octets, numberOf_concat, ih smaller, UInt8.toNat_ofNat']
      omega

theorem eq_of_numberOf_eq {bytes others : List UInt8} (count : bytes.length = others.length)
    (same : numberOf bytes = numberOf others) : bytes = others := by
  have digits := Nat.ofDigits_inj_of_len_eq (b := 256) (by norm_num) (by simp [count])
    (byte_digits bytes.reverse) (byte_digits others.reverse) same
  have injective : Function.Injective UInt8.toNat := fun c d equal => UInt8.toNat_inj.mp equal
  exact List.reverse_injective (List.map_injective_iff.mpr injective digits)

theorem octets_numberOf (bytes : List UInt8) : octets bytes.length (numberOf bytes) = bytes :=
  eq_of_numberOf_eq (octets_length _ _) (numberOf_octets (numberOf_lt bytes))

theorem numberOf_zeros (zeros : ℕ) (bytes : List UInt8) :
    numberOf (List.replicate zeros 0 ++ bytes) = numberOf bytes := by
  rw [numberOf, List.reverse_append, List.map_append, List.reverse_replicate, List.map_replicate,
    UInt8.toNat_zero, Nat.ofDigits_append_replicate_zero, numberOf]

theorem leading_zeros (bytes : List UInt8) :
    ∃ zeros, bytes = List.replicate zeros 0 ++ bytes.dropWhile (· = 0) := by
  refine ⟨(bytes.takeWhile (· = 0)).length, ?_⟩
  have all : ∀ c ∈ bytes.takeWhile (· = 0), c = 0 := by
    intro c member
    simpa using List.mem_takeWhile_imp member
  rw [← List.eq_replicate_of_mem all, List.takeWhile_append_dropWhile]

theorem numberOf_dropWhile (bytes : List UInt8) :
    numberOf (bytes.dropWhile (· = 0)) = numberOf bytes := by
  obtain ⟨zeros, split⟩ := leading_zeros bytes
  conv_rhs => rw [split]
  rw [numberOf_zeros]

theorem pow_le_numberOf {bytes : List UInt8} (nonzero : ∃ c ∈ bytes, c ≠ 0) :
    256 ^ ((bytes.dropWhile (· = 0)).length - 1) ≤ numberOf bytes := by
  have value := numberOf_dropWhile bytes
  cases digits : bytes.dropWhile (· = 0) with
  | nil =>
      obtain ⟨c, member, other⟩ := nonzero
      exact absurd (of_decide_eq_true (List.dropWhile_eq_nil_iff.mp digits c member)) other
  | cons first rest =>
      have leading : first ≠ 0 := by
        have head := List.head_dropWhile_not (fun c => decide (c = (0 : UInt8)))
          (l := bytes) (by simp [digits])
        simpa [digits] using head
      have positive : 1 ≤ first.toNat :=
        Nat.one_le_iff_ne_zero.mpr fun zero => leading (UInt8.toNat_inj.mp zero)
      rw [digits] at value
      rw [← value, numberOf_cons, List.length_cons, Nat.add_sub_cancel]
      exact le_add_left (Nat.le_mul_of_pos_right _ positive)

end AirCast
