import Mathlib

/-! # Bytes as numbers of six bits

Three bytes are four numbers; one or two bytes at the end leave two or three of them. -/

set_option autoImplicit false

namespace AirCast

def sextets : List UInt8 → List ℕ
  | [] => []
  | [a] => [a.toNat / 4, a.toNat % 4 * 16]
  | [a, b] => [a.toNat / 4, a.toNat % 4 * 16 + b.toNat / 16, b.toNat % 16 * 4]
  | a :: b :: c :: rest =>
      a.toNat / 4 :: (a.toNat % 4 * 16 + b.toNat / 16) :: (b.toNat % 16 * 4 + c.toNat / 64) ::
        (c.toNat % 64) :: sextets rest

/-- The byte whose first bits are the last ones of a number and whose last bits are the first
ones of the next. -/
def joined (high low : ℕ) : UInt8 := UInt8.ofNat (high + low)

def ofSextets : List ℕ → List UInt8
  | a :: b :: c :: d :: rest =>
      joined (a * 4) (b / 16) :: joined (b % 16 * 16) (c / 4) :: joined (c % 4 * 64) d ::
        ofSextets rest
  | [a, b, c] => [joined (a * 4) (b / 16), joined (b % 16 * 16) (c / 4)]
  | [a, b] => [joined (a * 4) (b / 16)]
  | _ => []

theorem eq_nil_of_short {numbers : List ℕ} (even : numbers.length % 4 ≠ 1)
    (two : ∀ a b, numbers = [a, b] → False) (three : ∀ a b c, numbers = [a, b, c] → False)
    (four : ∀ a b c d rest, numbers = a :: b :: c :: d :: rest → False) : numbers = [] := by
  rcases numbers with _ | ⟨a, _ | ⟨b, _ | ⟨c, _ | ⟨d, rest⟩⟩⟩⟩
  · rfl
  · exact absurd rfl even
  · exact absurd rfl (two a b)
  · exact absurd rfl (three a b c)
  · exact absurd rfl (four a b c d rest)

theorem joined_of_eq {high low : ℕ} {c : UInt8} (same : high + low = c.toNat) :
    joined high low = c := by
  rw [joined, same]
  exact UInt8.ofNat_toNat

theorem ofSextets_sextets (bytes : List UInt8) : ofSextets (sextets bytes) = bytes := by
  induction bytes using sextets.induct with
  | case1 => rfl
  | case2 a =>
      rw [sextets, ofSextets, joined_of_eq (c := a) (by omega)]
  | case3 a b =>
      have second := b.toNat_lt
      rw [sextets, ofSextets, joined_of_eq (c := a) (by omega), joined_of_eq (c := b) (by omega)]
  | case4 a b c rest ih =>
      have second := b.toNat_lt
      have third := c.toNat_lt
      rw [sextets, ofSextets, ih, joined_of_eq (c := a) (by omega),
        joined_of_eq (c := b) (by omega), joined_of_eq (c := c) (by omega)]

theorem sextets_lt (bytes : List UInt8) : ∀ s ∈ sextets bytes, s < 64 := by
  induction bytes using sextets.induct with
  | case1 => simp [sextets]
  | case2 a =>
      have first := a.toNat_lt
      intro s member
      simp only [sextets, List.mem_cons, List.not_mem_nil, or_false] at member
      omega
  | case3 a b =>
      have first := a.toNat_lt
      have second := b.toNat_lt
      intro s member
      simp only [sextets, List.mem_cons, List.not_mem_nil, or_false] at member
      omega
  | case4 a b c rest ih =>
      have first := a.toNat_lt
      have second := b.toNat_lt
      have third := c.toNat_lt
      intro s member
      simp only [sextets, List.mem_cons] at member
      rcases member with member | member | member | member | member
      · omega
      · omega
      · omega
      · omega
      · exact ih s member

theorem sextets_length (bytes : List UInt8) :
    (sextets bytes).length = (bytes.length * 4 + 2) / 3 := by
  induction bytes using sextets.induct with
  | case1 => rfl
  | case2 a => simp [sextets]
  | case3 a b => simp [sextets]
  | case4 a b c rest ih =>
      simp only [sextets, List.length_cons, ih]
      omega

end AirCast
