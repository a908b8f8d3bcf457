import Mathlib

/-! # Bit strings

Numbers as bit strings with the most significant bit first, Exp-Golomb codes, and
streams of bits that may end. -/

set_option autoImplicit false

namespace AirCast

/-- The stream has these bits from position `start` on. -/
def Carries (stream : ℕ → Option Bool) : ℕ → List Bool → Prop
  | _, [] => True
  | start, bit :: rest => stream start = some bit ∧ Carries stream (start + 1) rest

theorem carries_append (stream : ℕ → Option Bool) :
    ∀ (front back : List Bool) (start : ℕ), Carries stream start (front ++ back) ↔
      Carries stream start front ∧ Carries stream (start + front.length) back := by
  intro front
  induction front with
  | nil => intro back start; simp [Carries]
  | cons bit rest ih =>
      intro back start
      simp only [List.cons_append, Carries, ih, List.length_cons, and_assoc]
      rw [Nat.add_right_comm, Nat.add_assoc]

theorem carries_iff (stream : ℕ → Option Bool) :
    ∀ (bits : List Bool) (start : ℕ), Carries stream start bits ↔
      ∀ index (inside : index < bits.length), stream (start + index) = some bits[index] := by
  intro bits
  induction bits with
  | nil => intro start; simp [Carries]
  | cons bit rest ih =>
      intro start
      rw [Carries, ih]
      constructor
      · rintro ⟨first, later⟩ (_ | index) inside
        · exact first
        · have found := later index (by simpa using inside)
          rwa [Nat.add_assoc, Nat.add_comm 1] at found
      · intro all
        refine ⟨all 0 (by simp), fun index inside => ?_⟩
        have found := all (index + 1) (by simpa using inside)
        rwa [Nat.add_assoc, Nat.add_comm 1]

def natOf : List Bool → ℕ
  | [] => 0
  | bit :: rest => bit.toNat * 2 ^ rest.length + natOf rest

theorem natOf_lt (bits : List Bool) : natOf bits < 2 ^ bits.length := by
  induction bits with
  | nil => simp [natOf]
  | cons bit rest ih =>
      have top : bit.toNat ≤ 1 := bit.toNat_le
      have part : bit.toNat * 2 ^ rest.length ≤ 1 * 2 ^ rest.length :=
        Nat.mul_le_mul_right _ top
      rw [natOf, List.length_cons, pow_succ]
      omega

/-- The low `width` bits of a number. -/
def fixedBits : ℕ → ℕ → List Bool
  | 0, _ => []
  | width + 1, n => n.testBit width :: fixedBits width n

@[simp] theorem length_fixedBits (width n : ℕ) : (fixedBits width n).length = width := by
  induction width with
  | zero => rfl
  | succ width ih => rw [fixedBits, List.length_cons, ih]

theorem natOf_fixedBits (width n : ℕ) : natOf (fixedBits width n) = n % 2 ^ width := by
  induction width with
  | zero => simp [fixedBits, natOf, Nat.mod_one]
  | succ width ih =>
      rw [fixedBits, natOf, ih, length_fixedBits, Nat.toNat_testBit, pow_succ, Nat.mod_mul,
        Nat.add_comm, Nat.mul_comm]

theorem testBit_natOf (bits : List Bool) :
    ∀ index (inside : index < bits.length),
      (natOf bits).testBit (bits.length - 1 - index) = bits[index] := by
  induction bits with
  | nil => intro index inside; simp at inside
  | cons bit rest ih =>
      intro index inside
      rw [natOf, Nat.mul_comm, Nat.testBit_two_pow_mul_add _ (natOf_lt rest), List.length_cons]
      cases index with
      | zero => cases bit <;> simp
      | succ index =>
          have within : index < rest.length := by simpa using inside
          rw [if_pos (by omega), List.getElem_cons_succ, ← ih index within]
          congr 1
          omega

theorem getElem_fixedBits (width n : ℕ) : ∀ index (inside : index < (fixedBits width n).length),
    (fixedBits width n)[index] = n.testBit (width - 1 - index) := by
  induction width with
  | zero => intro index inside; simp [fixedBits] at inside
  | succ width ih =>
      intro index inside
      cases index with
      | zero => rfl
      | succ index =>
          have within : index < (fixedBits width n).length := by simpa [fixedBits] using inside
          have place : width + 1 - 1 - (index + 1) = width - 1 - index := by omega
          rw [place, ← ih index within]
          rfl

theorem fixedBits_natOf (bits : List Bool) (high : ℕ) :
    fixedBits bits.length (2 ^ bits.length * high + natOf bits) = bits := by
  refine List.ext_getElem (length_fixedBits _ _) fun index _ inside => ?_
  rw [getElem_fixedBits, Nat.testBit_two_pow_mul_add _ (natOf_lt bits), if_pos (by omega),
    testBit_natOf bits index inside]

theorem natOf_injective {first second : List Bool} (long : first.length = second.length)
    (same : natOf first = natOf second) : first = second := by
  rw [← fixedBits_natOf first 0, ← fixedBits_natOf second 0, long, same]

def golombBits (suffix : List Bool) : List Bool :=
  List.replicate suffix.length false ++ true :: suffix

theorem length_golombBits (suffix : List Bool) :
    (golombBits suffix).length = 2 * suffix.length + 1 := by
  simp [golombBits]
  omega

def golombValue (suffix : List Bool) : ℕ := 2 ^ suffix.length - 1 + natOf suffix

def golombSuffix (n : ℕ) : List Bool := fixedBits (n + 1).log2 (n + 1)

theorem golombValue_suffix (n : ℕ) : golombValue (golombSuffix n) = n := by
  have low : 2 ^ (n + 1).log2 ≤ n + 1 := Nat.log2_self_le (by omega)
  have high : n + 1 < 2 ^ ((n + 1).log2 + 1) := Nat.lt_log2_self
  have rest : (n + 1) % 2 ^ (n + 1).log2 = n + 1 - 2 ^ (n + 1).log2 := by
    rw [Nat.mod_eq_sub_mod low, Nat.mod_eq_of_lt]
    rw [pow_succ] at high
    omega
  have positive := Nat.two_pow_pos (n + 1).log2
  rw [golombValue, golombSuffix, natOf_fixedBits, rest, length_fixedBits]
  omega

theorem golombSuffix_value (suffix : List Bool) : golombSuffix (golombValue suffix) = suffix := by
  have positive := Nat.two_pow_pos suffix.length
  have small := natOf_lt suffix
  have whole : golombValue suffix + 1 = 2 ^ suffix.length * 1 + natOf suffix := by
    rw [golombValue]
    omega
  have log : (2 ^ suffix.length * 1 + natOf suffix).log2 = suffix.length := by
    rw [Nat.log2_eq_iff (by omega), pow_succ]
    omega
  rw [golombSuffix, whole, log, fixedBits_natOf]

theorem length_golombSuffix_lt (n width : ℕ) (small : n + 1 < 2 ^ width) :
    (golombSuffix n).length < width := by
  rw [golombSuffix, length_fixedBits]
  exact (Nat.log2_lt (by omega)).mpr small

def signedCode (value : ℤ) : ℕ := if 0 < value then (2 * value - 1).toNat else (-2 * value).toNat

def byteOf (bits : List Bool) : UInt8 := UInt8.ofNat (natOf bits)

def packBits (bits : List Bool) : List UInt8 :=
  (List.range (bits.length / 8)).map fun index => byteOf ((bits.drop (8 * index)).take 8)

def byteStream (bytes : List UInt8) (position : ℕ) : Option Bool :=
  bytes[position / 8]?.map fun b => b.toNat.testBit (7 - position % 8)

theorem testBit_byteOf {bits : List Bool} (full : bits.length = 8) (index : ℕ)
    (inside : index < 8) :
    (byteOf bits).toNat.testBit (7 - index) = bits.get ⟨index, full.symm ▸ inside⟩ := by
  have small : natOf bits < 2 ^ 8 := full ▸ natOf_lt bits
  have value : (byteOf bits).toNat = natOf bits := Nat.mod_eq_of_lt small
  have bit := testBit_natOf bits index (full.symm ▸ inside)
  rw [value, ← show bits.length - 1 = 7 by omega]
  exact bit

theorem byteStream_packBits (bits : List Bool) (position : ℕ)
    (inside : position < bits.length / 8 * 8) :
    byteStream (packBits bits) position = bits[position]? := by
  have group : position / 8 < bits.length / 8 := by omega
  have full : ((bits.drop (8 * (position / 8))).take 8).length = 8 := by
    rw [List.length_take, List.length_drop]
    omega
  rw [byteStream, packBits, List.getElem?_map, List.getElem?_range group, Option.map_some,
    Option.map_some, testBit_byteOf full _ (Nat.mod_lt _ (by norm_num)), List.get_eq_getElem,
    List.getElem_take, List.getElem_drop, ← List.getElem?_eq_getElem]
  congr 1
  dsimp only
  omega

end AirCast
