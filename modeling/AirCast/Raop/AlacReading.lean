import AirCast.Lib.BitGrammar
import AirCast.Raop.AlacDecoder

/-! # What the bit reader of the ALAC decoder reads

The reader moves through the bits of the packet with the most significant bit of each byte
first.  Its pointer and its accumulator are the quotient and the remainder of one position. -/

set_option autoImplicit false

namespace AirCast.Raop

variable {u : Unspecified} {memory : Memory}

def bitStream (memory : Memory) (position : ℕ) : Option Bool :=
  some ((memory (position / 8 : ℕ)).getLsbD (7 - position % 8))

def readerAt (position : ℕ) : BitReader := ⟨(position / 8 : ℕ), (position % 8 : ℕ)⟩

theorem readerAt_add (position bits : ℕ) :
    (⟨(position / 8 : ℕ) + ((position % 8 : ℕ) + bits : ℤ) / 8,
      ((position % 8 : ℕ) + bits : ℤ) % 8⟩ : BitReader) = readerAt (position + bits) := by
  rw [readerAt, BitReader.mk.injEq]
  omega

theorem readerAt_sub {position bits : ℕ} (enough : bits ≤ position) :
    (⟨(position / 8 : ℕ) + ((position % 8 : ℕ) - bits : ℤ) / 8,
      ((position % 8 : ℕ) - bits : ℤ) % 8⟩ : BitReader) = readerAt (position - bits) := by
  rw [readerAt, BitReader.mk.injEq]
  omega

@[simp] theorem shiftLeft_inside (x : BitVec 32) {n : ℕ} (inside : n < 32) :
    shiftLeft u x n = x <<< n := by
  rw [shiftLeft, if_pos (by omega), Int.toNat_natCast]

@[simp] theorem shiftRight_inside (x : BitVec 32) {n : ℕ} (inside : n < 32) :
    shiftRight u x n = x >>> n := by
  rw [shiftRight, if_pos (by omega), Int.toNat_natCast]

@[simp] theorem sshiftRight_inside (x : BitVec 32) {n : ℕ} (inside : n < 32) :
    sshiftRight u x n = x.sshiftRight n := by
  rw [sshiftRight, if_pos (by omega), Int.toNat_natCast]

theorem toInt_ofNat_small {n : ℕ} (small : n < 2 ^ 31) : (BitVec.ofNat 32 n).toInt = n := by
  have value : (BitVec.ofNat 32 n).toNat = n := by
    rw [BitVec.toNat_ofNat]
    omega
  rw [BitVec.toInt_eq_toNat_of_lt (by omega), value]

theorem threeBytes_bit (start : ℕ) {i : ℕ} (inside : i < 24) :
    some ((threeBytes memory start).getLsbD i) = bitStream memory (8 * start + (23 - i)) := by
  have place : ∀ byte bit, bit < 8 → i = 8 * (2 - byte) + bit → byte ≤ 2 →
      bitStream memory (8 * start + (23 - i)) = some ((memory (start + byte : ℕ)).getLsbD bit) := by
    intro byte bit small split within
    rw [bitStream, show (8 * start + (23 - i)) / 8 = start + byte by omega,
      show 7 - (8 * start + (23 - i)) % 8 = bit by omega]
  rcases show i < 8 ∨ (8 ≤ i ∧ i < 16) ∨ 16 ≤ i by omega with low | ⟨middle, upper⟩ | high
  · rw [place 2 i low (by omega) (by omega)]
    simp [threeBytes, show i < 16 by omega, low, show i < 32 by omega]
  · rw [place 1 (i - 8) (by omega) (by omega) (by omega)]
    simp [threeBytes, upper, show ¬ i < 8 by omega, show i < 32 by omega,
      BitVec.getLsbD_of_ge _ i middle]
  · rw [place 0 (i - 16) (by omega) (by omega) (by omega)]
    simp [threeBytes, show ¬ i < 16 by omega, show ¬ i < 8 by omega, show i < 32 by omega,
      BitVec.getLsbD_of_ge _ i (show 8 ≤ i by omega),
      BitVec.getLsbD_of_ge _ (i - 8) (show 8 ≤ i - 8 by omega)]

theorem reads_bits16 {bits : List Bool} (short : bits.length ≤ 16) :
    Reads (bitStream memory) readerAt (readbits16 u memory bits.length) bits
      (BitVec.ofNat 32 (natOf bits)) := by
  intro position carried
  rw [readbits16]
  refine Prod.ext (BitVec.eq_of_getLsbD_eq fun i width => ?_) (readerAt_add position bits.length)
  have small : natOf bits < 2 ^ 32 := (natOf_lt bits).trans_le (Nat.pow_le_pow_right (by omega) (by omega))
  rw [BitVec.getLsbD_ofNat]
  simp only [readerAt, shiftLeft_inside _ (show position % 8 < 32 by omega),
    show (24 - bits.length : ℤ) = (24 - bits.length : ℕ) by omega,
    shiftRight_inside _ (show 24 - bits.length < 32 by omega), BitVec.getLsbD_ushiftRight,
    BitVec.getLsbD_and, BitVec.getLsbD_shiftLeft, width, decide_true, Bool.true_and]
  rw [show (0x00ffffff : BitVec 32) = BitVec.ofNat 32 (2 ^ 24 - 1) from rfl, BitVec.getLsbD_ofNat,
    Nat.testBit_two_pow_sub_one]
  by_cases read : i < bits.length
  · have bit := (carries_iff _ _ _).mp carried (bits.length - 1 - i) (by omega)
    have found := @threeBytes_bit memory (position / 8) _
      (show 24 - bits.length + i - position % 8 < 24 by omega)
    rw [show 8 * (position / 8) + (23 - (24 - bits.length + i - position % 8)) =
      position + (bits.length - 1 - i) by omega, bit, ← testBit_natOf,
      show bits.length - 1 - (bits.length - 1 - i) = i by omega] at found
    rw [Option.some.inj found]
    simp [show 24 - bits.length + i < 32 by omega, show 24 - bits.length + i < 24 by omega,
      show ¬ 24 - bits.length + i < position % 8 by omega]
  · have top : (natOf bits).testBit i = false :=
      Nat.testBit_lt_two_pow ((natOf_lt bits).trans_le (Nat.pow_le_pow_right (by omega) (by omega)))
    simp [top, show ¬ 24 - bits.length + i < 24 by omega]

/-- Up to thirty-two bits are read as a number. -/
theorem reads_bits {bits : List Bool} (short : bits.length ≤ 32) :
    Reads (bitStream memory) readerAt (readbits u memory bits.length) bits
      (BitVec.ofNat 32 (natOf bits)) := by
  rw [readbits]
  split_ifs with long
  · have cut := List.take_append_drop 16 bits
    have front : (bits.take 16).length = 16 := by
      rw [List.length_take]
      omega
    have back : (bits.drop 16).length = bits.length - 16 := List.length_drop
    have high := @reads_bits16 u memory (bits.take 16) (by omega)
    have low := @reads_bits16 u memory (bits.drop 16) (by omega)
    rw [front] at high
    rw [back, show ((bits.length - 16 : ℕ) : ℤ) = bits.length - 16 by omega] at low
    have value : shiftLeft u (BitVec.ofNat 32 (natOf (bits.take 16))) (bits.length - 16) |||
        BitVec.ofNat 32 (natOf (bits.drop 16)) = BitVec.ofNat 32 (natOf bits) := by
      have top := natOf_lt (bits.take 16)
      have rest := natOf_lt (bits.drop 16)
      rw [front] at top
      rw [back] at rest
      have least : natOf (bits.drop 16) < 2 ^ 32 :=
        rest.trans_le (Nat.pow_le_pow_right (by omega) (by omega))
      have fits : natOf (bits.take 16) * 2 ^ (bits.length - 16) < 2 ^ 32 := by
        calc natOf (bits.take 16) * 2 ^ (bits.length - 16)
            < 2 ^ 16 * 2 ^ (bits.length - 16) := Nat.mul_lt_mul_of_pos_right top (by positivity)
          _ = 2 ^ bits.length := by rw [← pow_add]; congr 1; omega
          _ ≤ 2 ^ 32 := Nat.pow_le_pow_right (by omega) short
      rw [show ((bits.length : ℤ) - 16) = (bits.length - 16 : ℕ) by omega,
        shiftLeft_inside _ (by omega)]
      apply BitVec.eq_of_toNat_eq
      rw [BitVec.toNat_or, BitVec.toNat_shiftLeft, BitVec.toNat_ofNat, BitVec.toNat_ofNat,
        BitVec.toNat_ofNat, Nat.mod_eq_of_lt (top.trans (by norm_num)), Nat.shiftLeft_eq,
        Nat.mod_eq_of_lt fits, Nat.mod_eq_of_lt least, Nat.mul_comm,
        ← Nat.two_pow_add_eq_or_of_lt rest, Nat.mul_comm, ← back, ← natOf_append, cut,
        Nat.mod_eq_of_lt ((natOf_lt bits).trans_le (Nat.pow_le_pow_right (by omega) short))]
    rw [← value]
    conv => arg 4; rw [← cut, ← List.append_nil (bits.drop 16)]
    exact high.bind (low.bind (Reads.pure _))
  · exact reads_bits16 (by omega)

theorem reads_fixed {width n : ℕ} (short : width ≤ 32) (small : n < 2 ^ width) :
    Reads (bitStream memory) readerAt (readbits u memory width) (fixedBits width n)
      (BitVec.ofNat 32 n) := by
  have read := @reads_bits u memory (fixedBits width n) (by rwa [length_fixedBits])
  rwa [length_fixedBits, natOf_fixedBits, Nat.mod_eq_of_lt small] at read

theorem reads_bit (bit : Bool) :
    Reads (bitStream memory) readerAt (readbit u memory) [bit] bit := by
  intro position carried
  have found : bitStream memory position = some bit := carried.1
  rw [bitStream, Option.some.injEq] at found
  rw [readbit]
  refine Prod.ext ?_ (readerAt_add position 1)
  simp only [readerAt, shiftLeft_inside _ (show position % 8 < 32 by omega)]
  rw [BitVec.getLsbD_shiftLeft, BitVec.getLsbD_setWidth, ← found]
  simp [show ¬ 7 < position % 8 by omega, show 7 - position % 8 < 32 by omega]

end AirCast.Raop
