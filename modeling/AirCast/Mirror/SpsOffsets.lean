import AirCast.Mirror.SpsEncoding

/-! # Codes at every offset

The reads of the parser at any value of its 32-bit offset.  The byte counter of eight bits
starts again after 2048 bits, so a read finds its code exactly when the bits that the
counter leads to are those of the code. -/

set_option autoImplicit false

namespace AirCast.Mirror

def signedOf (code : ℕ) : ℤ := if code % 2 = 1 then (code + 1) / 2 else -(code / 2)

theorem signedOf_code (n : SeNumber) : signedOf n.code = n.value := by
  have bounded := n.bounded
  simp only [SeNumber.code, signedCode, signedOf]
  split_ifs <;> omega

theorem signedOf_injective {first second : ℕ} (same : signedOf first = signedOf second) :
    first = second := by
  unfold signedOf at same
  split_ifs at same <;> omega

theorem signedValue_toInt (n : UeNumber) :
    (signedValue (BitVec.ofNat 32 n)).toInt = signedOf n := by
  have small := n.isLt
  have odd : BitVec.ofNat 32 n.val &&& 1 ≠ 0 ↔ n.val % 2 = 1 := by
    rw [ne_eq, ← BitVec.toNat_inj]
    have low : (1 : BitVec 32).toNat = 2 ^ 1 - 1 := rfl
    rw [BitVec.toNat_and, low, Nat.and_two_pow_sub_one_eq_mod]
    simp
  rw [signedValue, signedOf]
  simp only [odd]
  split
  · rw [BitVec.toInt_eq_toNat_of_lt] <;> simp [BitVec.toNat_udiv, BitVec.toNat_add] <;> omega
  · have half : (BitVec.ofNat 32 n.val / 2).toInt = n.val / 2 := by
      rw [BitVec.toInt_eq_toNat_of_lt] <;> simp [BitVec.toNat_udiv] <;> omega
    rw [BitVec.toInt_neg, half, Int.bmod_eq_of_le] <;> omega

section reads

variable (wide : ℕ → BitVec 32) (buffer : Bytes)

/-- A read of a code: it ends with the value, and the offset, a number of 32 bits, has moved
by the length. -/
def Reads (read : Program ℕ (BitVec 32)) (offset length : ℕ) (value : BitVec 32) : Prop :=
  ∃ after, read.Ends offset value after ∧ after % 4294967296 = offset + length

/-- The bits from an offset on are those that the counters of the parser lead to. -/
def Unwrapped (offset length : ℕ) : Prop :=
  offset + length < 4294967296 ∧
    ∀ i < length, byteStream buffer ((offset + i) % 2048) = byteStream buffer (offset + i)

theorem unwrapped_first {offset length : ℕ} (inside : offset + length ≤ 2048) :
    Unwrapped buffer offset length :=
  ⟨by omega, fun i small => by rw [Nat.mod_eq_of_lt (by omega)]⟩

theorem carries_bitAt_iff {offset : ℕ} {bits : List Bool}
    (stands : Carries (byteStream buffer) offset bits) :
    Carries (bitAt buffer) offset bits ↔
      ∀ i < bits.length, byteStream buffer ((offset + i) % 2048) =
        byteStream buffer (offset + i) := by
  rw [carries_iff] at stands ⊢
  constructor
  · intro met i small
    rw [stands i small]
    exact met i small
  · intro same i small
    rw [← stands i small, ← same i small]
    rfl

theorem reads_readBits_iff {offset : ℕ} {bits : List Bool} (short : bits.length ≤ 32)
    (stands : Carries (byteStream buffer) offset bits) :
    Reads (readBits wide buffer bits.length) offset bits.length
        (BitVec.ofNat 32 (natOf bits)) ↔
      Unwrapped buffer offset bits.length := by
  rw [Unwrapped, ← carries_bitAt_iff buffer stands]
  constructor
  · rintro ⟨after, ends, place⟩
    obtain ⟨_, met, long, carried, value, rfl⟩ := (ends_readBits wide buffer).mp ends
    have inside : offset + bits.length < 4294967296 := by
      rw [← place]
      exact Nat.mod_lt _ (by norm_num)
    have same : met = bits := by
      have limit : 2 ^ bits.length ≤ 2 ^ 32 := Nat.pow_le_pow_right (by norm_num) short
      have metSmall := (natOf_lt met).trans_le (long ▸ limit)
      have bitsSmall := (natOf_lt bits).trans_le limit
      rw [collect_eq wide met (long ▸ short), ← BitVec.toNat_inj, BitVec.toNat_ofNat,
        BitVec.toNat_ofNat, Nat.mod_eq_of_lt bitsSmall, Nat.mod_eq_of_lt metSmall] at value
      exact natOf_injective long value.symm
    exact ⟨inside, same ▸ carried⟩
  · rintro ⟨inside, carried⟩
    refine ⟨_, (ends_readBits wide buffer).mpr
      ⟨by omega, bits, rfl, carried, (collect_eq wide bits short).symm, rfl⟩, ?_⟩
    exact Nat.mod_eq_of_lt inside

theorem code_of_length {n : UeNumber} {code : GolombCode}
    (long : code.bits.length = (ueBits n).length) : ∃ m : UeNumber, code = ueCode m := by
  have short := length_golombSuffix_lt n 32 (by have bounded := n.isLt; omega)
  rw [ueBits, GolombCode.bits, length_golombBits, length_golombBits] at long
  have power : 2 ^ code.suffix.length ≤ 2 ^ 31 := Nat.pow_le_pow_right (by norm_num) (by omega)
  have bounded := natOf_lt code.suffix
  have value : golombValue code.suffix < 4294967295 := by
    rw [golombValue]
    omega
  refine ⟨⟨golombValue code.suffix, value⟩, ?_⟩
  cases code
  simp only [ueCode, golombSuffix_value]

theorem ofNat_ueNumber_injective {n m : UeNumber} (same : BitVec.ofNat 32 n = BitVec.ofNat 32 m) :
    n = m := by
  have small := n.isLt
  have small' := m.isLt
  rw [← BitVec.toNat_inj, BitVec.toNat_ofNat, BitVec.toNat_ofNat, Nat.mod_eq_of_lt (by omega),
    Nat.mod_eq_of_lt (by omega)] at same
  exact Fin.ext same

theorem reads_readUeg {offset : ℕ} {n : UeNumber} {value : BitVec 32}
    (reads : Reads (readUeg wide buffer) offset (ueBits n).length value) :
    offset + (ueBits n).length < 4294967296 ∧
      ∃ m : UeNumber, Carries (bitAt buffer) offset (ueBits m) ∧ value = BitVec.ofNat 32 m := by
  obtain ⟨after, ends, place⟩ := reads
  obtain ⟨code, carried, rfl, rfl⟩ := (ends_readUeg wide buffer).mp ends
  have inside : offset + (ueBits n).length < 4294967296 := by
    rw [← place]
    exact Nat.mod_lt _ (by norm_num)
  have long : code.bits.length = (ueBits n).length := by
    have short := code.short
    have bits : code.bits.length = 2 * code.suffix.length + 1 := length_golombBits code.suffix
    have limit := length_ueBits n
    omega
  obtain ⟨m, rfl⟩ := code_of_length long
  exact ⟨inside, m, carried, ueCode_value wide m⟩

theorem reads_readUeg_iff {offset : ℕ} (n : UeNumber)
    (stands : Carries (byteStream buffer) offset (ueBits n)) :
    Reads (readUeg wide buffer) offset (ueBits n).length (BitVec.ofNat 32 n) ↔
      Unwrapped buffer offset (ueBits n).length := by
  rw [Unwrapped, ← carries_bitAt_iff buffer stands]
  constructor
  · intro reads
    obtain ⟨inside, m, carried, value⟩ := reads_readUeg wide buffer reads
    exact ⟨inside, ofNat_ueNumber_injective value ▸ carried⟩
  · rintro ⟨inside, carried⟩
    exact ⟨_, ends_ueBits wide carried, Nat.mod_eq_of_lt inside⟩

theorem signedValue_code (n : SeNumber) :
    signedValue (BitVec.ofNat 32 n.code) = BitVec.ofInt 32 n.value := by
  have bounded := n.bounded
  refine BitVec.eq_of_toInt_eq ?_
  rw [signedValue_toInt, signedOf_code, BitVec.toInt_ofInt, Int.bmod_eq_of_le] <;> omega

theorem reads_readEg_iff {offset : ℕ} (n : SeNumber)
    (stands : Carries (byteStream buffer) offset (ueBits n.code)) :
    Reads (readEg wide buffer) offset (ueBits n.code).length (BitVec.ofInt 32 n.value) ↔
      Unwrapped buffer offset (ueBits n.code).length := by
  constructor
  · rintro ⟨after, ends, place⟩
    rw [readEg, Program.ends_bind] at ends
    obtain ⟨value, _, read, ends⟩ := ends
    obtain ⟨same, rfl⟩ := Program.ends_pure.mp ends
    obtain ⟨_, m, _, rfl⟩ := reads_readUeg wide buffer ⟨_, read, place⟩
    have equal : m = n.code := by
      have signed := congrArg BitVec.toInt (same.symm.trans (signedValue_code n).symm)
      rw [signedValue_toInt, signedValue_toInt] at signed
      exact Fin.ext (signedOf_injective signed)
    exact (reads_readUeg_iff wide buffer n.code stands).mp ⟨_, equal ▸ read, place⟩
  · intro unwrapped
    obtain ⟨after, read, place⟩ := (reads_readUeg_iff wide buffer n.code stands).mpr unwrapped
    refine ⟨after, ?_, place⟩
    rw [readEg, Program.ends_bind]
    exact ⟨_, after, read, Program.ends_pure.mpr ⟨(signedValue_code n).symm, rfl⟩⟩

/-- A read at any offset finds what stands there exactly where the counters do not wrap on
the way, or the bits before the wrap are the same. -/
theorem codes_read_iff (offset : ℕ) :
    (∀ bits : List Bool, 1 ≤ bits.length → bits.length ≤ 32 →
      Carries (byteStream buffer) offset bits →
        (Reads (readBits wide buffer bits.length) offset bits.length
            (BitVec.ofNat 32 (natOf bits)) ↔
          Unwrapped buffer offset bits.length)) ∧
    (∀ n : UeNumber, Carries (byteStream buffer) offset (ueBits n) →
      (Reads (readUeg wide buffer) offset (ueBits n).length (BitVec.ofNat 32 n) ↔
        Unwrapped buffer offset (ueBits n).length)) ∧
    ∀ n : SeNumber, Carries (byteStream buffer) offset (ueBits n.code) →
      (Reads (readEg wide buffer) offset (ueBits n.code).length (BitVec.ofInt 32 n.value) ↔
        Unwrapped buffer offset (ueBits n.code).length) :=
  ⟨fun _ _ short stands => reads_readBits_iff wide buffer short stands,
    fun n stands => reads_readUeg_iff wide buffer n stands,
    fun n stands => reads_readEg_iff wide buffer n stands⟩

end reads

theorem first_code_read :
    Reads (readUeg (fun _ => 0) [66]) 0 3 (BitVec.ofNat 32 (1 : UeNumber)) :=
  ((codes_read_iff (fun _ => 0) [66] 0).2.1 1 ⟨rfl, rfl, rfl, trivial⟩).mpr
    (unwrapped_first _ (by decide))

def longBuffer : Bytes := List.replicate 256 0 ++ [128]

theorem longBuffer_bitAt (offset : ℕ) : bitAt longBuffer offset ≠ some true := by
  have inside : offset % 2048 / 8 < (List.replicate 256 (0 : UInt8)).length := by
    rw [List.length_replicate]
    omega
  rw [bitAt, byteStream, longBuffer, List.getElem?_append_left inside,
    List.getElem?_eq_getElem inside, List.getElem_replicate]
  simp

/-- The code behind the first 256 bytes is not read: the scan for its marker goes round the
zero bytes for ever. -/
theorem wrapped_code_lost :
    ¬ ∀ (offset : ℕ) (n : UeNumber), Carries (byteStream longBuffer) offset (ueBits n) →
      Reads (readUeg (fun _ => 0) longBuffer) offset (ueBits n).length (BitVec.ofNat 32 n) := by
  intro reads
  have stands : Carries (byteStream longBuffer) 2048 (ueBits 0) := ⟨by decide, trivial⟩
  obtain ⟨after, ends, _⟩ := reads 2048 0 stands
  obtain ⟨code, carried, _, _⟩ := (ends_readUeg _ _).mp ends
  rw [GolombCode.bits, golombBits, carries_append] at carried
  exact longBuffer_bitAt _ carried.2.1

end AirCast.Mirror
