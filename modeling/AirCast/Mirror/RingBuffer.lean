import AirCast.CString
import AirCast.Lib.RingLayout

/-! # The ring buffer of the video stream

`ring_buffer.c`.  The size is a power of two and the pointers are masked, so that a
ring of `size` bytes holds at most `size - 1`.  A put or a get copies as much as
fits or is there, in at most two pieces. -/

set_option autoImplicit false

namespace AirCast.Mirror

structure RingBuffer where
  buf : Bytes
  writePtr : ℕ
  readPtr : ℕ
  size : ℕ
  sizeMask : ℕ

def toSizeT (n : ℤ) : ℕ := (n % 2 ^ 64).toNat

/-- The loop of `ringbuffer_create` that looks for the power of two. -/
def powerOfTwo (sz : ℕ) : ℕ → ℕ → ℕ
  | 0, power => power
  | fuel + 1, power => if 1 <<< power < sz then powerOfTwo sz fuel (power + 1) else power

def ringbufferCreate (sz : ℕ) : RingBuffer :=
  let size := 1 <<< powerOfTwo sz 30 1
  ⟨List.replicate size 0, 0, 0, size, size - 1⟩

namespace RingBuffer

def ringbufferReset (rb : RingBuffer) : RingBuffer :=
  { rb with readPtr := 0, writePtr := 0, buf := List.replicate rb.size 0 }

def ringbufferReadSpace (rb : RingBuffer) : ℕ :=
  toSizeT (rb.writePtr - rb.readPtr) &&& rb.sizeMask

def ringbufferWriteSpace (rb : RingBuffer) : ℕ :=
  toSizeT (rb.readPtr - rb.writePtr - 1) &&& rb.sizeMask

def ringbufferIsEmpty (rb : RingBuffer) : Bool := rb.readPtr = rb.writePtr

/-- One `memcpy` of a put with the advance of the write pointer. -/
def copyIn (rb : RingBuffer) (bytes : Bytes) : RingBuffer :=
  { rb with
    buf := overwrite rb.buf rb.writePtr bytes
    writePtr := (rb.writePtr + bytes.length) &&& rb.sizeMask }

def copyOut (rb : RingBuffer) (n : ℕ) : RingBuffer × Bytes :=
  ({ rb with readPtr := (rb.readPtr + n) &&& rb.sizeMask }, window rb.buf rb.readPtr n)

def ringbufferPut (rb : RingBuffer) (src : Bytes) : RingBuffer × ℕ :=
  let freeCnt := rb.ringbufferWriteSpace
  if freeCnt = 0 then (rb, 0)
  else
    let toWrite := if src.length > freeCnt then freeCnt else src.length
    let cnt2 := rb.writePtr + toWrite
    let n1 := if cnt2 > rb.size then rb.size - rb.writePtr else toWrite
    let n2 := if cnt2 > rb.size then cnt2 &&& rb.sizeMask else 0
    let rb := rb.copyIn (src.take n1)
    if n2 ≠ 0 then (rb.copyIn ((src.drop n1).take n2), toWrite) else (rb, toWrite)

/-- The bytes copied to `dest`; their number is the result. -/
def ringbufferGet (rb : RingBuffer) (cnt : ℕ) : RingBuffer × Bytes :=
  let freeCnt := rb.ringbufferReadSpace
  if freeCnt = 0 then (rb, [])
  else
    let toRead := if cnt > freeCnt then freeCnt else cnt
    let cnt2 := rb.readPtr + toRead
    let n1 := if cnt2 > rb.size then rb.size - rb.readPtr else toRead
    let n2 := if cnt2 > rb.size then cnt2 &&& rb.sizeMask else 0
    let (rb, dest) := rb.copyOut n1
    if n2 ≠ 0 then
      let (rb, more) := rb.copyOut n2
      (rb, dest ++ more)
    else (rb, dest)

structure Holds (rb : RingBuffer) (content : Bytes) : Prop where
  power : ∃ k ≤ 64, rb.size = 2 ^ k
  mask : rb.sizeMask = rb.size - 1
  cells : rb.buf.length = rb.size
  layout : RingLayout rb.buf rb.readPtr rb.writePtr content

variable {rb : RingBuffer} {content : Bytes}

theorem Holds.masked (holds : rb.Holds content) (n : ℕ) : n &&& rb.sizeMask = n % rb.size := by
  obtain ⟨k, _, size⟩ := holds.power
  rw [holds.mask, size, Nat.and_two_pow_sub_one_eq_mod]

theorem Holds.size_dvd (holds : rb.Holds content) : (rb.size : ℤ) ∣ 2 ^ 64 := by
  obtain ⟨k, small, size⟩ := holds.power
  rw [size, Nat.cast_pow]
  exact pow_dvd_pow 2 small

theorem Holds.length_lt (holds : rb.Holds content) : content.length < rb.size :=
  holds.cells ▸ holds.layout.length_lt

theorem Holds.wraps (holds : rb.Holds content) {n : ℤ} (low : 0 ≤ n + rb.size) :
    toSizeT n &&& rb.sizeMask = (n + rb.size).toNat % rb.size := by
  have reduced : ((n % 2 ^ 64).toNat : ℤ) = n % 2 ^ 64 := Int.toNat_of_nonneg (by omega)
  zify
  rw [toSizeT, holds.masked, Int.natCast_mod, reduced, Int.toNat_of_nonneg low,
    Int.emod_emod_of_dvd n holds.size_dvd, Int.add_emod_right]

theorem Holds.readSpace (holds : rb.Holds content) :
    rb.ringbufferReadSpace = content.length := by
  have inside := holds.cells ▸ holds.layout.read_lt
  have distance : ((rb.writePtr : ℤ) - rb.readPtr + rb.size).toNat =
      rb.writePtr + rb.size - rb.readPtr := by omega
  rw [ringbufferReadSpace, holds.wraps (by omega), distance, ← holds.cells,
    holds.layout.readSpace]

theorem Holds.writeSpace (holds : rb.Holds content) :
    rb.ringbufferWriteSpace = rb.size - 1 - content.length := by
  have inside := holds.cells ▸ holds.layout.write_lt
  have distance : ((rb.readPtr : ℤ) - rb.writePtr - 1 + rb.size).toNat =
      rb.readPtr + rb.size - rb.writePtr - 1 := by omega
  rw [ringbufferWriteSpace, holds.wraps (by omega), distance, ← holds.cells,
    holds.layout.writeSpace]

theorem Holds.isEmpty (holds : rb.Holds content) :
    rb.ringbufferIsEmpty = decide (content = []) := by
  rw [ringbufferIsEmpty, Bool.decide_congr holds.layout.eq_nil_iff]

theorem Holds.copyIn (holds : rb.Holds content) (bytes : Bytes)
    (free : bytes.length < rb.size - content.length)
    (inside : rb.writePtr + bytes.length ≤ rb.size) :
    (rb.copyIn bytes).Holds (content ++ bytes) := by
  have cells := holds.cells
  have before := cells ▸ holds.layout.write_lt
  refine ⟨holds.power, holds.mask, ?_, ?_⟩
  · simp only [RingBuffer.copyIn, overwrite, List.length_append, List.length_take,
      List.length_drop, cells]
    omega
  · have masked : (rb.copyIn bytes).writePtr = (rb.writePtr + bytes.length) % rb.size :=
      holds.masked _
    rw [masked]
    by_cases within : rb.writePtr + bytes.length < rb.size
    · rw [Nat.mod_eq_of_lt within]
      exact holds.layout.write_inside (by rw [cells]; exact free) (by rw [cells]; exact within)
    · have reaches : rb.writePtr + bytes.length = rb.size := by omega
      rw [reaches, Nat.mod_self]
      exact holds.layout.write_toEnd (by rw [cells]; exact free) (by rw [cells]; exact reaches)

theorem Holds.copyOut (holds : rb.Holds content) {n : ℕ} (filled : n ≤ content.length)
    (inside : rb.readPtr + n ≤ rb.size) :
    (rb.copyOut n).1.Holds (content.drop n) ∧ (rb.copyOut n).2 = content.take n := by
  have cells := holds.cells
  have masked : (rb.copyOut n).1.readPtr = (rb.readPtr + n) % rb.size := holds.masked _
  by_cases within : rb.readPtr + n < rb.size
  · obtain ⟨read, layout⟩ := holds.layout.read_inside filled (by rw [cells]; exact within)
    refine ⟨⟨holds.power, holds.mask, cells, ?_⟩, read⟩
    rw [masked, Nat.mod_eq_of_lt within]
    exact layout
  · have reaches : rb.readPtr + n = rb.size := by omega
    obtain ⟨read, layout⟩ := holds.layout.read_toEnd filled (by rw [cells]; exact reaches)
    refine ⟨⟨holds.power, holds.mask, cells, ?_⟩, read⟩
    rw [masked, reaches, Nat.mod_self]
    exact layout

/-- A put keeps as many of its bytes as there is room for. -/
theorem Holds.put (holds : rb.Holds content) (src : Bytes) :
    (rb.ringbufferPut src).1.Holds (content ++ src.take (rb.size - 1 - content.length)) := by
  have small := holds.length_lt
  have before := holds.cells ▸ holds.layout.write_lt
  unfold ringbufferPut
  simp only [holds.writeSpace]
  by_cases full : rb.size - 1 - content.length = 0
  · rw [if_pos full, full, List.take_zero, List.append_nil]
    exact holds
  rw [if_neg full]
  generalize written : (if src.length > rb.size - 1 - content.length then
    rb.size - 1 - content.length else src.length) = toWrite
  have bounds : toWrite ≤ rb.size - 1 - content.length ∧ toWrite ≤ src.length := by
    split_ifs at written <;> omega
  have kept : src.take (rb.size - 1 - content.length) = src.take toWrite := by
    refine List.take_eq_take_iff.mpr ?_
    split_ifs at written <;> omega
  rw [kept]
  by_cases wraps : rb.writePtr + toWrite > rb.size
  · have behind : rb.writePtr + toWrite &&& rb.sizeMask = rb.writePtr + toWrite - rb.size := by
      rw [holds.masked, Nat.mod_eq_sub_mod (by omega), Nat.mod_eq_of_lt (by omega)]
    have length : (src.take (rb.size - rb.writePtr)).length = rb.size - rb.writePtr := by
      rw [List.length_take]
      omega
    have rest : ((src.drop (rb.size - rb.writePtr)).take
        (rb.writePtr + toWrite - rb.size)).length = rb.writePtr + toWrite - rb.size := by
      rw [List.length_take, List.length_drop]
      omega
    have first := holds.copyIn (src.take (rb.size - rb.writePtr)) (by omega) (by omega)
    have atStart : (rb.copyIn (src.take (rb.size - rb.writePtr))).writePtr = 0 := by
      have last : rb.writePtr + (rb.size - rb.writePtr) = rb.size := by omega
      simp only [RingBuffer.copyIn, length, holds.masked, last, Nat.mod_self]
    have sameSize : (rb.copyIn (src.take (rb.size - rb.writePtr))).size = rb.size := rfl
    have second := first.copyIn
      ((src.drop (rb.size - rb.writePtr)).take (rb.writePtr + toWrite - rb.size))
      (by rw [rest, sameSize, List.length_append, length]; omega)
      (by rw [rest, sameSize, atStart]; omega)
    have whole : rb.size - rb.writePtr + (rb.writePtr + toWrite - rb.size) = toWrite := by omega
    rw [if_pos wraps, if_pos wraps, behind, if_pos (by omega)]
    rwa [List.append_assoc, ← List.take_add, whole] at second
  · rw [if_neg wraps, if_neg wraps, if_neg (not_not.mpr rfl)]
    refine holds.copyIn (src.take toWrite) ?_ ?_
    · rw [List.length_take]
      omega
    · rw [List.length_take]
      omega

/-- A get takes as many bytes from the front as it asks for and there are. -/
theorem Holds.get (holds : rb.Holds content) (cnt : ℕ) :
    (rb.ringbufferGet cnt).2 = content.take cnt ∧
      (rb.ringbufferGet cnt).1.Holds (content.drop cnt) := by
  have small := holds.length_lt
  have before := holds.cells ▸ holds.layout.read_lt
  unfold ringbufferGet
  simp only [holds.readSpace]
  by_cases empty : content.length = 0
  · obtain rfl := List.length_eq_zero_iff.mp empty
    rw [if_pos empty, List.take_nil, List.drop_nil]
    exact ⟨rfl, holds⟩
  rw [if_neg empty]
  generalize asked : (if cnt > content.length then content.length else cnt) = toRead
  have bound : toRead ≤ content.length := by split_ifs at asked <;> omega
  have taken : content.take cnt = content.take toRead := by
    refine List.take_eq_take_iff.mpr ?_
    split_ifs at asked <;> omega
  have left : content.drop cnt = content.drop toRead := by
    split_ifs at asked with more
    · rw [← asked, List.drop_length, List.drop_eq_nil_of_le (by omega)]
    · rw [asked]
  rw [taken, left]
  by_cases wraps : rb.readPtr + toRead > rb.size
  · have behind : rb.readPtr + toRead &&& rb.sizeMask = rb.readPtr + toRead - rb.size := by
      rw [holds.masked, Nat.mod_eq_sub_mod (by omega), Nat.mod_eq_of_lt (by omega)]
    obtain ⟨first, front⟩ := holds.copyOut (n := rb.size - rb.readPtr) (by omega) (by omega)
    have atStart : (rb.copyOut (rb.size - rb.readPtr)).1.readPtr = 0 := by
      have last : rb.readPtr + (rb.size - rb.readPtr) = rb.size := by omega
      simp only [RingBuffer.copyOut, holds.masked, last, Nat.mod_self]
    have sameSize : (rb.copyOut (rb.size - rb.readPtr)).1.size = rb.size := rfl
    obtain ⟨second, rest⟩ := first.copyOut (n := rb.readPtr + toRead - rb.size)
      (by rw [List.length_drop]; omega) (by rw [sameSize, atStart]; omega)
    have whole : rb.size - rb.readPtr + (rb.readPtr + toRead - rb.size) = toRead := by omega
    rw [if_pos wraps, if_pos wraps, behind, if_pos (by omega), rest, front]
    rw [List.drop_drop, whole] at second
    refine ⟨?_, second⟩
    rw [← List.take_add, whole]
  · rw [if_neg wraps, if_neg wraps, if_neg (not_not.mpr rfl)]
    obtain ⟨next, front⟩ := holds.copyOut bound (not_lt.mp wraps)
    exact ⟨front, next⟩

theorem Holds.reset (holds : rb.Holds content) : rb.ringbufferReset.Holds [] := by
  have cells : rb.ringbufferReset.buf.length = rb.size := List.length_replicate
  refine ⟨holds.power, holds.mask, cells, RingLayout.empty _ (List.ne_nil_of_length_pos ?_)⟩
  rw [cells]
  exact Nat.zero_lt_of_lt holds.length_lt

@[simp] theorem ringbufferReset_size (rb : RingBuffer) : rb.ringbufferReset.size = rb.size := rfl

@[simp] theorem copyIn_size (rb : RingBuffer) (bytes : Bytes) : (rb.copyIn bytes).size = rb.size :=
  rfl

@[simp] theorem copyOut_size (rb : RingBuffer) (n : ℕ) : (rb.copyOut n).1.size = rb.size := rfl

@[simp] theorem ringbufferPut_size (rb : RingBuffer) (src : Bytes) :
    (rb.ringbufferPut src).1.size = rb.size := by
  simp only [ringbufferPut, apply_ite Prod.fst, apply_ite RingBuffer.size, copyIn_size, ite_self]

@[simp] theorem ringbufferGet_size (rb : RingBuffer) (cnt : ℕ) :
    (rb.ringbufferGet cnt).1.size = rb.size := by
  simp only [ringbufferGet, apply_ite Prod.fst, apply_ite RingBuffer.size, copyOut_size, ite_self]

end RingBuffer

theorem create_holds {sz k : ℕ} (power : powerOfTwo sz 30 1 = k) (small : k ≤ 64) :
    (ringbufferCreate sz).size = 2 ^ k ∧ (ringbufferCreate sz).Holds [] := by
  have size : (ringbufferCreate sz).size = 2 ^ k := by
    rw [ringbufferCreate, power, Nat.one_shiftLeft]
  have cells : (ringbufferCreate sz).buf.length = (ringbufferCreate sz).size :=
    List.length_replicate
  refine ⟨size, ⟨k, small, size⟩, rfl, cells,
    RingLayout.empty _ (List.ne_nil_of_length_pos ?_)⟩
  rw [cells, size]
  exact Nat.two_pow_pos k

end AirCast.Mirror
