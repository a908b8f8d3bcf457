import AirCast.CString
import AirCast.Lib.LoopProgram

/-! # The parser of sequence parameter sets

`parse_sps.c`.  The state of its programs is `sps_parser_offset`; only its value modulo
2048 is used, so it is not reduced.  A read outside the buffer fails. -/

set_option autoImplicit false

namespace AirCast.Mirror

/-- `dtable`. -/
def base64Value (b : UInt8) : ℕ :=
  if 65 ≤ b ∧ b ≤ 90 then b.toNat - 65
  else if 97 ≤ b ∧ b ≤ 122 then b.toNat - 71
  else if 48 ≤ b ∧ b ≤ 57 then b.toNat + 4
  else if b = 43 then 62
  else if b = 47 then 63
  else if b = 61 then 0
  else 0x80

/-- The variables of the second loop; `block` holds the values read so far. -/
structure Base64Pass where
  buffer : Bytes
  pos : ℕ
  block : List ℕ
  pad : ℕ

namespace Base64Pass

def blockBytes (block : List ℕ) : Bytes :=
  let value (index : ℕ) := block.getD index 0
  [UInt8.ofNat (value 0 <<< 2 ||| value 1 >>> 4), UInt8.ofNat (value 1 <<< 4 ||| value 2 >>> 2),
    UInt8.ofNat (value 2 <<< 6 ||| value 3)]

/-- `none` is a write outside the buffer. -/
def write (buffer : Bytes) (pos : ℕ) (bytes : Bytes) : Option Bytes :=
  if pos + bytes.length ≤ buffer.length then
    some (buffer.take pos ++ bytes ++ buffer.drop (pos + bytes.length))
  else none

/-- The rounds from `i`, of which `left` are left.  Padding ends the loop; `none` is an
access outside the buffer. -/
def run (pass : Base64Pass) (i : ℕ) : ℕ → Option Bytes
  | 0 => some pass.buffer
  | left + 1 => do
      let b ← pass.buffer[i]?
      if base64Value b = 0x80 then run pass (i + 1) left
      else
        let pad := if b = 61 then pass.pad + 1 else pass.pad
        let block := pass.block ++ [base64Value b]
        if block.length = 4 then
          let buffer ← write pass.buffer pass.pos (blockBytes block)
          if pad ≠ 0 then some buffer
          else run ⟨buffer, pass.pos + 3, [], pad⟩ (i + 1) left
        else run { pass with block := block, pad := pad } (i + 1) left

/-- At round `i` four bytes are read for three that are written. -/
structure Behind (pass : Base64Pass) (i length : ℕ) : Prop where
  whole : pass.buffer.length = length
  block : pass.block.length < 4
  behind : ∃ blocks, pass.pos = 3 * blocks ∧ 4 * blocks + pass.block.length ≤ i

theorem write_inside (buffer : Bytes) (pos : ℕ) (bytes : Bytes)
    (inside : pos + bytes.length ≤ buffer.length) :
    ∃ after, write buffer pos bytes = some after ∧ after.length = buffer.length := by
  refine ⟨_, if_pos inside, ?_⟩
  simp only [List.length_append, List.length_take, List.length_drop]
  omega

/-- The pass reads and writes inside the buffer. -/
theorem run_inside : ∀ (left : ℕ) (pass : Base64Pass) (i length : ℕ), i + left = length →
    pass.Behind i length → ∃ after, pass.run i left = some after ∧ after.length = length := by
  intro left
  induction left with
  | zero => intro pass i length _ behind; exact ⟨_, rfl, behind.whole⟩
  | succ left ih =>
      rintro pass i length reached ⟨whole, short, blocks, pos, behind⟩
      have inside : i < pass.buffer.length := by omega
      have later : i + 1 + left = length := by omega
      rw [run, List.getElem?_eq_getElem inside, Option.bind_eq_bind, Option.bind_some]
      dsimp only
      generalize (if pass.buffer[i] = 61 then pass.pad + 1 else pass.pad) = pad
      split
      · exact ih pass (i + 1) length later ⟨whole, short, blocks, pos, by omega⟩
      · split
        next full =>
          have full : pass.block.length = 3 := by simpa using full
          obtain ⟨buffer, written, same⟩ := write_inside pass.buffer pass.pos
            (blockBytes (pass.block ++ [base64Value pass.buffer[i]]))
            (by simp only [blockBytes, List.length_cons, List.length_nil]; omega)
          rw [written, Option.bind_eq_bind, Option.bind_some]
          split
          · exact ⟨buffer, rfl, same.trans whole⟩
          · exact ih ⟨buffer, pass.pos + 3, [], pad⟩ (i + 1) length later
              ⟨same.trans whole, by norm_num, blocks + 1, by dsimp only; omega, by simp; omega⟩
        next part =>
          have part : pass.block.length ≠ 3 := by simpa using part
          exact ih ⟨pass.buffer, pass.pos, pass.block ++ [base64Value pass.buffer[i]], pad⟩ (i + 1)
            length later ⟨whole, by simp; omega, blocks, pos, by simp; omega⟩

end Base64Pass

def base64Count (buffer : Bytes) : ℕ := buffer.countP fun b => base64Value b ≠ 0x80

/-- The buffer after `sps_parser_base64_decode`; its result is not used. -/
def base64Decode (buffer : Bytes) : Option Bytes :=
  if base64Count buffer = 0 ∨ base64Count buffer % 4 ≠ 0 then some buffer
  else Base64Pass.run ⟨buffer, 0, [], 0⟩ 0 buffer.length

theorem base64Decode_inside (buffer : Bytes) :
    ∃ after, base64Decode buffer = some after ∧ after.length = buffer.length := by
  rw [base64Decode]
  split
  · exact ⟨buffer, rfl, rfl⟩
  · exact Base64Pass.run_inside buffer.length _ 0 buffer.length (Nat.zero_add _)
      ⟨rfl, by norm_num, 0, rfl, by simp⟩

/-- The variables of the loop of `sps_parser_read_bits`. -/
structure BitCursor where
  c : ℕ
  index : ℕ
  bitNumber : ℕ
  outBitNumber : ℕ
  result : BitVec 32

section reader

variable (wide : ℕ → BitVec 32) (buffer : Bytes)

/-- `1 << n`; from 32 on it is left to the platform. -/
def shiftOne (n : ℕ) : BitVec 32 := if n < 32 then 1#32 <<< n else wide n

/-- `buffer[index]`. -/
def byteAt (index : ℕ) : Program ℕ UInt8 :=
  .action fun offset => buffer[index]?.map fun b => (b, offset)

/-- The body of the loop of `sps_parser_read_bits`, for `b = buffer[index]`. -/
def BitCursor.advance (cursor : BitCursor) (b : UInt8) : BitCursor where
  c := (cursor.c + 1) % 256
  index := if cursor.bitNumber + 1 > 7 then (cursor.index + 1) % 256 else cursor.index
  bitNumber := if cursor.bitNumber + 1 > 7 then 0 else cursor.bitNumber + 1
  outBitNumber := (cursor.outBitNumber + 255) % 256
  result :=
    if b.toNat <<< cursor.bitNumber &&& 0x80 ≠ 0 then
      cursor.result ||| shiftOne wide cursor.outBitNumber
    else cursor.result

def readBitsRound (count : ℕ) (cursor : BitCursor) :
    Program ℕ (BitCursor ⊕ BitVec 32) := do
  if cursor.c < count then
    let b ← byteAt buffer cursor.index
    return .inl (cursor.advance wide b)
  else return .inr cursor.result

def readBits (count : ℕ) : Program ℕ (BitVec 32) := do
  let offset ← .action fun offset => some (offset, offset)
  let index := offset / 8 % 256
  let result ← .loop (readBitsRound wide buffer count) {
    c := 0
    index := index
    bitNumber := (offset - index * 8) % 256
    outBitNumber := (count + 255) % 256
    result := 0 }
  .action fun offset => some ((), offset + count)
  return result

def readUeg : Program ℕ (BitVec 32) := do
  let bitcount ← .loop (fun bitcount => do
    if (← readBits wide buffer 1) = 0 then return .inl (bitcount + 1)
    else return .inr bitcount) 0
  if bitcount ≠ 0 then
    let val ← readBits wide buffer bitcount
    return shiftOne wide bitcount - 1 + val
  else return 0

def signedValue (value : BitVec 32) : BitVec 32 :=
  if value &&& 1 ≠ 0 then (value + 1) / 2 else -(value / 2)

def readEg : Program ℕ (BitVec 32) := do
  return signedValue (← readUeg wide buffer)

/-- `sps_parser_skipScalingList`; the loop runs over `j`, `lastScale` and `nextScale`. -/
def skipScalingList (count : ℕ) : Program ℕ Unit :=
  .loop (fun (scales : ℕ × BitVec 32 × BitVec 32) => do
    let (j, lastScale, nextScale) := scales
    if j < count then
      let nextScale ←
        if nextScale ≠ 0 then do
          let deltaScale ← readEg wide buffer
          pure ((lastScale + deltaScale + 256) % 256)
        else pure nextScale
      return .inl (j + 1, if nextScale = 0 then lastScale else nextScale, nextScale)
    else return .inr ()) (0, 8, 8)

def highProfile (profileIdc : BitVec 32) : Bool :=
  profileIdc ∈ ([100, 110, 122, 244, 44, 83, 86, 118, 128] : List (BitVec 32))

/-- The condition `i < (chromaFormatIdc != 3) ? 8 : 12`: what is compared is `i` with the
truth value. -/
def matrixCondition (chromaFormatIdc : BitVec 32) (i : ℕ) : ℕ :=
  let differs : ℕ := if chromaFormatIdc ≠ 3 then 1 else 0
  if i < differs then 8 else 12

def skipScalingMatrix (chromaFormatIdc : BitVec 32) : Program ℕ Unit :=
  .loop (fun i => do
    if matrixCondition chromaFormatIdc i ≠ 0 then
      let present ← readBits wide buffer 1
      .when (present ≠ 0) (skipScalingList wide buffer (if i < 6 then 16 else 64))
      return .inl ((i + 1) % 256)
    else return .inr ()) 0

/-- The fields of the high profiles. -/
def skipChroma : Program ℕ Unit := do
  let chromaFormatIdc ← readUeg wide buffer
  .when (chromaFormatIdc = 3) (readBits wide buffer 1).skip
  (readUeg wide buffer).skip
  (readUeg wide buffer).skip
  (readBits wide buffer 1).skip
  let scalingMatrix ← readBits wide buffer 1
  .when (scalingMatrix ≠ 0) (skipScalingMatrix wide buffer chromaFormatIdc)

/-- The loop of picture order count type 1; the count is read again in every round. -/
def skipOffsets (i : BitVec 32) : Program ℕ Unit :=
  .loop (fun i => do
    if i < (← readUeg wide buffer) then
      (readEg wide buffer).skip
      return .inl (i + 1)
    else return .inr ()) i

def skipOrderCount (pictOrderCntType : BitVec 32) : Program ℕ Unit :=
  if pictOrderCntType = 0 then (readUeg wide buffer).skip
  else if pictOrderCntType = 1 then do
    (readBits wide buffer 1).skip
    (readEg wide buffer).skip
    (readEg wide buffer).skip
    skipOffsets wide buffer 0
  else pure ()

/-- The offsets `frameCropLeft`, `Right`, `Top` and `Bottom`. -/
structure FrameCrop where
  left : BitVec 32
  right : BitVec 32
  top : BitVec 32
  bottom : BitVec 32

def readFrameCrop : Program ℕ FrameCrop := do
  if (← readBits wide buffer 1) ≠ 0 then
    let left ← readUeg wide buffer
    let right ← readUeg wide buffer
    let top ← readUeg wide buffer
    let bottom ← readUeg wide buffer
    return ⟨left, right, top, bottom⟩
  else return ⟨0, 0, 0, 0⟩

/-- `sps_parser` up to the size of the picture. -/
def skipHeader : Program ℕ Unit := do
  (readBits wide buffer 8).skip
  let profileIdc ← readBits wide buffer 8
  (readBits wide buffer 16).skip
  (readUeg wide buffer).skip
  .when (highProfile profileIdc) (skipChroma wide buffer)
  (readUeg wide buffer).skip
  let pictOrderCntType ← readUeg wide buffer
  skipOrderCount wide buffer pictOrderCntType
  (readUeg wide buffer).skip
  (readBits wide buffer 1).skip

end reader

/-- The result of `sps_parser`. -/
def packedSize (picWidthInMbsMinus1 picHeightInMapUnitsMinus1 frameMbsOnlyFlag : BitVec 32)
    (crop : FrameCrop) : BitVec 32 :=
  ((picWidthInMbsMinus1 + 1) * 16 - crop.left * 2 - crop.right * 2) <<< 16 |||
    ((2 - frameMbsOnlyFlag) * (picHeightInMapUnitsMinus1 + 1) * 16 -
      (if frameMbsOnlyFlag ≠ 0 then 2 else 4) * (crop.top + crop.bottom))

def spsParser (wide : ℕ → BitVec 32) (spsBuf : Bytes) : Program ℕ (BitVec 32) := do
  .action fun _ => some ((), 0)
  let buffer ← .action fun offset => (base64Decode spsBuf).map fun buffer => (buffer, offset)
  skipHeader wide buffer
  let picWidthInMbsMinus1 ← readUeg wide buffer
  let picHeightInMapUnitsMinus1 ← readUeg wide buffer
  let frameMbsOnlyFlag ← readBits wide buffer 1
  .when (frameMbsOnlyFlag = 0) (readBits wide buffer 1).skip
  (readBits wide buffer 1).skip
  let crop ← readFrameCrop wide buffer
  return packedSize picWidthInMbsMinus1 picHeightInMapUnitsMinus1 frameMbsOnlyFlag crop

end AirCast.Mirror
