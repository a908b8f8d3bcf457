import AirCast.Raop.RaopBufferSizes

/-! # The ALAC decoder of alac.c

`alac_decode_frame` and what it calls.  `int` and `uint32_t` values are 32 bits wide and wrap
around.  The packet stands at offset 0 of a memory, since a reader may run past its end or, after
a negative number of bits, in front of it. -/

set_option autoImplicit false

namespace AirCast.Raop

/-! ## Reading bits -/

abbrev Memory := ℤ → BitVec 8

/-- What comes out where C leaves the result open: shifts by less than 0 or more than 31, and
`__builtin_clz(0)`. -/
structure Unspecified where
  shiftLeft : BitVec 32 → ℤ → BitVec 32
  shiftRight : BitVec 32 → ℤ → BitVec 32
  sshiftRight : BitVec 32 → ℤ → BitVec 32
  clz : ℤ
  deriving Inhabited

/-- `input_buffer`, as an offset, and `input_buffer_bitaccumulator`. -/
structure BitReader where
  inputBuffer : ℤ
  bitaccumulator : ℤ
  deriving DecidableEq

abbrev Reading := StateM BitReader

section

variable (u : Unspecified) (memory : Memory)

def shiftLeft (x : BitVec 32) (n : ℤ) : BitVec 32 :=
  if 0 ≤ n ∧ n < 32 then x <<< n.toNat else u.shiftLeft x n

def shiftRight (x : BitVec 32) (n : ℤ) : BitVec 32 :=
  if 0 ≤ n ∧ n < 32 then x >>> n.toNat else u.shiftRight x n

def sshiftRight (x : BitVec 32) (n : ℤ) : BitVec 32 :=
  if 0 ≤ n ∧ n < 32 then x.sshiftRight n.toNat else u.sshiftRight x n

def threeBytes (at' : ℤ) : BitVec 32 :=
  (memory at').setWidth 32 <<< 16 ||| (memory (at' + 1)).setWidth 32 <<< 8 |||
    (memory (at' + 2)).setWidth 32

def readbits16 (bits : ℤ) : Reading (BitVec 32) := fun alac =>
  let result := threeBytes memory alac.inputBuffer
  let result := shiftLeft u result alac.bitaccumulator
  let result := result &&& 0x00ffffff
  let result := shiftRight u result (24 - bits)
  let newAccumulator := alac.bitaccumulator + bits
  (result, ⟨alac.inputBuffer + newAccumulator / 8, newAccumulator % 8⟩)

def readbits (bits : ℤ) : Reading (BitVec 32) :=
  if 16 < bits then do
    let high ← readbits16 u memory 16
    let low ← readbits16 u memory (bits - 16)
    return shiftLeft u high (bits - 16) ||| low
  else readbits16 u memory bits

def readbit : Reading Bool := fun alac =>
  let result := shiftLeft u ((memory alac.inputBuffer).setWidth 32) alac.bitaccumulator
  let newAccumulator := alac.bitaccumulator + 1
  (result.getLsbD 7, ⟨alac.inputBuffer + newAccumulator / 8, newAccumulator % 8⟩)

def unreadbits (bits : ℤ) : Reading Unit := fun alac =>
  let newAccumulator := alac.bitaccumulator - bits
  ((), ⟨alac.inputBuffer + newAccumulator / 8, newAccumulator % 8⟩)

def countLeadingZeros (input : BitVec 32) : ℤ :=
  if input = 0 then u.clz else 31 - input.toNat.log2

/-! ## Entropy coding -/

def riceThreshold : ℕ := 8

/-- The loop that counts ones up to the first zero, at most `limit` of them. -/
def countOnes : ℕ → Reading ℕ
  | 0 => pure 0
  | limit + 1 => do
      if ← readbit u memory then
        let x ← countOnes limit
        return x + 1
      else return 0

def entropyDecodeValue (readSampleSize k : ℤ) (riceKmodifierMask : BitVec 32) :
    Reading (BitVec 32) := do
  let ones ← countOnes u memory (riceThreshold + 1)
  if riceThreshold < ones then
    let value ← readbits u memory readSampleSize
    return value &&& shiftRight u 0xffffffff (32 - readSampleSize)
  else
    let x := BitVec.ofNat 32 ones
    if k ≠ 1 then
      let extraBits ← readbits u memory k
      let x := x * ((shiftLeft u 1 k - 1) &&& riceKmodifierMask)
      if 1 < extraBits.toInt then return x + (extraBits - 1)
      else
        unreadbits 1
        return x
    else return x

/-- An allocated array: what it holds and one more than the last index written. -/
structure SampleBuffer (α : Type) where
  value : ℕ → α
  extent : ℕ

def SampleBuffer.write {α : Type} (buffer : SampleBuffer α) (i : ℕ) (a : α) : SampleBuffer α :=
  ⟨Function.update buffer.value i a, max buffer.extent (i + 1)⟩

/-- `memset` of `count` elements. -/
def SampleBuffer.fill {α : Type} (buffer : SampleBuffer α) (start count : ℕ) (a : α) :
    SampleBuffer α :=
  ⟨fun i => if start ≤ i ∧ i < start + count then a else buffer.value i,
    if count = 0 then buffer.extent else max buffer.extent (start + count)⟩

/-- What `entropy_rice_decode` is called with besides its buffers. -/
structure RiceSettings where
  readSampleSize : ℤ
  riceInitialhistory : BitVec 32
  riceKmodifier : ℤ
  riceHistorymult : BitVec 32
  riceKmodifierMask : BitVec 32

def sampleBits (riceKmodifier : ℤ) (history : BitVec 32) : ℤ :=
  let k := 31 - riceKmodifier - countLeadingZeros u (history.sshiftRight 9 + 3)
  if k < 0 then k + riceKmodifier else riceKmodifier

def runBits (history : BitVec 32) : ℤ :=
  countLeadingZeros u history + (history.toInt + 16).tdiv 64 - 24

def unfoldSign (decodedValue : BitVec 32) : BitVec 32 :=
  let finalValue := (decodedValue + 1).sdiv 2
  if decodedValue.getLsbD 0 then -finalValue else finalValue

def updateHistory (riceHistorymult history decodedValue : BitVec 32) : BitVec 32 :=
  if 0xffff < decodedValue.toInt then 0xffff
  else history + (decodedValue * riceHistorymult - (history * riceHistorymult).sshiftRight 9)

/-- The loop of `entropy_rice_decode`.  Each round moves `outputCount` on, so that `outputSize`
rounds are enough. -/
def entropyRiceLoop (settings : RiceSettings) (outputSize : ℕ) :
    ℕ → ℕ → BitVec 32 → BitVec 32 → SampleBuffer (BitVec 32) → Reading (SampleBuffer (BitVec 32))
  | 0, _, _, _, outputBuffer => pure outputBuffer
  | rounds + 1, outputCount, history, signModifier, outputBuffer =>
      if outputSize ≤ outputCount then pure outputBuffer
      else do
        let k := sampleBits u settings.riceKmodifier history
        let decodedValue ← entropyDecodeValue u memory settings.readSampleSize k 0xffffffff
        let decodedValue := decodedValue + signModifier
        let outputBuffer := outputBuffer.write outputCount (unfoldSign decodedValue)
        let history := updateHistory settings.riceHistorymult history decodedValue
        if history.toInt < 128 ∧ outputCount + 1 < outputSize then
          let blockSize ← entropyDecodeValue u memory 16 (runBits u history)
            settings.riceKmodifierMask
          let zeros := blockSize.toInt.toNat
          let signModifier := if 0xffff < blockSize.toInt then 0 else 1
          entropyRiceLoop settings outputSize rounds (outputCount + zeros + 1) 0 signModifier
            (outputBuffer.fill (outputCount + 1) zeros 0)
        else entropyRiceLoop settings outputSize rounds (outputCount + 1) history 0 outputBuffer

def entropyRiceDecode (settings : RiceSettings) (outputBuffer : SampleBuffer (BitVec 32))
    (outputSize : ℕ) : Reading (SampleBuffer (BitVec 32)) :=
  entropyRiceLoop u memory settings outputSize outputSize 0 settings.riceInitialhistory 0
    outputBuffer

/-! ## Prediction -/

def signExtended32 (val : BitVec 32) (bits : ℤ) : BitVec 32 :=
  sshiftRight u (shiftLeft u val (32 - bits)) (32 - bits)

def signOnly (v : BitVec 32) : BitVec 32 :=
  if v.toInt < 0 then -1 else if 0 < v.toInt then 1 else 0

/-- The sum over the coefficients from the `count`-th one down; `window` is `buffer_out`. -/
def firSum (window : ℕ → BitVec 32) (table : ℕ → BitVec 16) (num : ℕ) : ℕ → BitVec 32
  | 0 => 0
  | count + 1 =>
      firSum window table num count +
        (window (num - count) - window 0) * (table count).signExtend 32

def firPredict (window : ℕ → BitVec 32) (table : ℕ → BitVec 16) (num : ℕ) (quantitization : ℤ) :
    BitVec 32 :=
  sshiftRight u (shiftLeft u 1 (quantitization - 1) + firSum window table num num)
    quantitization + window 0

/-- The loop that adapts the coefficients below `predictorNum` while the error keeps its sign;
`positive` tells which of the two copies of the loop it is. -/
def firAdapt (positive : Bool) (window : ℕ → BitVec 32) (num : ℕ) (quantitization : ℤ) :
    ℕ → BitVec 32 → (ℕ → BitVec 16) → ℕ → BitVec 16
  | 0, _, table => table
  | predictorNum + 1, errorVal, table =>
      if (if positive then 0 < errorVal.toInt else errorVal.toInt < 0) then
        let val := window 0 - window (num - predictorNum)
        let sign := if positive then signOnly val else -signOnly val
        let table := Function.update table predictorNum (table predictorNum - sign.setWidth 16)
        let val := val * sign
        let errorVal := errorVal -
          sshiftRight u val quantitization * BitVec.ofNat 32 (num - predictorNum)
        firAdapt positive window num quantitization predictorNum errorVal table
      else table

def firTable (window : ℕ → BitVec 32) (table : ℕ → BitVec 16) (num : ℕ) (quantitization : ℤ)
    (errorVal : BitVec 32) : ℕ → BitVec 16 :=
  if 0 < errorVal.toInt then firAdapt u true window num quantitization num errorVal table
  else if errorVal.toInt < 0 then firAdapt u false window num quantitization num errorVal table
  else table

def accumulate (errorBuffer : ℕ → BitVec 32) (readsamplesize : ℤ) :
    ℕ → SampleBuffer (BitVec 32) → SampleBuffer (BitVec 32)
  | 0, bufferOut => bufferOut
  | count + 1, bufferOut =>
      let bufferOut := accumulate errorBuffer readsamplesize count bufferOut
      bufferOut.write (count + 1)
        (signExtended32 u (bufferOut.value count + errorBuffer (count + 1)) readsamplesize)

/-- The general loop, from `buffer_out` at `start` on; `i` is `start + num + 1`. -/
def firLoop (errorBuffer : ℕ → BitVec 32) (readsamplesize : ℤ) (num : ℕ) (quantitization : ℤ) :
    ℕ → ℕ → (ℕ → BitVec 16) → SampleBuffer (BitVec 32) → SampleBuffer (BitVec 32)
  | 0, _, _, bufferOut => bufferOut
  | count + 1, start, table, bufferOut =>
      let window j := bufferOut.value (start + j)
      let errorVal := errorBuffer (start + num + 1)
      let outval := signExtended32 u (firPredict u window table num quantitization + errorVal)
        readsamplesize
      firLoop errorBuffer readsamplesize num quantitization count (start + 1)
        (firTable u window table num quantitization errorVal)
        (bufferOut.write (start + num + 1) outval)

/-- The loop of the `memcpy` behind the first sample. -/
def copyErrors (errorBuffer : ℕ → BitVec 32) :
    ℕ → SampleBuffer (BitVec 32) → SampleBuffer (BitVec 32)
  | 0, bufferOut => bufferOut
  | count + 1, bufferOut =>
      (copyErrors errorBuffer count bufferOut).write (count + 1) (errorBuffer (count + 1))

def predictorDecompressFirAdapt (errorBuffer : ℕ → BitVec 32)
    (bufferOut : SampleBuffer (BitVec 32)) (outputSize : ℕ) (readsamplesize : ℤ)
    (table : ℕ → BitVec 16) (num : ℕ) (quantitization : ℤ) : SampleBuffer (BitVec 32) :=
  let bufferOut := bufferOut.write 0 (errorBuffer 0)
  if num = 0 then copyErrors errorBuffer (outputSize - 1) bufferOut
  else if num = 0x1f then accumulate u errorBuffer readsamplesize (outputSize - 1) bufferOut
  else
    firLoop u errorBuffer readsamplesize num quantitization (outputSize - (num + 1)) 0 table
      (accumulate u errorBuffer readsamplesize num bufferOut)

end

/-! ## Interleaving -/

abbrev OutBuffer := SampleBuffer (BitVec 8)

def SampleBuffer.store16 (outbuffer : OutBuffer) (i : ℕ) (sample : BitVec 32) : OutBuffer :=
  (outbuffer.write (2 * i) (sample.setWidth 8)).write (2 * i + 1) ((sample >>> 8).setWidth 8)

def SampleBuffer.store24 (outbuffer : OutBuffer) (i : ℕ) (sample : BitVec 32) : OutBuffer :=
  ((outbuffer.write i (sample.setWidth 8)).write (i + 1) ((sample >>> 8).setWidth 8)).write (i + 2)
    ((sample >>> 16).setWidth 8)

/-- `left` and `right` of both deinterlacing functions. -/
def unweight (u : Unspecified) (a b : BitVec 32) (interlacingShift interlacingLeftweight : BitVec 32) :
    BitVec 32 × BitVec 32 :=
  if interlacingLeftweight ≠ 0 then
    let right := a - sshiftRight u (b * interlacingLeftweight) interlacingShift.toNat
    (right + b, right)
  else (a, b)

/-- `deinterlace_16`.  A sample is cut to 16 bits when it is stored. -/
def deinterlace16 (u : Unspecified) (bufferA bufferB : ℕ → BitVec 32) (numchannels : ℕ)
    (interlacingShift interlacingLeftweight : BitVec 32) : ℕ → OutBuffer → OutBuffer
  | 0, outbuffer => outbuffer
  | i + 1, outbuffer =>
      let outbuffer := deinterlace16 u bufferA bufferB numchannels interlacingShift
        interlacingLeftweight i outbuffer
      let sample := unweight u (bufferA i) (bufferB i) interlacingShift interlacingLeftweight
      (outbuffer.store16 (i * numchannels) sample.1).store16 (i * numchannels + 1) sample.2

def joinBytes (u : Unspecified) (uncompressedBytes : ℤ) (sample low : BitVec 32) : BitVec 32 :=
  if uncompressedBytes ≠ 0 then
    shiftLeft u sample (uncompressedBytes * 8) |||
      (low &&& ~~~shiftLeft u 0xffffffff (uncompressedBytes * 8))
  else sample

def deinterlace24 (u : Unspecified) (bufferA bufferB : ℕ → BitVec 32) (uncompressedBytes : ℤ)
    (bytesA bytesB : ℕ → BitVec 32) (numchannels : ℕ)
    (interlacingShift interlacingLeftweight : BitVec 32) : ℕ → OutBuffer → OutBuffer
  | 0, outbuffer => outbuffer
  | i + 1, outbuffer =>
      let outbuffer := deinterlace24 u bufferA bufferB uncompressedBytes bytesA bytesB numchannels
        interlacingShift interlacingLeftweight i outbuffer
      let sample := unweight u (bufferA i) (bufferB i) interlacingShift interlacingLeftweight
      (outbuffer.store24 (i * numchannels * 3) (joinBytes u uncompressedBytes sample.1 (bytesA i))).store24
        (i * numchannels * 3 + 3) (joinBytes u uncompressedBytes sample.2 (bytesB i))

def storeMono16 (buffer : ℕ → BitVec 32) (numchannels : ℕ) : ℕ → OutBuffer → OutBuffer
  | 0, outbuffer => outbuffer
  | i + 1, outbuffer =>
      (storeMono16 buffer numchannels i outbuffer).store16 (i * numchannels) (buffer i)

def storeMono24 (u : Unspecified) (buffer : ℕ → BitVec 32) (uncompressedBytes : ℤ)
    (bytes : ℕ → BitVec 32) (numchannels : ℕ) : ℕ → OutBuffer → OutBuffer
  | 0, outbuffer => outbuffer
  | i + 1, outbuffer =>
      (storeMono24 u buffer uncompressedBytes bytes numchannels i outbuffer).store24
        (i * numchannels * 3) (joinBytes u uncompressedBytes (buffer i) (bytes i))

/-! ## Frames -/

/-- The six arrays of `alac_allocate_buffers`. -/
structure AlacBuffers where
  predicterrorA : SampleBuffer (BitVec 32)
  predicterrorB : SampleBuffer (BitVec 32)
  outputsamplesA : SampleBuffer (BitVec 32)
  outputsamplesB : SampleBuffer (BitVec 32)
  uncompressedBytesA : SampleBuffer (BitVec 32)
  uncompressedBytesB : SampleBuffer (BitVec 32)

/-- Nothing was written behind the first `n` places of an array. -/
structure AlacBuffers.Within (n : ℕ) (buffers : AlacBuffers) : Prop where
  predicterrorA : buffers.predicterrorA.extent ≤ n
  predicterrorB : buffers.predicterrorB.extent ≤ n
  outputsamplesA : buffers.outputsamplesA.extent ≤ n
  outputsamplesB : buffers.outputsamplesB.extent ≤ n
  uncompressedBytesA : buffers.uncompressedBytesA.extent ≤ n
  uncompressedBytesB : buffers.uncompressedBytesB.extent ≤ n

instance (n : ℕ) (buffers : AlacBuffers) : Decidable (buffers.Within n) :=
  decidable_of_iff
    (buffers.predicterrorA.extent ≤ n ∧ buffers.predicterrorB.extent ≤ n ∧
      buffers.outputsamplesA.extent ≤ n ∧ buffers.outputsamplesB.extent ≤ n ∧
        buffers.uncompressedBytesA.extent ≤ n ∧ buffers.uncompressedBytesB.extent ≤ n)
    ⟨fun ⟨a, b, c, d, e, f⟩ => ⟨a, b, c, d, e, f⟩, fun ⟨a, b, c, d, e, f⟩ => ⟨a, b, c, d, e, f⟩⟩

/-- `alac_file` with what its buffers hold. -/
structure AlacDecoder where
  file : AlacFile
  buffers : AlacBuffers

section

variable (u : Unspecified) (memory : Memory)

/-- What stands in front of the samples, for any number of channels; `outputsamples` is missing
if the frame has the full size. -/
structure FrameHeader where
  uncompressedBytes : ℕ
  isnotcompressed : Bool
  outputsamples : Option (BitVec 32)
  deriving DecidableEq

def readHeader : Reading FrameHeader := do
  let _ ← readbits u memory 4
  let _ ← readbits u memory 12
  let hassize ← readbits u memory 1
  let uncompressedBytes ← readbits u memory 2
  let isnotcompressed ← readbits u memory 1
  if hassize ≠ 0 then
    let outputsamples ← readbits u memory 32
    return ⟨uncompressedBytes.toNat, isnotcompressed ≠ 0, some outputsamples⟩
  else return ⟨uncompressedBytes.toNat, isnotcompressed ≠ 0, none⟩

/-- What a channel says about its prediction and its entropy code. -/
structure ChannelHeader where
  predictionType : ℕ
  quantitization : ℕ
  ricemodifier : ℕ
  coefNum : ℕ
  coefTable : ℕ → BitVec 16

def readTable : ℕ → Reading (ℕ → BitVec 16)
  | 0 => return fun _ => 0
  | i + 1 => do
      let table ← readTable i
      let coef ← readbits u memory 16
      return Function.update table i (coef.setWidth 16)

def readChannel : Reading ChannelHeader := do
  let predictionType ← readbits u memory 4
  let quantitization ← readbits u memory 4
  let ricemodifier ← readbits u memory 3
  let coefNum ← readbits u memory 5
  let coefTable ← readTable u memory coefNum.toNat
  return ⟨predictionType.toNat, quantitization.toNat, ricemodifier.toNat, coefNum.toNat, coefTable⟩

def readBytes (uncompressedBytes : ℕ) :
    ℕ → SampleBuffer (BitVec 32) → Reading (SampleBuffer (BitVec 32))
  | 0, buffer => return buffer
  | i + 1, buffer => do
      let buffer ← readBytes uncompressedBytes i buffer
      let value ← readbits u memory (uncompressedBytes * 8)
      return buffer.write i value

/-- The bytes that are not compressed, of two channels in turn. -/
def readBytePairs (uncompressedBytes : ℕ) : ℕ → SampleBuffer (BitVec 32) →
    SampleBuffer (BitVec 32) → Reading (SampleBuffer (BitVec 32) × SampleBuffer (BitVec 32))
  | 0, bufferA, bufferB => return (bufferA, bufferB)
  | i + 1, bufferA, bufferB => do
      let (bufferA, bufferB) ← readBytePairs uncompressedBytes i bufferA bufferB
      let a ← readbits u memory (uncompressedBytes * 8)
      let b ← readbits u memory (uncompressedBytes * 8)
      return (bufferA.write i a, bufferB.write i b)

/-- One sample that is not compressed. -/
def readSample (sampleSize : ℤ) : Reading (BitVec 32) := do
  if sampleSize ≤ 16 then
    let audiobits ← readbits u memory sampleSize
    return signExtended32 u audiobits sampleSize
  else
    let high ← readbits u memory 16
    let low ← readbits u memory (sampleSize - 16)
    return ((shiftLeft u high (sampleSize - 16) ||| low).setWidth 24).signExtend 32

def readSamples (sampleSize : ℤ) :
    ℕ → SampleBuffer (BitVec 32) → Reading (SampleBuffer (BitVec 32))
  | 0, buffer => return buffer
  | i + 1, buffer => do
      let buffer ← readSamples sampleSize i buffer
      let sample ← readSample u memory sampleSize
      return buffer.write i sample

def readSamplePairs (sampleSize : ℤ) : ℕ → SampleBuffer (BitVec 32) →
    SampleBuffer (BitVec 32) → Reading (SampleBuffer (BitVec 32) × SampleBuffer (BitVec 32))
  | 0, bufferA, bufferB => return (bufferA, bufferB)
  | i + 1, bufferA, bufferB => do
      let (bufferA, bufferB) ← readSamplePairs sampleSize i bufferA bufferB
      let a ← readSample u memory sampleSize
      let b ← readSample u memory sampleSize
      return (bufferA.write i a, bufferB.write i b)

/-- The settings of `entropy_rice_decode` for a channel. -/
def riceSettings (file : AlacFile) (readsamplesize : ℤ) (channel : ChannelHeader) : RiceSettings :=
  { readSampleSize := readsamplesize
    riceInitialhistory := file.setinfoRiceInitialhistory.setWidth 32
    riceKmodifier := file.setinfoRiceKmodifier.toNat
    riceHistorymult :=
      BitVec.ofNat 32 (channel.ricemodifier * file.setinfoRiceHistorymult.toNat / 4)
    riceKmodifierMask := shiftLeft u 1 file.setinfoRiceKmodifier.toNat - 1 }

/-- The errors and the samples of a channel; a prediction type other than 0 leaves the samples
as they were. -/
def decodeChannel (file : AlacFile) (readsamplesize : ℤ) (channel : ChannelHeader)
    (outputsamples : ℕ) (predicterror samples : SampleBuffer (BitVec 32)) :
    Reading (SampleBuffer (BitVec 32) × SampleBuffer (BitVec 32)) := do
  let predicterror ← entropyRiceDecode u memory (riceSettings u file readsamplesize channel)
    predicterror outputsamples
  if channel.predictionType = 0 then
    return (predicterror, predictorDecompressFirAdapt u predicterror.value samples outputsamples
      readsamplesize channel.coefTable channel.coefNum channel.quantitization)
  else return (predicterror, samples)

/-- `case 0`, up to the switch over the sample size: the uncompressed bytes in use and the
number of samples. -/
def decodeMono (alac : AlacDecoder) : Reading (AlacBuffers × ℕ × Option (BitVec 32)) := do
  let header ← readHeader u memory
  let outputsamples :=
    (header.outputsamples.getD alac.file.setinfoMaxSamplesPerFrame).toInt.toNat
  let sampleSize : ℤ := alac.file.setinfoSampleSize.toNat
  let buffers := alac.buffers
  if header.isnotcompressed then
    let samples ← readSamples u memory sampleSize outputsamples buffers.outputsamplesA
    return ({ buffers with outputsamplesA := samples }, 0, header.outputsamples)
  else
    let _ ← readbits u memory 8
    let _ ← readbits u memory 8
    let channel ← readChannel u memory
    let bytes ← if header.uncompressedBytes ≠ 0 then
        readBytes u memory header.uncompressedBytes outputsamples buffers.uncompressedBytesA
      else pure buffers.uncompressedBytesA
    let (errors, samples) ← decodeChannel u memory alac.file
      (sampleSize - header.uncompressedBytes * 8) channel outputsamples buffers.predicterrorA
      buffers.outputsamplesA
    return ({ buffers with
      predicterrorA := errors, outputsamplesA := samples, uncompressedBytesA := bytes },
      header.uncompressedBytes, header.outputsamples)

/-- What `case 1` hands to the switch over the sample size. -/
structure StereoFrame where
  buffers : AlacBuffers
  uncompressedBytes : ℕ
  outputsamples : Option (BitVec 32)
  interlacingShift : BitVec 32
  interlacingLeftweight : BitVec 32

/-- `case 1`, up to the switch over the sample size. -/
def decodeStereo (alac : AlacDecoder) : Reading StereoFrame := do
  let header ← readHeader u memory
  let outputsamples :=
    (header.outputsamples.getD alac.file.setinfoMaxSamplesPerFrame).toInt.toNat
  let sampleSize : ℤ := alac.file.setinfoSampleSize.toNat
  let buffers := alac.buffers
  if header.isnotcompressed then
    let (a, b) ← readSamplePairs u memory sampleSize outputsamples buffers.outputsamplesA
      buffers.outputsamplesB
    return ⟨{ buffers with outputsamplesA := a, outputsamplesB := b }, 0, header.outputsamples,
      0, 0⟩
  else
    let interlacingShift ← readbits u memory 8
    let interlacingLeftweight ← readbits u memory 8
    let channelA ← readChannel u memory
    let channelB ← readChannel u memory
    let (bytesA, bytesB) ← if header.uncompressedBytes ≠ 0 then
        readBytePairs u memory header.uncompressedBytes outputsamples buffers.uncompressedBytesA
          buffers.uncompressedBytesB
      else pure (buffers.uncompressedBytesA, buffers.uncompressedBytesB)
    let readsamplesize := sampleSize - header.uncompressedBytes * 8 + 1
    let (errorsA, a) ← decodeChannel u memory alac.file readsamplesize channelA outputsamples
      buffers.predicterrorA buffers.outputsamplesA
    let (errorsB, b) ← decodeChannel u memory alac.file readsamplesize channelB outputsamples
      buffers.predicterrorB buffers.outputsamplesB
    return ⟨⟨errorsA, errorsB, a, b, bytesA, bytesB⟩, header.uncompressedBytes,
      header.outputsamples, interlacingShift, interlacingLeftweight⟩

/-- What `alac_decode_frame` leaves: the decoder, `outbuffer` and `*outputsize`. -/
structure DecodedFrame where
  alac : AlacDecoder
  outbuffer : OutBuffer
  outputsize : ℤ

def alacDecodeFrame (alac : AlacDecoder) (outbuffer : OutBuffer) : DecodedFrame :=
  let start : BitReader := ⟨0, 0⟩
  let (channels, reader) := (readbits u memory 3).run start
  let size (outputsamples : Option (BitVec 32)) : BitVec 32 :=
    outputsamples.getD alac.file.setinfoMaxSamplesPerFrame
  let outputsize (outputsamples : Option (BitVec 32)) : ℤ :=
    toInt ((size outputsamples).toInt * alac.file.bytespersample)
  let numchannels := alac.file.numchannels.toNat
  if channels = 0 then
    let ((buffers, uncompressedBytes, outputsamples), _) := (decodeMono u memory alac).run reader
    let count := (size outputsamples).toInt.toNat
    let outbuffer :=
      if alac.file.setinfoSampleSize = 16 then
        storeMono16 buffers.outputsamplesA.value numchannels count outbuffer
      else if alac.file.setinfoSampleSize = 24 then
        storeMono24 u buffers.outputsamplesA.value uncompressedBytes
          buffers.uncompressedBytesA.value numchannels count outbuffer
      else outbuffer
    ⟨{ alac with buffers := buffers }, outbuffer, outputsize outputsamples⟩
  else if channels = 1 then
    let (frame, _) := (decodeStereo u memory alac).run reader
    let buffers := frame.buffers
    let count := (size frame.outputsamples).toInt.toNat
    let outbuffer :=
      if alac.file.setinfoSampleSize = 16 then
        deinterlace16 u buffers.outputsamplesA.value buffers.outputsamplesB.value numchannels
          frame.interlacingShift frame.interlacingLeftweight count outbuffer
      else if alac.file.setinfoSampleSize = 24 then
        deinterlace24 u buffers.outputsamplesA.value buffers.outputsamplesB.value
          frame.uncompressedBytes buffers.uncompressedBytesA.value buffers.uncompressedBytesB.value
          numchannels frame.interlacingShift frame.interlacingLeftweight count outbuffer
      else outbuffer
    ⟨{ alac with buffers := buffers }, outbuffer, outputsize frame.outputsamples⟩
  else ⟨alac, outbuffer, outputsize none⟩

end

end AirCast.Raop
