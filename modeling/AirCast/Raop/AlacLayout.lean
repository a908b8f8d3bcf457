import AirCast.Lib.Lockstep
import AirCast.Raop.AlacPredictor

/-! # What a packet says about the places that are written

The sample count, the numbers of coefficients and the zero runs of the entropy code stand in the
packet.  `frameLayout` reads them, without an array; the frames that stay within arrays of a given
length are those whose layout fits in. -/

set_option autoImplicit false

namespace AirCast.Raop

/-- What a compressed channel says; `zeroRuns` has the place behind each run of zeros. -/
structure ChannelLayout where
  predictionType : ℕ
  coefNum : ℕ
  zeroRuns : List ℕ
  deriving DecidableEq

/-- The general prediction writes one place behind its coefficients. -/
def ChannelLayout.FitsIn (frameLength : ℕ) (channel : ChannelLayout) : Prop :=
  (channel.predictionType = 0 →
      channel.coefNum = 0 ∨ channel.coefNum = 0x1f ∨ channel.coefNum < frameLength) ∧
    ∀ behind ∈ channel.zeroRuns, behind ≤ frameLength

instance (frameLength : ℕ) (channel : ChannelLayout) : Decidable (channel.FitsIn frameLength) :=
  inferInstanceAs (Decidable (_ ∧ _))

/-- `writes` tells whether `alac_decode_frame` has a case for the channel tag. -/
structure FrameLayout where
  writes : Bool
  outputsamples : BitVec 32
  channels : List ChannelLayout
  deriving DecidableEq

/-- The bytes of the samples are no more than `size`, also as an `int`. -/
structure FrameLayout.FitsIn (frameLength : ℕ) (size : ℤ) (layout : FrameLayout) : Prop where
  positive : 0 ≤ toInt (layout.outputsamples.toInt * 4)
  reported : toInt (layout.outputsamples.toInt * 4) ≤ size
  written : layout.writes = true → layout.outputsamples.toInt * 4 ≤ size
  channels : ∀ channel ∈ layout.channels, channel.FitsIn frameLength

instance (frameLength : ℕ) (size : ℤ) (layout : FrameLayout) :
    Decidable (layout.FitsIn frameLength size) :=
  decidable_of_iff (0 ≤ toInt (layout.outputsamples.toInt * 4) ∧
      toInt (layout.outputsamples.toInt * 4) ≤ size ∧
        (layout.writes = true → layout.outputsamples.toInt * 4 ≤ size) ∧
          ∀ channel ∈ layout.channels, channel.FitsIn frameLength)
    ⟨fun ⟨a, b, c, d⟩ => ⟨a, b, c, d⟩, fun ⟨a, b, c, d⟩ => ⟨a, b, c, d⟩⟩

section

variable (u : Unspecified) (memory : Memory)

def zeroRuns (settings : RiceSettings) (outputSize : ℕ) :
    ℕ → ℕ → BitVec 32 → BitVec 32 → Reading (List ℕ)
  | 0, _, _, _ => return []
  | rounds + 1, outputCount, history, signModifier =>
      if outputSize ≤ outputCount then return []
      else do
        let k := sampleBits u settings.riceKmodifier history
        let decodedValue ← entropyDecodeValue u memory settings.readSampleSize k 0xffffffff
        let history := updateHistory settings.riceHistorymult history (decodedValue + signModifier)
        if history.toInt < 128 ∧ outputCount + 1 < outputSize then
          let blockSize ← entropyDecodeValue u memory 16 (runBits u history)
            settings.riceKmodifierMask
          let behind := outputCount + blockSize.toInt.toNat + 1
          let rest ← zeroRuns settings outputSize rounds behind 0
            (if 0xffff < blockSize.toInt then 0 else 1)
          return behind :: rest
        else zeroRuns settings outputSize rounds (outputCount + 1) history 0

def channelLayout (file : AlacFile) (readsamplesize : ℤ) (channel : ChannelHeader)
    (outputsamples : ℕ) : Reading ChannelLayout := do
  let settings := riceSettings u file readsamplesize channel
  let runs ← zeroRuns u memory settings outputsamples outputsamples 0 settings.riceInitialhistory 0
  return ⟨channel.predictionType, channel.coefNum, runs⟩

/-- The bytes that are not compressed are passed over. -/
def skipBytes (uncompressedBytes : ℕ) : ℕ → Reading Unit
  | 0 => return ()
  | count + 1 => do
      skipBytes uncompressedBytes count
      let _ ← readbits u memory (uncompressedBytes * 8)
      return ()

def monoLayout (file : AlacFile) : Reading FrameLayout := do
  let header ← readHeader u memory
  let outputsamples := header.outputsamples.getD file.setinfoMaxSamplesPerFrame
  let count := outputsamples.toInt.toNat
  if header.isnotcompressed then return ⟨true, outputsamples, []⟩
  else
    let _ ← readbits u memory 8
    let _ ← readbits u memory 8
    let channel ← readChannel u memory
    let _ ← if header.uncompressedBytes ≠ 0 then
        skipBytes u memory header.uncompressedBytes count
      else pure ()
    let layout ← channelLayout u memory file
      (file.setinfoSampleSize.toNat - header.uncompressedBytes * 8) channel count
    return ⟨true, outputsamples, [layout]⟩

def stereoLayout (file : AlacFile) : Reading FrameLayout := do
  let header ← readHeader u memory
  let outputsamples := header.outputsamples.getD file.setinfoMaxSamplesPerFrame
  let count := outputsamples.toInt.toNat
  if header.isnotcompressed then return ⟨true, outputsamples, []⟩
  else
    let _ ← readbits u memory 8
    let _ ← readbits u memory 8
    let channelA ← readChannel u memory
    let channelB ← readChannel u memory
    let _ ← if header.uncompressedBytes ≠ 0 then
        skipBytes u memory header.uncompressedBytes (2 * count)
      else pure ()
    let readsamplesize : ℤ := file.setinfoSampleSize.toNat - header.uncompressedBytes * 8 + 1
    let a ← channelLayout u memory file readsamplesize channelA count
    let b ← channelLayout u memory file readsamplesize channelB count
    return ⟨true, outputsamples, [a, b]⟩

def frameLayout (file : AlacFile) : FrameLayout :=
  let (channels, reader) := (readbits u memory 3).run ⟨0, 0⟩
  if channels = 0 then ((monoLayout u memory file).run reader).1
  else if channels = 1 then ((stereoLayout u memory file).run reader).1
  else ⟨false, file.setinfoMaxSamplesPerFrame, []⟩

end

section

variable {u : Unspecified} {memory : Memory} {limit : ℕ}

theorem fill_extent_le_iff (buffer : SampleBuffer (BitVec 32)) {start : ℕ} (inside : start ≤ limit)
    (count : ℕ) (a : BitVec 32) : (buffer.fill start count a).extent ≤ limit ↔
      buffer.extent ≤ limit ∧ start + count ≤ limit := by
  rw [SampleBuffer.fill]
  dsimp only
  split_ifs <;> omega

theorem write_extent_le_iff {α : Type} (buffer : SampleBuffer α) (i : ℕ) (a : α) :
    (buffer.write i a).extent ≤ limit ↔ buffer.extent ≤ limit ∧ i < limit := by
  rw [SampleBuffer.write]
  dsimp only
  omega

/-- Every round of the entropy decoder keeps within the array just if its run of zeros does. -/
theorem zeroRuns_lockstep (settings : RiceSettings) (outputSize : ℕ) :
    ∀ (rounds outputCount : ℕ) (history signModifier : BitVec 32)
      (buffer : SampleBuffer (BitVec 32)),
      Lockstep (fun written runs => outputSize ≤ limit → (written.extent ≤ limit ↔
          buffer.extent ≤ limit ∧ ∀ behind ∈ runs, behind ≤ limit))
        (entropyRiceLoop u memory settings outputSize rounds outputCount history signModifier
          buffer)
        (zeroRuns u memory settings outputSize rounds outputCount history signModifier) := by
  intro rounds
  induction rounds with
  | zero => intro outputCount history signModifier buffer; exact .pure fun _ => by simp
  | succ rounds ih =>
      intro outputCount history signModifier buffer
      rw [entropyRiceLoop, zeroRuns]
      by_cases ended : outputSize ≤ outputCount
      · rw [if_pos ended, if_pos ended]
        exact .pure fun _ => by simp
      rw [if_neg ended, if_neg ended]
      refine .after fun decodedValue => ?_
      dsimp only
      split_ifs with quiet
      · refine .after fun blockSize => ?_
        rw [← bind_pure (entropyRiceLoop _ _ _ _ _ _ _ _ _)]
        refine (ih _ _ _ _).bind fun written runs related => .pure fun room => ?_
        rw [related room, fill_extent_le_iff _ (by omega), write_extent_le_iff,
          List.forall_mem_cons, and_iff_left (show outputCount < limit by omega), and_assoc,
          Nat.add_right_comm]
      · refine (ih _ _ _ _).mono fun written runs related room => ?_
        rw [related room, write_extent_le_iff, and_iff_left (show outputCount < limit by omega)]

theorem predictor_extent_le_iff (some_ : 1 ≤ limit) {outputSize num : ℕ}
    (room : outputSize ≤ limit) (errorBuffer : ℕ → BitVec 32) (bufferOut : SampleBuffer (BitVec 32))
    (readsamplesize : ℤ) (table : ℕ → BitVec 16) (quantitization : ℤ) :
    (predictorDecompressFirAdapt u errorBuffer bufferOut outputSize readsamplesize table num
      quantitization).extent ≤ limit ↔
        bufferOut.extent ≤ limit ∧ (num = 0 ∨ num = 0x1f ∨ num < limit) := by
  rw [predictorDecompress_extent]
  split_ifs <;> omega

theorem channelLayout_lockstep (some_ : 1 ≤ limit) (file : AlacFile) (readsamplesize : ℤ)
    (channel : ChannelHeader) (outputsamples : ℕ) (predicterror samples : SampleBuffer (BitVec 32)) :
    Lockstep (fun written layout => outputsamples ≤ limit →
        (written.1.extent ≤ limit ∧ written.2.extent ≤ limit ↔
          (predicterror.extent ≤ limit ∧ samples.extent ≤ limit) ∧ layout.FitsIn limit))
      (decodeChannel u memory file readsamplesize channel outputsamples predicterror samples)
      (channelLayout u memory file readsamplesize channel outputsamples) := by
  rw [decodeChannel, channelLayout, entropyRiceDecode]
  refine (@zeroRuns_lockstep u memory limit _ _ _ _ _ _ _).bind fun errors runs related => ?_
  split_ifs with general
  · refine .pure fun room => ?_
    rw [related room, predictor_extent_le_iff some_ room, ChannelLayout.FitsIn, general]
    tauto
  · refine .pure fun room => ?_
    rw [related room, ChannelLayout.FitsIn]
    tauto

theorem skipBytes_lockstep (uncompressedBytes : ℕ) (count : ℕ)
    (buffer : SampleBuffer (BitVec 32)) :
    Lockstep (fun written _ => written.extent ≤ max buffer.extent count)
      (readBytes u memory uncompressedBytes count buffer)
      (skipBytes u memory uncompressedBytes count) := by
  induction count with
  | zero => exact .pure (le_max_left _ _)
  | succ count ih =>
      rw [readBytes, skipBytes]
      refine ih.bind fun written _ extent => .after fun value => .pure ?_
      rw [SampleBuffer.write]
      dsimp only
      omega

theorem skipBytes_lockstepPairs (uncompressedBytes : ℕ) (count : ℕ)
    (bufferA bufferB : SampleBuffer (BitVec 32)) :
    Lockstep (fun written _ => written.1.extent ≤ max bufferA.extent count ∧
        written.2.extent ≤ max bufferB.extent count)
      (readBytePairs u memory uncompressedBytes count bufferA bufferB)
      (skipBytes u memory uncompressedBytes (2 * count)) := by
  induction count with
  | zero => exact .pure ⟨le_max_left _ _, le_max_left _ _⟩
  | succ count ih =>
      rw [readBytePairs, Nat.mul_succ, skipBytes, skipBytes, bind_assoc]
      refine ih.bind fun written _ extent => ?_
      rw [bind_assoc]
      refine .after fun a => .after fun b => .pure ?_
      simp only [SampleBuffer.write]
      omega

theorem readSamples_extent (sampleSize : ℤ) (count : ℕ) (buffer : SampleBuffer (BitVec 32))
    (s : BitReader) : ((readSamples u memory sampleSize count buffer).run s).1.extent =
      max buffer.extent count := by
  induction count with
  | zero => exact (max_eq_left (Nat.zero_le _)).symm
  | succ count ih =>
      have step : ((readSamples u memory sampleSize (count + 1) buffer).run s).1.extent =
        max ((readSamples u memory sampleSize count buffer).run s).1.extent (count + 1) := rfl
      omega

theorem readSamplePairs_extent (sampleSize : ℤ) (count : ℕ)
    (bufferA bufferB : SampleBuffer (BitVec 32)) (s : BitReader) :
    ((readSamplePairs u memory sampleSize count bufferA bufferB).run s).1.1.extent =
        max bufferA.extent count ∧
      ((readSamplePairs u memory sampleSize count bufferA bufferB).run s).1.2.extent =
        max bufferB.extent count := by
  induction count with
  | zero => exact ⟨(max_eq_left (Nat.zero_le _)).symm, (max_eq_left (Nat.zero_le _)).symm⟩
  | succ count ih =>
      have stepA : ((readSamplePairs u memory sampleSize (count + 1) bufferA bufferB).run s).1.1.extent
        = max ((readSamplePairs u memory sampleSize count bufferA bufferB).run s).1.1.extent
          (count + 1) := rfl
      have stepB : ((readSamplePairs u memory sampleSize (count + 1) bufferA bufferB).run s).1.2.extent
        = max ((readSamplePairs u memory sampleSize count bufferA bufferB).run s).1.2.extent
          (count + 1) := rfl
      omega

/-- The layout tells how many samples a case of `alac_decode_frame` writes, and whether the arrays
hold what it leaves in them. -/
structure Foretells (limit : ℕ) (alac : AlacDecoder) (outputsamples : Option (BitVec 32))
    (buffers : AlacBuffers) (layout : FrameLayout) : Prop where
  writes : layout.writes = true
  outputsamples : outputsamples.getD alac.file.setinfoMaxSamplesPerFrame = layout.outputsamples
  within : layout.outputsamples.toInt.toNat ≤ limit →
    (buffers.Within limit ↔ ∀ channel ∈ layout.channels, channel.FitsIn limit)

variable {alac : AlacDecoder}

theorem monoLayout_agree (some_ : 1 ≤ limit) (allocated : alac.buffers.Within limit) :
    Agree (fun written layout => Foretells limit alac written.2.2 written.1 layout)
      (decodeMono u memory alac) (monoLayout u memory alac.file) := by
  obtain ⟨errorsA, errorsB, samplesA, samplesB, bytesA, bytesB⟩ := allocated
  rw [decodeMono, monoLayout]
  refine .after fun header => ?_
  dsimp only
  by_cases verbatim : header.isnotcompressed = true
  · rw [if_pos verbatim, if_pos verbatim]
    intro s
    refine ⟨rfl, rfl, fun room => iff_of_true ?_ (fun _ => False.elim ∘ List.not_mem_nil)⟩
    have extent := @readSamples_extent u memory alac.file.setinfoSampleSize.toNat
      (header.outputsamples.getD alac.file.setinfoMaxSamplesPerFrame).toInt.toNat
      alac.buffers.outputsamplesA s
    exact ⟨errorsA, errorsB, extent.trans_le (max_le samplesA room), samplesB, bytesA, bytesB⟩
  rw [if_neg verbatim, if_neg verbatim]
  refine .after fun _ => .after fun _ => .after fun channel => ?_
  rw [pure_bind]
  refine (skipBytes_lockstep _ _ _).ite_agree _ () (Nat.le_max_left _ _)
    fun bytes _ skipped => ?_
  refine (channelLayout_lockstep some_ _ _ _ _ _ _).bind_agree fun written layout decoded => ?_
  refine fun s => ⟨rfl, rfl, fun room => ?_⟩
  have bytesIn := skipped.trans (max_le bytesA room)
  obtain ⟨inside, fits⟩ := decoded room
  constructor
  · intro within
    have fits := (inside ⟨within.predicterrorA, within.outputsamplesA⟩).2
    exact List.forall_mem_singleton.mpr fits
  · intro channels
    obtain ⟨errorsIn, samplesIn⟩ := fits ⟨⟨errorsA, samplesA⟩, channels _ (List.mem_singleton_self _)⟩
    exact ⟨errorsIn, errorsB, samplesIn, samplesB, bytesIn, bytesB⟩

theorem stereoLayout_agree (some_ : 1 ≤ limit) (allocated : alac.buffers.Within limit) :
    Agree (fun frame layout => Foretells limit alac frame.outputsamples frame.buffers layout)
      (decodeStereo u memory alac) (stereoLayout u memory alac.file) := by
  obtain ⟨errorsA, errorsB, samplesA, samplesB, bytesA, bytesB⟩ := allocated
  rw [decodeStereo, stereoLayout]
  refine .after fun header => ?_
  dsimp only
  by_cases verbatim : header.isnotcompressed = true
  · rw [if_pos verbatim, if_pos verbatim]
    intro s
    refine ⟨rfl, rfl, fun room => iff_of_true ?_ (fun _ => False.elim ∘ List.not_mem_nil)⟩
    obtain ⟨extentA, extentB⟩ := @readSamplePairs_extent u memory alac.file.setinfoSampleSize.toNat
      (header.outputsamples.getD alac.file.setinfoMaxSamplesPerFrame).toInt.toNat
      alac.buffers.outputsamplesA alac.buffers.outputsamplesB s
    exact ⟨errorsA, errorsB, extentA.trans_le (max_le samplesA room),
      extentB.trans_le (max_le samplesB room), bytesA, bytesB⟩
  rw [if_neg verbatim, if_neg verbatim]
  refine .after fun _ => .after fun _ => .after fun channelA => .after fun channelB => ?_
  rw [pure_bind]
  refine (skipBytes_lockstepPairs _ _ _ _).ite_agree _ ()
    ⟨Nat.le_max_left _ _, Nat.le_max_left _ _⟩ fun bytes _ skipped => ?_
  refine (channelLayout_lockstep some_ _ _ _ _ _ _).bind_agree fun writtenA layoutA decodedA => ?_
  refine (channelLayout_lockstep some_ _ _ _ _ _ _).bind_agree fun writtenB layoutB decodedB => ?_
  refine fun s => ⟨rfl, rfl, fun room => ?_⟩
  have bytesInA := skipped.1.trans (max_le bytesA room)
  have bytesInB := skipped.2.trans (max_le bytesB room)
  obtain ⟨insideA, fitsA⟩ := decodedA room
  obtain ⟨insideB, fitsB⟩ := decodedB room
  constructor
  · intro within
    have first := (insideA ⟨within.predicterrorA, within.outputsamplesA⟩).2
    have second := (insideB ⟨within.predicterrorB, within.outputsamplesB⟩).2
    exact List.forall_mem_cons.mpr ⟨first, List.forall_mem_singleton.mpr second⟩
  · intro channels
    obtain ⟨first, rest⟩ := List.forall_mem_cons.mp channels
    obtain ⟨errorsInA, samplesInA⟩ := fitsA ⟨⟨errorsA, samplesA⟩, first⟩
    obtain ⟨errorsInB, samplesInB⟩ := fitsB ⟨⟨errorsB, samplesB⟩, List.forall_mem_singleton.mp rest⟩
    exact ⟨errorsInA, errorsInB, samplesInA, samplesInB, bytesInA, bytesInB⟩

theorem storeMono16_extent_le_iff {room : ℕ} (buffer : ℕ → BitVec 32) (count : ℕ)
    (outbuffer : OutBuffer) : (storeMono16 buffer 2 count outbuffer).extent ≤ 4 * room ↔
      outbuffer.extent ≤ 4 * room ∧ count ≤ room := by
  induction count with
  | zero => simp [storeMono16]
  | succ count ih =>
      rw [storeMono16, SampleBuffer.store16, write_extent_le_iff, write_extent_le_iff, ih]
      omega

theorem deinterlace16_extent_le_iff {room : ℕ} (bufferA bufferB : ℕ → BitVec 32)
    (interlacingShift interlacingLeftweight : BitVec 32) (count : ℕ) (outbuffer : OutBuffer) :
    (deinterlace16 u bufferA bufferB 2 interlacingShift interlacingLeftweight count
      outbuffer).extent ≤ 4 * room ↔ outbuffer.extent ≤ 4 * room ∧ count ≤ room := by
  induction count with
  | zero => simp [deinterlace16]
  | succ count ih =>
      simp only [deinterlace16, SampleBuffer.store16, write_extent_le_iff, ih]
      omega

theorem Foretells.fitsIn_iff {outputsamples : Option (BitVec 32)} {buffers : AlacBuffers}
    {layout : FrameLayout} (foretells : Foretells limit alac outputsamples buffers layout)
    {room : ℕ} (less : room ≤ limit) {outbuffer : OutBuffer}
    (stored : outbuffer.extent ≤ 4 * room ↔
      (outputsamples.getD alac.file.setinfoMaxSamplesPerFrame).toInt.toNat ≤ room) :
    (outbuffer.extent ≤ 4 * room ∧ buffers.Within limit ∧
        0 ≤ toInt ((outputsamples.getD alac.file.setinfoMaxSamplesPerFrame).toInt * 4) ∧
          toInt ((outputsamples.getD alac.file.setinfoMaxSamplesPerFrame).toInt * 4) ≤ 4 * room) ↔
      layout.FitsIn limit (4 * room) := by
  obtain ⟨writes, outputsamples, within⟩ := foretells
  rw [outputsamples] at stored ⊢
  constructor
  · rintro ⟨inside, held, positive, reported⟩
    have few := stored.mp inside
    exact ⟨positive, reported, fun _ => by omega, (within (few.trans less)).mp held⟩
  · rintro ⟨positive, reported, written, channels⟩
    have few : layout.outputsamples.toInt.toNat ≤ room := by
      have bytes := written writes
      omega
    exact ⟨stored.mpr few, (within (few.trans less)).mpr channels, positive, reported⟩

/-- The frames that are decoded inside their arrays are those whose layout fits in. -/
theorem alacDecodeFrame_within_iff (some_ : 1 ≤ limit) (sampleSize : alac.file.setinfoSampleSize = 16)
    (numchannels : alac.file.numchannels = 2) (bytespersample : alac.file.bytespersample = 4)
    (allocated : alac.buffers.Within limit) {room : ℕ} (less : room ≤ limit)
    {outbuffer : OutBuffer} (inside : outbuffer.extent ≤ 4 * room) :
    let frame := alacDecodeFrame u memory alac outbuffer
    (frame.outbuffer.extent ≤ 4 * room ∧ frame.alac.buffers.Within limit ∧
        0 ≤ frame.outputsize ∧ frame.outputsize ≤ 4 * room) ↔
      (frameLayout u memory alac.file).FitsIn limit (4 * room) := by
  have channelsCount : alac.file.numchannels.toNat = 2 := by rw [numchannels]; rfl
  rw [alacDecodeFrame, frameLayout]
  dsimp only
  generalize (readbits u memory 3).run ⟨0, 0⟩ = tag
  obtain ⟨channels, reader⟩ := tag
  dsimp only
  by_cases mono : channels = 0
  · have foretells := @monoLayout_agree u memory limit alac some_ allocated reader
    rw [if_pos mono, if_pos mono]
    generalize (decodeMono u memory alac).run reader = decoded at foretells ⊢
    obtain ⟨⟨buffers, uncompressedBytes, outputsamples⟩, _⟩ := decoded
    dsimp only at foretells ⊢
    rw [if_pos sampleSize, channelsCount, bytespersample]
    refine foretells.fitsIn_iff less ?_
    rw [storeMono16_extent_le_iff, and_iff_right inside]
  rw [if_neg mono, if_neg mono]
  by_cases stereo : channels = 1
  · have foretells := @stereoLayout_agree u memory limit alac some_ allocated reader
    rw [if_pos stereo, if_pos stereo]
    generalize (decodeStereo u memory alac).run reader = decoded at foretells ⊢
    obtain ⟨frame, _⟩ := decoded
    dsimp only at foretells ⊢
    rw [if_pos sampleSize, channelsCount, bytespersample]
    refine foretells.fitsIn_iff less ?_
    rw [deinterlace16_extent_le_iff, and_iff_right inside]
  rw [if_neg stereo, if_neg stereo, bytespersample]
  refine ⟨fun ⟨_, _, positive, reported⟩ => ⟨positive, reported, fun writes => ?_, ?_⟩, ?_⟩
  · exact absurd writes Bool.false_ne_true
  · exact fun _ => False.elim ∘ List.not_mem_nil
  · rintro ⟨positive, reported, -, -⟩
    exact ⟨inside, allocated, positive, reported⟩

theorem alacDecodeFrame_file (outbuffer : OutBuffer) :
    (alacDecodeFrame u memory alac outbuffer).alac.file = alac.file := by
  rw [alacDecodeFrame]
  generalize (readbits u memory 3).run ⟨0, 0⟩ = tag
  obtain ⟨channels, reader⟩ := tag
  by_cases mono : channels = 0
  · simp only [if_pos mono]
    rfl
  by_cases stereo : channels = 1
  · simp only [if_neg mono, if_pos stereo]
    rfl
  · simp only [if_neg mono, if_neg stereo]

end

end AirCast.Raop
