import AirCast.Raop.AlacEntropy
import AirCast.Raop.AlacPredictor

/-! # The frames of ALAC

A frame has two channels of 16 bits.  `AlacPacket` states the format with every choice a sender
has: the samples as they are, or weighted against each other, predicted and coded.
`alac_decode_frame` writes the sender's samples for each of them. -/

set_option autoImplicit false

namespace AirCast.Raop

abbrev StereoSample := BitVec 16 × BitVec 16

def pcmBytes : List StereoSample → List (BitVec 8)
  | [] => []
  | (left, right) :: rest =>
      left.setWidth 8 :: (left >>> 8).setWidth 8 :: right.setWidth 8 :: (right >>> 8).setWidth 8 ::
        pcmBytes rest

theorem length_pcmBytes (pcm : List StereoSample) : (pcmBytes pcm).length = 4 * pcm.length := by
  induction pcm with
  | nil => rfl
  | cons sample rest ih =>
      rw [pcmBytes, List.length_cons, List.length_cons, List.length_cons, List.length_cons, ih,
        List.length_cons]
      omega

theorem pcmBytes_append (pcm more : List StereoSample) :
    pcmBytes (pcm ++ more) = pcmBytes pcm ++ pcmBytes more := by
  induction pcm with
  | nil => rfl
  | cons sample rest ih => simp only [List.cons_append, pcmBytes, ih]

/-! ## What stands in front of the samples -/

def headerBits (tag unused : ℕ) (isnotcompressed : Bool) (size : Option ℕ) : List Bool :=
  fixedBits 4 tag ++ (fixedBits 12 unused ++ (fixedBits 1 size.isSome.toNat ++ (fixedBits 2 0 ++
    (fixedBits 1 isnotcompressed.toNat ++ size.elim [] (fixedBits 32)))))

variable {u : Unspecified} {memory : Memory}

theorem reads_header {tag unused : ℕ} (tagFits : tag < 2 ^ 4) (unusedFits : unused < 2 ^ 12)
    (isnotcompressed : Bool) {size : Option ℕ} (sizeFits : ∀ n ∈ size, n < 2 ^ 32) :
    Reads (bitStream memory) readerAt (readHeader u memory)
      (headerBits tag unused isnotcompressed size)
      ⟨0, isnotcompressed, size.map (BitVec.ofNat 32)⟩ := by
  have flag : ∀ bit : Bool, bit.toNat < 2 ^ 1 := by decide
  refine (reads_fixed (by omega) tagFits).bind ((reads_fixed (by omega) unusedFits).bind
    ((reads_fixed (by omega) (flag _)).bind ((@reads_fixed u memory 2 0 (by omega) (by omega)).bind
      ((reads_fixed (by omega) (flag _)).bind ?_))))
  have set_ : decide (BitVec.ofNat 32 isnotcompressed.toNat ≠ 0) = isnotcompressed := by
    cases isnotcompressed <;> rfl
  cases size with
  | none =>
      rw [set_]
      exact Reads.pure _
  | some n =>
      rw [set_]
      exact (reads_fixed (by omega) (sizeFits n rfl)).bind_pure
        fun outputsamples => (⟨0, isnotcompressed, some outputsamples⟩ : FrameHeader)

/-- What a sender chooses for a channel. -/
structure ChannelChoice where
  quantitization : ℕ
  ricemodifier : ℕ
  coefs : List (BitVec 16)
  scaled : 0 < quantitization ∧ quantitization < 2 ^ 4
  narrow : ricemodifier < 2 ^ 3
  few : coefs.length < 2 ^ 5

def coefTable (coefs : List (BitVec 16)) (i : ℕ) : BitVec 16 := coefs[i]?.getD 0

def tableBits (coefs : List (BitVec 16)) : List Bool :=
  coefs.flatMap fun coef => fixedBits 16 coef.toNat

def ChannelChoice.bits (choice : ChannelChoice) : List Bool :=
  fixedBits 4 0 ++ (fixedBits 4 choice.quantitization ++ (fixedBits 3 choice.ricemodifier ++
    (fixedBits 5 choice.coefs.length ++ tableBits choice.coefs)))

def ChannelChoice.header (choice : ChannelChoice) : ChannelHeader :=
  ⟨0, choice.quantitization, choice.ricemodifier, choice.coefs.length, coefTable choice.coefs⟩

theorem reads_table (coefs : List (BitVec 16)) :
    Reads (bitStream memory) readerAt (readTable u memory coefs.length) (tableBits coefs)
      (coefTable coefs) := by
  induction coefs using List.reverseRecOn with
  | nil => exact Reads.pure _
  | append_singleton coefs coef ih =>
      have next : Function.update (coefTable coefs) coefs.length
          ((BitVec.ofNat 32 coef.toNat).setWidth 16) = coefTable (coefs ++ [coef]) := by
        funext i
        rw [coefTable, Function.update_apply]
        by_cases last : i = coefs.length
        · rw [if_pos last, last, List.getElem?_append_right le_rfl, Nat.sub_self]
          simp
        · rw [if_neg last, coefTable]
          by_cases inside : i < coefs.length
          · rw [List.getElem?_append_left inside]
          · rw [List.getElem?_eq_none (by omega), List.getElem?_eq_none (by simp; omega)]
      rw [List.length_append, List.length_singleton, readTable, tableBits, List.flatMap_append,
        List.flatMap_singleton, ← next]
      exact ih.bind ((reads_fixed (by omega) coef.isLt).bind_pure fun value =>
        Function.update (coefTable coefs) coefs.length (value.setWidth 16))

theorem reads_channel (choice : ChannelChoice) :
    Reads (bitStream memory) readerAt (readChannel u memory) choice.bits choice.header := by
  have small : ∀ n : ℕ, n < 32 → (BitVec.ofNat 32 n).toNat = n := by
    intro n bound
    rw [BitVec.toNat_ofNat]
    omega
  refine (@reads_fixed u memory 4 0 (by omega) (by omega)).bind
    ((@reads_fixed u memory 4 _ (by omega) choice.scaled.2).bind
      ((@reads_fixed u memory 3 _ (by omega) choice.narrow).bind
        ((@reads_fixed u memory 5 _ (by omega) choice.few).bind ?_)))
  have narrow := choice.narrow
  have scaled := choice.scaled.2
  rw [small _ choice.few, small choice.ricemodifier (by omega),
    small choice.quantitization (by omega)]
  exact (reads_table choice.coefs).bind_pure fun table =>
    (⟨0, choice.quantitization, choice.ricemodifier, choice.coefs.length, table⟩ : ChannelHeader)

/-! ## Samples that are not compressed -/

def pcmBits (pcm : List StereoSample) : List Bool :=
  pcm.flatMap fun sample => fixedBits 16 sample.1.toNat ++ fixedBits 16 sample.2.toNat

theorem reads_sample (sample : BitVec 16) :
    Reads (bitStream memory) readerAt (readSample u memory 16) (fixedBits 16 sample.toNat)
      (sample.signExtend 32) := by
  have low : (BitVec.ofNat 32 sample.toNat).setWidth 16 = sample := by simp
  have value : signExtended32 u (BitVec.ofNat 32 sample.toNat) 16 = sample.signExtend 32 := by
    rw [← low, ← signExtended32_eq (u := u) (by omega) (by omega), low]
    rfl
  rw [← value]
  exact (reads_fixed (by omega) sample.isLt).bind_pure fun audiobits =>
    signExtended32 u audiobits 16

theorem reads_samplePairs (pcm : List StereoSample) (bufferA bufferB : SampleBuffer (BitVec 32)) :
    Reads (bitStream memory) readerAt (readSamplePairs u memory 16 pcm.length bufferA bufferB)
      (pcmBits pcm)
      (bufferA.put 0 (pcm.map fun sample => sample.1.signExtend 32),
        bufferB.put 0 (pcm.map fun sample => sample.2.signExtend 32)) := by
  induction pcm using List.reverseRecOn with
  | nil => exact Reads.pure _
  | append_singleton pcm sample ih =>
      rw [List.length_append, List.length_singleton, readSamplePairs, pcmBits, List.flatMap_append,
        List.flatMap_singleton, List.map_append, List.map_append, SampleBuffer.put_append,
        SampleBuffer.put_append, List.length_map, List.length_map, Nat.zero_add]
      exact ih.bind ((reads_sample sample.1).bind ((reads_sample sample.2).bind_pure _))

/-! ## Samples that are compressed -/

/-- The two words of a sample: the channels, or a middle and a difference. -/
def weighted (interlacingShift interlacingLeftweight : ℕ) (sample : StereoSample) :
    BitVec 32 × BitVec 32 :=
  let left := sample.1.signExtend 32
  let right := sample.2.signExtend 32
  if interlacingLeftweight = 0 then (left, right)
  else
    (signExtended32 default (right +
      ((left - right) * BitVec.ofNat 32 interlacingLeftweight).sshiftRight interlacingShift) 17,
      left - right)

theorem weighted_fits (shift weight : ℕ) (sample : StereoSample) :
    Fits 17 (weighted shift weight sample).1 ∧ Fits 17 (weighted shift weight sample).2 := by
  have wide : ∀ v : BitVec 16, Fits 17 (v.signExtend 32) :=
    fun v => fits_signExtend (by omega) (by omega) v
  rw [weighted]
  split_ifs with plain
  · exact ⟨wide _, wide _⟩
  · have positive : 0 < 17 := by omega
    exact ⟨signExtended32_fits positive (by omega) _,
      fits_sub (by omega) (fits_signExtend le_rfl (by omega) _)
        (fits_signExtend le_rfl (by omega) _)⟩

theorem setWidth_sub {v w : BitVec 32} :
    (v - w).setWidth 16 = v.setWidth 16 - w.setWidth 16 := by
  rw [BitVec.sub_eq_add_neg, BitVec.setWidth_add _ _ (by omega), BitVec.setWidth_neg_of_le (by omega),
    ← BitVec.sub_eq_add_neg]

/-- The words are made into the sample again. -/
theorem unweight_weighted {shift weight : ℕ} (byte : weight < 2 ^ 8)
    (specified : weight = 0 ∨ shift < 32) (sample : StereoSample) :
    ((unweight u (weighted shift weight sample).1 (weighted shift weight sample).2
        (BitVec.ofNat 32 shift) (BitVec.ofNat 32 weight)).1.setWidth 16,
      (unweight u (weighted shift weight sample).1 (weighted shift weight sample).2
        (BitVec.ofNat 32 shift) (BitVec.ofNat 32 weight)).2.setWidth 16) = sample := by
  have low : ∀ v : BitVec 16, (v.signExtend 32).setWidth 16 = v :=
    fun v => setWidth_signExtend (by omega) v
  by_cases plain : weight = 0
  · rw [plain, weighted, if_pos rfl, unweight, if_neg (by decide)]
    exact Prod.ext (low _) (low _)
  · have narrow : shift < 32 := specified.resolve_left plain
    have number : (BitVec.ofNat 32 shift).toNat = shift := by
      rw [BitVec.toNat_ofNat]
      omega
    have other : BitVec.ofNat 32 weight ≠ 0 := by
      intro zero
      have value := congrArg BitVec.toNat zero
      rw [BitVec.toNat_ofNat] at value
      simp at value
      omega
    rw [weighted, if_neg plain, unweight, if_pos other, number, sshiftRight_inside _ narrow]
    dsimp only
    generalize ((sample.1.signExtend 32 - sample.2.signExtend 32) *
      BitVec.ofNat 32 weight).sshiftRight shift = part
    -- what is cut off above bit 16 is not stored
    have cut : (signExtended32 default (sample.2.signExtend 32 + part) 17).setWidth 16 =
        (sample.2.signExtend 32 + part).setWidth 16 := by
      rw [show (17 : ℤ) = (17 : ℕ) from rfl, signExtended32_eq (by omega) (by omega),
        ← BitVec.setWidth_setWidth_of_le _ (show 16 ≤ 17 by omega),
        setWidth_signExtend (show 17 ≤ 32 by omega), BitVec.setWidth_setWidth_of_le _ (by omega)]
    have right : (signExtended32 default (sample.2.signExtend 32 + part) 17 - part).setWidth 16 =
        sample.2 := by
      rw [setWidth_sub, cut, ← setWidth_sub, BitVec.add_sub_cancel, low]
    refine Prod.ext ?_ right
    dsimp only
    rw [BitVec.setWidth_add _ _ (by omega), right, setWidth_sub, low, low, BitVec.add_comm,
      BitVec.sub_add_cancel]

/-- The frames have two channels of 16 bits. -/
structure Stereo16 (file : AlacFile) : Prop where
  sampleSize : file.setinfoSampleSize = 16
  numchannels : file.numchannels = 2
  bytespersample : file.bytespersample = 4
  kmodifier : file.setinfoRiceKmodifier.toNat < 32

def ChannelChoice.errors (choice : ChannelChoice) (samples : List (BitVec 32)) :
    List (BitVec 32) :=
  predictionErrors (fun i => samples[i]?.getD 0) 17 choice.coefs.length choice.quantitization
    (coefTable choice.coefs) samples.length

def ChannelStream (file : AlacFile) (choice : ChannelChoice) (samples : List (BitVec 32)) :
    List Bool → Prop :=
  RiceStream (riceSettings default file 17 choice.header) 17
    (file.setinfoRiceInitialhistory.setWidth 32) 0 ((choice.errors samples).map BitVec.toInt)

/-- The size that stands in a frame is left away if it is that of the format, which is the
greatest. -/
structure FrameSize (file : AlacFile) (pcm : List StereoSample) (size : Option ℕ) : Prop where
  stored : size = some pcm.length ∨
    size = none ∧ file.setinfoMaxSamplesPerFrame = BitVec.ofNat 32 pcm.length
  most : pcm.length ≤ file.setinfoMaxSamplesPerFrame.toNat

def ChannelChoice.StartsWithin (file : AlacFile) (choice : ChannelChoice) : Prop :=
  choice.coefs.length < file.setinfoMaxSamplesPerFrame.toNat

/-- The bits of a frame. -/
inductive AlacPacket (file : AlacFile) (pcm : List StereoSample) : List Bool → Prop
  | verbatim {tag unused : ℕ} {size : Option ℕ} (tagFits : tag < 2 ^ 4)
      (unusedFits : unused < 2 ^ 12) (sized : FrameSize file pcm size) :
      AlacPacket file pcm (fixedBits 3 1 ++ (headerBits tag unused true size ++ pcmBits pcm))
  | compressed {tag unused interlacingShift interlacingLeftweight : ℕ} {size : Option ℕ}
      {a b : ChannelChoice} {streamA streamB : List Bool} (tagFits : tag < 2 ^ 4)
      (unusedFits : unused < 2 ^ 12) (sized : FrameSize file pcm size)
      (startsA : a.StartsWithin file) (startsB : b.StartsWithin file)
      (shiftFits : interlacingShift < 2 ^ 8) (weightFits : interlacingLeftweight < 2 ^ 8)
      (specified : interlacingLeftweight = 0 ∨ interlacingShift < 32)
      (first : ChannelStream file a
        (pcm.map fun sample => (weighted interlacingShift interlacingLeftweight sample).1) streamA)
      (second : ChannelStream file b
        (pcm.map fun sample => (weighted interlacingShift interlacingLeftweight sample).2)
        streamB) :
      AlacPacket file pcm (fixedBits 3 1 ++ (headerBits tag unused false size ++
        (fixedBits 8 interlacingShift ++ (fixedBits 8 interlacingLeftweight ++
          (a.bits ++ (b.bits ++ (streamA ++ streamB)))))))

theorem AlacPacket.most {file : AlacFile} {pcm : List StereoSample} {bits : List Bool}
    (packet : AlacPacket file pcm bits) : pcm.length ≤ file.setinfoMaxSamplesPerFrame.toNat := by
  cases packet with
  | verbatim tagFits unusedFits sized => exact sized.most
  | compressed tagFits unusedFits sized => exact sized.most

theorem riceSettings_specified {file : AlacFile} (small : file.setinfoRiceKmodifier.toNat < 32)
    (readsamplesize : ℤ) (channel : ChannelHeader) :
    riceSettings u file readsamplesize channel =
      riceSettings default file readsamplesize channel := by
  rw [riceSettings, riceSettings, shiftLeft_inside _ small, shiftLeft_inside _ small]

@[simp] theorem ChannelChoice.length_errors (choice : ChannelChoice)
    (samples : List (BitVec 32)) : (choice.errors samples).length = samples.length :=
  length_predictionErrors _ _

/-- A channel's samples come out of the code of their errors. -/
theorem reads_decodeChannel {file : AlacFile} (small : file.setinfoRiceKmodifier.toNat < 32)
    {choice : ChannelChoice} {samples : List (BitVec 32)} {stream : List Bool}
    (fit : ∀ v ∈ samples, Fits 17 v) (code : ChannelStream file choice samples stream)
    (predicterror buffer : SampleBuffer (BitVec 32)) :
    ∃ errors decoded, Reads (bitStream memory) readerAt (decodeChannel u memory file 17
        choice.header samples.length predicterror buffer) stream (errors, decoded) ∧
      (∀ i < samples.length, samples[i]? = some (decoded.value i)) ∧
        errors.extent ≤ max predicterror.extent samples.length ∧
          decoded.extent ≤ max buffer.extent (max samples.length (choice.coefs.length + 1)) := by
  let read := predicterror.put 0 (choice.errors samples)
  have whole : Reads (bitStream memory) readerAt (entropyRiceDecode u memory
      (riceSettings default file 17 choice.header) predicterror samples.length) stream read := by
    have length : ((choice.errors samples).map BitVec.toInt).length = samples.length := by simp
    have back : ((choice.errors samples).map BitVec.toInt).map (BitVec.ofInt 32) =
        choice.errors samples := by
      rw [List.map_map]
      exact List.map_id'' (fun e => BitVec.ofInt_toInt) _
    have whole := @reads_rice u memory _ _ rfl (by omega) (by omega) _ _ code predicterror
    rwa [length, back] at whole
  have sample : ∀ i < samples.length, samples[i]? = some (samples[i]?.getD 0) := by
    intro i inside
    rw [List.getElem?_eq_getElem inside, Option.getD_some]
  have value : ∀ i < samples.length, (predictorDecompressFirAdapt u read.value buffer
      samples.length (17 : ℕ) (coefTable choice.coefs) choice.coefs.length
        choice.quantitization).value i = samples[i]?.getD 0 := by
    refine predictorDecompress_predictionErrors (by omega) (by omega) choice.scaled.1
      (choice.scaled.2.trans (by omega)) _
      (fun i inside => fit _ (List.mem_of_getElem? (sample i inside))) (fun i inside => ?_) buffer
    have there : i < (choice.errors samples).length := by rwa [choice.length_errors]
    have put := SampleBuffer.put_inside predicterror 0 there
    rw [Nat.zero_add] at put
    exact (List.getElem?_eq_getElem there).trans (congrArg some put.symm)
  have written : read.extent ≤ max predicterror.extent samples.length := by
    rw [SampleBuffer.put_extent, choice.length_errors]
    split_ifs <;> omega
  refine ⟨read, _, ?_, fun i inside => (sample i inside).trans (congrArg some (value i inside).symm),
    written, (predictorDecompress_extent _ _ _ _ _).le.trans (by split_ifs <;> omega)⟩
  rw [decodeChannel, riceSettings_specified (u := u) small]
  exact whole.bind_pure fun predicterror => (predicterror, predictorDecompressFirAdapt u
    predicterror.value buffer samples.length 17 (coefTable choice.coefs) choice.coefs.length
      choice.quantitization)

/-! ## What is written -/

theorem store16_eq (outbuffer : OutBuffer) (i : ℕ) (word : BitVec 32) :
    outbuffer.store16 i word = outbuffer.put (2 * i)
      [(word.setWidth 16).setWidth 8, ((word.setWidth 16) >>> 8).setWidth 8] := by
  have low : (word.setWidth 16).setWidth 8 = word.setWidth 8 :=
    BitVec.setWidth_setWidth_of_le _ (by omega)
  have high : ((word.setWidth 16) >>> 8).setWidth 8 = (word >>> 8).setWidth 8 := by
    apply BitVec.eq_of_getLsbD_eq
    intro i inside
    simp [inside, show 8 + i < 16 by omega]
  rw [SampleBuffer.store16, low, high]
  rfl

theorem deinterlace16_eq {bufferA bufferB : ℕ → BitVec 32} {shift weight : BitVec 32}
    (pcm : List StereoSample)
    (words : ∀ i < pcm.length, pcm[i]? =
      some ((unweight u (bufferA i) (bufferB i) shift weight).1.setWidth 16,
        (unweight u (bufferA i) (bufferB i) shift weight).2.setWidth 16)) (outbuffer : OutBuffer) :
    deinterlace16 u bufferA bufferB 2 shift weight pcm.length outbuffer =
      outbuffer.put 0 (pcmBytes pcm) := by
  induction pcm using List.reverseRecOn with
  | nil => rfl
  | append_singleton pcm sample ih =>
      have last := words pcm.length (by simp)
      rw [List.getElem?_append_right le_rfl, Nat.sub_self, List.getElem?_singleton,
        if_pos rfl] at last
      have before := ih fun i inside => by
        rw [← words i (by simp; omega), List.getElem?_append_left inside]
      rw [List.length_append, List.length_singleton, deinterlace16, before, pcmBytes_append,
        SampleBuffer.put_append, length_pcmBytes, Option.some.inj last]
      rw [store16_eq, store16_eq, Nat.zero_add, pcmBytes, pcmBytes]
      simp only [SampleBuffer.put]
      rw [show 2 * (pcm.length * 2) = 4 * pcm.length by omega,
        show 2 * (pcm.length * 2 + 1) = 4 * pcm.length + 1 + 1 by omega]

/-! ## Frames -/

/-- What the decoder makes of a frame of these samples. -/
structure Delivered (u : Unspecified) (file : AlacFile) (pcm : List StereoSample)
    (frame : StereoFrame) : Prop where
  size : frame.outputsamples.getD file.setinfoMaxSamplesPerFrame = BitVec.ofNat 32 pcm.length
  words : ∀ i < pcm.length, pcm[i]? = some
    ((unweight u (frame.buffers.outputsamplesA.value i) (frame.buffers.outputsamplesB.value i)
        frame.interlacingShift frame.interlacingLeftweight).1.setWidth 16,
      (unweight u (frame.buffers.outputsamplesA.value i) (frame.buffers.outputsamplesB.value i)
        frame.interlacingShift frame.interlacingLeftweight).2.setWidth 16)
  inside : frame.buffers.Within file.setinfoMaxSamplesPerFrame.toNat

section

variable {alac : AlacDecoder} {pcm : List StereoSample} {size : Option ℕ}

theorem size_read {file : AlacFile} (sized : FrameSize file pcm size) :
    (size.map (BitVec.ofNat 32)).getD file.setinfoMaxSamplesPerFrame =
      BitVec.ofNat 32 pcm.length := by
  rcases sized.stored with rfl | ⟨rfl, full⟩
  · rfl
  · exact full

theorem size_fits {file : AlacFile} (few : pcm.length < 2 ^ 29)
    (sized : FrameSize file pcm size) : ∀ n ∈ size, n < 2 ^ 32 := by
  rcases sized.stored with rfl | ⟨rfl, _⟩
  · rintro _ ⟨⟩
    omega
  · rintro _ ⟨⟩

theorem reads_verbatim (stereo : Stereo16 alac.file) (few : pcm.length < 2 ^ 29)
    (allocated : alac.buffers.Within alac.file.setinfoMaxSamplesPerFrame.toNat) {tag unused : ℕ}
    (tagFits : tag < 2 ^ 4) (unusedFits : unused < 2 ^ 12)
    (sized : FrameSize alac.file pcm size) :
    ∃ frame, Reads (bitStream memory) readerAt (decodeStereo u memory alac)
      (headerBits tag unused true size ++ pcmBits pcm) frame ∧ Delivered u alac.file pcm frame := by
  let a := alac.buffers.outputsamplesA.put 0 (pcm.map fun sample => sample.1.signExtend 32)
  let b := alac.buffers.outputsamplesB.put 0 (pcm.map fun sample => sample.2.signExtend 32)
  have most := sized.most
  have written : ∀ (f : StereoSample → BitVec 32) (buffer : SampleBuffer (BitVec 32)),
      buffer.extent ≤ alac.file.setinfoMaxSamplesPerFrame.toNat →
        (buffer.put 0 (pcm.map f)).extent ≤ alac.file.setinfoMaxSamplesPerFrame.toNat := by
    intro f buffer inside
    rw [SampleBuffer.put_extent, List.length_map]
    split_ifs <;> omega
  have inside : { alac.buffers with outputsamplesA := a, outputsamplesB := b : AlacBuffers }.Within
      alac.file.setinfoMaxSamplesPerFrame.toNat :=
    { allocated with
      outputsamplesA := written _ _ allocated.outputsamplesA
      outputsamplesB := written _ _ allocated.outputsamplesB }
  refine ⟨⟨{ alac.buffers with outputsamplesA := a, outputsamplesB := b }, 0,
    size.map (BitVec.ofNat 32), 0, 0⟩, ?_, size_read sized, fun i inside => ?_, inside⟩
  · refine (reads_header tagFits unusedFits true (size_fits few sized)).bind ?_
    have width : (alac.file.setinfoSampleSize.toNat : ℤ) = 16 := by rw [stereo.sampleSize]; rfl
    rw [if_pos rfl, size_read sized, toInt_ofNat_small (by omega), Int.toNat_natCast, width]
    exact (reads_samplePairs pcm _ _).bind_pure fun samples => (⟨{ alac.buffers with
      outputsamplesA := samples.1, outputsamplesB := samples.2 }, 0, size.map (BitVec.ofNat 32), 0,
        0⟩ : StereoFrame)
  · have low : ∀ v : BitVec 16, (v.signExtend 32).setWidth 16 = v :=
      fun v => setWidth_signExtend (by omega) v
    have there : ∀ f : StereoSample → BitVec 32, ∀ buffer : SampleBuffer (BitVec 32),
        (buffer.put 0 (pcm.map f)).value i = f pcm[i] := by
      intro f buffer
      have put := buffer.put_inside 0 (show i < (pcm.map f).length by rwa [List.length_map])
      rwa [Nat.zero_add, List.getElem_map] at put
    rw [unweight, if_neg (not_not.mpr rfl), there, there, low, low]
    exact List.getElem?_eq_getElem inside

theorem reads_compressed (stereo : Stereo16 alac.file) (few : pcm.length < 2 ^ 29)
    (allocated : alac.buffers.Within alac.file.setinfoMaxSamplesPerFrame.toNat)
    {tag unused shift weight : ℕ} {a b : ChannelChoice} {streamA streamB : List Bool}
    (tagFits : tag < 2 ^ 4) (unusedFits : unused < 2 ^ 12) (sized : FrameSize alac.file pcm size)
    (startsA : a.StartsWithin alac.file) (startsB : b.StartsWithin alac.file) (shiftFits : shift < 2 ^ 8) (weightFits : weight < 2 ^ 8)
    (specified : weight = 0 ∨ shift < 32)
    (first : ChannelStream alac.file a (pcm.map fun sample => (weighted shift weight sample).1)
      streamA)
    (second : ChannelStream alac.file b (pcm.map fun sample => (weighted shift weight sample).2)
      streamB) :
    ∃ frame, Reads (bitStream memory) readerAt (decodeStereo u memory alac)
      (headerBits tag unused false size ++ (fixedBits 8 shift ++ (fixedBits 8 weight ++
        (a.bits ++ (b.bits ++ (streamA ++ streamB)))))) frame ∧ Delivered u alac.file pcm frame := by
  have fit : ∀ f : StereoSample → BitVec 32, (∀ sample, Fits 17 (f sample)) →
      ∀ v ∈ pcm.map f, Fits 17 v := by
    intro f each v inside
    obtain ⟨sample, _, rfl⟩ := List.mem_map.mp inside
    exact each sample
  obtain ⟨errorsA, decodedA, readsA, samplesA, insideA⟩ := @reads_decodeChannel u memory _
    stereo.kmodifier _ _ _ (fit _ fun sample => (weighted_fits shift weight sample).1) first
    alac.buffers.predicterrorA alac.buffers.outputsamplesA
  obtain ⟨errorsB, decodedB, readsB, samplesB, insideB⟩ := @reads_decodeChannel u memory _
    stereo.kmodifier _ _ _ (fit _ fun sample => (weighted_fits shift weight sample).2) second
    alac.buffers.predicterrorB alac.buffers.outputsamplesB
  rw [List.length_map] at readsA readsB samplesA samplesB insideA insideB
  obtain ⟨errorsInA, errorsInB, samplesInA, samplesInB, bytesInA, bytesInB⟩ := allocated
  have most := sized.most
  rw [ChannelChoice.StartsWithin] at startsA startsB
  have inside : AlacBuffers.Within alac.file.setinfoMaxSamplesPerFrame.toNat
      ⟨errorsA, errorsB, decodedA, decodedB, alac.buffers.uncompressedBytesA,
        alac.buffers.uncompressedBytesB⟩ :=
    ⟨insideA.1.trans (by omega), insideB.1.trans (by omega), insideA.2.trans (by omega),
      insideB.2.trans (by omega), bytesInA, bytesInB⟩
  refine ⟨⟨⟨errorsA, errorsB, decodedA, decodedB, alac.buffers.uncompressedBytesA,
    alac.buffers.uncompressedBytesB⟩, 0, size.map (BitVec.ofNat 32), BitVec.ofNat 32 shift,
      BitVec.ofNat 32 weight⟩, ?_, size_read sized, fun i inside => ?_, inside⟩
  · refine (reads_header tagFits unusedFits false (size_fits few sized)).bind ?_
    have width : (alac.file.setinfoSampleSize.toNat : ℤ) = 16 := by rw [stereo.sampleSize]; rfl
    rw [if_neg (by simp), size_read sized, toInt_ofNat_small (by omega), Int.toNat_natCast, width]
    refine (reads_fixed (by omega) shiftFits).bind ((reads_fixed (by omega) weightFits).bind
      ((reads_channel a).bind ((reads_channel b).bind ?_)))
    exact (Reads.pure _).bind (readsA.bind (readsB.bind_pure _))
  · have there : ∀ {f : StereoSample → BitVec 32} {v : BitVec 32},
        (pcm.map f)[i]? = some v → v = f pcm[i] := by
      intro f v found
      rw [List.getElem?_map, List.getElem?_eq_getElem inside] at found
      exact (Option.some.inj found).symm
    rw [there (samplesA i inside), there (samplesB i inside),
      unweight_weighted weightFits specified]
    exact List.getElem?_eq_getElem inside

/-- `alac_decode_frame` writes the samples of every frame, whatever is in the buffers, whatever
stands behind the frame in memory and whatever C leaves open. -/
theorem alacDecodeFrame_packet (stereo : Stereo16 alac.file) (few : pcm.length < 2 ^ 29)
    (allocated : alac.buffers.Within alac.file.setinfoMaxSamplesPerFrame.toNat)
    {bits : List Bool} (packet : AlacPacket alac.file pcm bits)
    (carried : Carries (bitStream memory) 0 bits) :
    ∃ buffers, buffers.Within alac.file.setinfoMaxSamplesPerFrame.toNat ∧
      ∀ outbuffer, alacDecodeFrame u memory alac outbuffer =
        ⟨⟨alac.file, buffers⟩, outbuffer.put 0 (pcmBytes pcm), 4 * pcm.length⟩ := by
  obtain ⟨rest, rfl, frame, reads, sized, words, inside⟩ : ∃ rest, bits = fixedBits 3 1 ++ rest ∧
      ∃ frame, Reads (bitStream memory) readerAt (decodeStereo u memory alac) rest frame ∧
        Delivered u alac.file pcm frame := by
    cases packet with
    | verbatim tagFits unusedFits sized =>
        exact ⟨_, rfl, reads_verbatim stereo few allocated tagFits unusedFits sized⟩
    | compressed tagFits unusedFits sized startsA startsB shiftFits weightFits specified first
        second =>
        exact ⟨_, rfl, reads_compressed stereo few allocated tagFits unusedFits sized startsA startsB
          shiftFits weightFits specified first second⟩
  obtain ⟨front, behind⟩ := (carries_append _ _ _ _).mp carried
  rw [length_fixedBits] at behind
  have channels : (readbits u memory 3).run ⟨0, 0⟩ = (1, readerAt 3) :=
    @reads_fixed u memory 3 1 (by omega) (by omega) 0 front
  have stereoRead : (decodeStereo u memory alac).run (readerAt 3) =
      (frame, readerAt (3 + rest.length)) := reads 3 behind
  have bytes : toInt ((pcm.length : ℤ) * 4) = 4 * pcm.length := by
    rw [toInt_small (by omega) (by omega)]
    omega
  have channelsCount : alac.file.numchannels.toNat = 2 := by rw [stereo.numchannels]; rfl
  refine ⟨frame.buffers, inside, fun outbuffer => ?_⟩
  rw [alacDecodeFrame, channels]
  dsimp only
  rw [if_neg (by decide), if_pos rfl, stereoRead]
  dsimp only
  rw [if_pos stereo.sampleSize, sized, toInt_ofNat_small (by omega), Int.toNat_natCast,
    stereo.bytespersample, bytes, channelsCount, deinterlace16_eq pcm words]

theorem exists_channelStream {file : AlacFile} {choice : ChannelChoice}
    (tame : Tame (riceSettings default file 17 choice.header)) {samples : List (BitVec 32)}
    (few : samples.length ≤ 65536) (fit : ∀ v ∈ samples, Fits 17 v) :
    ∃ stream, ChannelStream file choice samples stream := by
  obtain ⟨h, history, positive, below⟩ := tame.initial
  have fits : ∀ e ∈ (choice.errors samples).map BitVec.toInt, foldSign e < 2 ^ 17 := by
    intro n inside
    obtain ⟨e, error, rfl⟩ := List.mem_map.mp inside
    have narrow := predictionErrors_fit (by omega) (by omega) _ (fun i there => fit _
      (List.mem_of_getElem? (by rw [List.getElem?_eq_getElem there, Option.getD_some]))) e error
    have bounds := (fits_iff (by omega) e).mp narrow
    rw [foldSign]
    split_ifs <;> omega
  obtain ⟨stream, code⟩ := exists_riceStream tame (by omega) _ h 0 (by simpa using few) fits below
    (.inl ⟨rfl, positive⟩)
  refine ⟨stream, ?_⟩
  rw [← history] at code
  exact code

theorem exists_packet {file : AlacFile} (few : pcm.length ≤ 65536)
    (sized : FrameSize file pcm size) {a b : ChannelChoice} (startsA : a.StartsWithin file)
    (startsB : b.StartsWithin file) (tameA : Tame (riceSettings default file 17 a.header))
    (tameB : Tame (riceSettings default file 17 b.header)) {shift weight : ℕ}
    (shiftFits : shift < 2 ^ 8) (weightFits : weight < 2 ^ 8)
    (specified : weight = 0 ∨ shift < 32) :
    ∃ streamA streamB, AlacPacket file pcm (fixedBits 3 1 ++
      (headerBits 0 0 false size ++ (fixedBits 8 shift ++ (fixedBits 8 weight ++
        (a.bits ++ (b.bits ++ (streamA ++ streamB))))))) := by
  have fit : ∀ f : StereoSample → BitVec 32, (∀ sample, Fits 17 (f sample)) →
      ∀ v ∈ pcm.map f, Fits 17 v := by
    intro f each v inside
    obtain ⟨sample, _, rfl⟩ := List.mem_map.mp inside
    exact each sample
  obtain ⟨streamA, first⟩ := exists_channelStream tameA (by simpa using few)
    (fit _ fun sample => (weighted_fits shift weight sample).1)
  obtain ⟨streamB, second⟩ := exists_channelStream tameB (by simpa using few)
    (fit _ fun sample => (weighted_fits shift weight sample).2)
  exact ⟨streamA, streamB, .compressed (by omega) (by omega) sized startsA startsB shiftFits
    weightFits specified first second⟩

/-- What `alac_decode_frame` makes of every frame of these samples, in whatever state earlier
frames left the decoder: it writes the samples from the front of `outbuffer` on, and nothing behind
its arrays. -/
def PlaysBack (file : AlacFile) (pcm : List StereoSample) (bits : List Bool) : Prop :=
  ∀ (u : Unspecified) (memory : Memory) (buffers : AlacBuffers),
    buffers.Within file.setinfoMaxSamplesPerFrame.toNat → Carries (bitStream memory) 0 bits →
      ∃ buffers', buffers'.Within file.setinfoMaxSamplesPerFrame.toNat ∧
        ∀ outbuffer, alacDecodeFrame u memory ⟨file, buffers⟩ outbuffer =
          ⟨⟨file, buffers'⟩, outbuffer.put 0 (pcmBytes pcm), 4 * pcm.length⟩

/-- Any samples, predicted and coded as a sender likes, have a frame, and come back from
`alac_decode_frame` out of each of their frames. -/
theorem alacDecodeFrame_roundTrip {file : AlacFile} (stereo : Stereo16 file)
    (few : pcm.length ≤ 65536) (sized : FrameSize file pcm size) {a b : ChannelChoice}
    (startsA : a.StartsWithin file) (startsB : b.StartsWithin file)
    (tameA : Tame (riceSettings default file 17 a.header))
    (tameB : Tame (riceSettings default file 17 b.header)) {shift weight : ℕ}
    (shiftFits : shift < 2 ^ 8) (weightFits : weight < 2 ^ 8)
    (specified : weight = 0 ∨ shift < 32) :
    (∃ streamA streamB, AlacPacket file pcm (fixedBits 3 1 ++
      (headerBits 0 0 false size ++ (fixedBits 8 shift ++ (fixedBits 8 weight ++
        (a.bits ++ (b.bits ++ (streamA ++ streamB)))))))) ∧
      ∀ bits, AlacPacket file pcm bits → PlaysBack file pcm bits := by
  refine ⟨exists_packet few sized startsA startsB tameA tameB shiftFits weightFits specified, ?_⟩
  intro bits packet u memory buffers allocated carried
  exact @alacDecodeFrame_packet u memory ⟨file, buffers⟩ pcm stereo (by omega) allocated _ packet
    carried

end

def usualFile : AlacFile :=
  alacOpen ⟨352, 0, 16, 40, 10, 14, 2, 255, 0, 0, 44100⟩

def usualChoice : ChannelChoice where
  quantitization := 9
  ricemodifier := 4
  coefs := [160, -190, 170, -4]
  scaled := by decide
  narrow := by decide
  few := by decide

theorem usualChoice_starts : usualChoice.StartsWithin usualFile := by
  unfold ChannelChoice.StartsWithin
  decide

theorem usualChoice_tame : Tame (riceSettings default usualFile 17 usualChoice.header) where
  modifier := by decide
  mult := ⟨40, rfl, by decide, by decide⟩
  initial := ⟨10, rfl, by decide, by decide⟩

def threeSamples : List StereoSample := [(1, -1), (40, 50), (-7, 0)]

/-- A middle and a difference, both predicted from four samples. -/
theorem alacDecodeFrame_usual :
    (∃ streamA streamB, AlacPacket usualFile threeSamples (fixedBits 3 1 ++
      (headerBits 0 0 false (some 3) ++ (fixedBits 8 2 ++ (fixedBits 8 2 ++
        (usualChoice.bits ++ (usualChoice.bits ++ (streamA ++ streamB)))))))) ∧
      ∀ bits, AlacPacket usualFile threeSamples bits → PlaysBack usualFile threeSamples bits :=
  alacDecodeFrame_roundTrip ⟨rfl, rfl, rfl, by decide⟩ (by decide) ⟨.inl rfl, by decide⟩
    usualChoice_starts usualChoice_starts usualChoice_tame usualChoice_tame (by decide) (by decide)
    (.inr (by decide))

end AirCast.Raop
