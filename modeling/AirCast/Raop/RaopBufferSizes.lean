import AirCast.Raop.RaopBuffer

/-! # The sizes that a format string gives the audio ring and the decoder

`raop_buffer_init` multiplies the frame length of the format in 32 bits.  The ALAC decoder
gets the format through a block of 48 bytes, `decoder_info`. -/

set_option autoImplicit false

namespace AirCast.Raop

/-- `alac_file` as it is before the first packet; `bufferSize` is what `malloc` is asked for
by each of the six sample buffers. -/
structure AlacFile where
  samplesize : ℤ
  numchannels : ℤ
  bytespersample : ℤ
  bufferSize : BitVec 32
  setinfoMaxSamplesPerFrame : BitVec 32
  setinfo7a : BitVec 8
  setinfoSampleSize : BitVec 8
  setinfoRiceHistorymult : BitVec 8
  setinfoRiceInitialhistory : BitVec 8
  setinfoRiceKmodifier : BitVec 8
  setinfo7f : BitVec 8
  setinfo80 : BitVec 16
  setinfo82 : BitVec 32
  setinfo86 : BitVec 32
  setinfo8aRate : BitVec 32
  deriving DecidableEq

def alacCreate (samplesize numchannels : ℤ) : AlacFile :=
  { samplesize := samplesize
    numchannels := numchannels
    bytespersample := samplesize / 8 * numchannels
    bufferSize := 0
    setinfoMaxSamplesPerFrame := 0
    setinfo7a := 0
    setinfoSampleSize := 0
    setinfoRiceHistorymult := 0
    setinfoRiceInitialhistory := 0
    setinfoRiceKmodifier := 0
    setinfo7f := 0
    setinfo80 := 0
    setinfo82 := 0
    setinfo86 := 0
    setinfo8aRate := 0 }

def setUint16 (value : BitVec 16) : List (BitVec 8) :=
  [(value >>> 8).setWidth 8, value.setWidth 8]

def setUint32 (value : BitVec 32) : List (BitVec 8) :=
  [(value >>> 24).setWidth 8, (value >>> 16).setWidth 8, (value >>> 8).setWidth 8,
    value.setWidth 8]

def decoderInfo (config : AlacSpecificConfig) : List (BitVec 8) :=
  List.replicate 24 0 ++ setUint32 config.frameLength ++
    [config.compatibleVersion, config.bitDepth, config.pb, config.mb, config.kb,
      config.numChannels] ++ setUint16 config.maxRun ++ setUint32 config.maxFrameBytes ++
    setUint32 config.avgBitRate ++ setUint32 config.sampleRate

def swap16 (v : BitVec 16) : BitVec 16 := ((v &&& 0x00FF) <<< 0x08) ||| ((v &&& 0xFF00) >>> 0x08)

def swap32 (v : BitVec 32) : BitVec 32 :=
  ((v &&& 0x000000FF) <<< 0x18) ||| ((v &&& 0x0000FF00) <<< 0x08) |||
    ((v &&& 0x00FF0000) >>> 0x08) ||| ((v &&& 0xFF000000) >>> 0x18)

def load8 (buffer : List (BitVec 8)) (ptr : ℕ) : BitVec 8 := buffer.getD ptr 0

/-- `*(uint16_t*)ptr`; the host is not `host_bigendian`. -/
def load16 (buffer : List (BitVec 8)) (ptr : ℕ) : BitVec 16 :=
  (load8 buffer ptr).setWidth 16 ||| (load8 buffer (ptr + 1)).setWidth 16 <<< 8

/-- `*(uint32_t*)ptr`. -/
def load32 (buffer : List (BitVec 8)) (ptr : ℕ) : BitVec 32 :=
  (load8 buffer ptr).setWidth 32 ||| (load8 buffer (ptr + 1)).setWidth 32 <<< 8 |||
    (load8 buffer (ptr + 2)).setWidth 32 <<< 16 ||| (load8 buffer (ptr + 3)).setWidth 32 <<< 24

def alacAllocateBuffers (alac : AlacFile) : AlacFile :=
  { alac with bufferSize := alac.setinfoMaxSamplesPerFrame * 4 }

def alacSetInfo (alac : AlacFile) (inputbuffer : List (BitVec 8)) : AlacFile :=
  alacAllocateBuffers
    { alac with
      setinfoMaxSamplesPerFrame := swap32 (load32 inputbuffer 24)
      setinfo7a := load8 inputbuffer 28
      setinfoSampleSize := load8 inputbuffer 29
      setinfoRiceHistorymult := load8 inputbuffer 30
      setinfoRiceInitialhistory := load8 inputbuffer 31
      setinfoRiceKmodifier := load8 inputbuffer 32
      setinfo7f := load8 inputbuffer 33
      setinfo80 := swap16 (load16 inputbuffer 34)
      setinfo82 := swap32 (load32 inputbuffer 36)
      setinfo86 := swap32 (load32 inputbuffer 40)
      setinfo8aRate := swap32 (load32 inputbuffer 44) }

/-- What `raop_buffer_init` makes of a format for `cn = 1`. -/
def alacOpen (config : AlacSpecificConfig) : AlacFile :=
  alacSetInfo (alacCreate config.bitDepth.toNat config.numChannels.toNat) (decoderInfo config)

def AudioCodec.withAlac (codec : AudioCodec AlacFile) : AudioCodec AlacFile :=
  { codec with alacCreate := fun config => some (alacOpen config) }

def RaopBuffer.audioBufferStart {δ : Type} (buffer : RaopBuffer δ) (i : Fin raopBufferLength) : ℤ :=
  toInt (i * (buffer.entries i).audioBufferSize)

/-- The sizes are those of the format, without wrap-around. -/
structure Sized (buffer : RaopBuffer AlacFile) : Prop where
  slots : ∀ i, (buffer.entries i).audioBufferSize = buffer.alacConfig.frameLength.toNat * 4
  whole : buffer.bufferSize = 32 * buffer.alacConfig.frameLength.toNat * 4
  inside : ∀ i, 0 ≤ buffer.audioBufferStart i ∧
    buffer.audioBufferStart i + (buffer.entries i).audioBufferSize ≤ buffer.bufferSize
  apart : ∀ i j, i < j →
    buffer.audioBufferStart i + (buffer.entries i).audioBufferSize ≤ buffer.audioBufferStart j
  decoder : buffer.decoder.setinfoMaxSamplesPerFrame.toNat = buffer.alacConfig.frameLength.toNat

theorem load8_of_take {buffer : List (BitVec 8)} {ptr count : ℕ} {bytes : List (BitVec 8)}
    (stored : (buffer.drop ptr).take count = bytes) {k : ℕ} (inside : k < count) :
    load8 buffer (ptr + k) = bytes.getD k 0 := by
  rw [← stored, load8, List.getD_eq_getElem?_getD, List.getD_eq_getElem?_getD,
    List.getElem?_take_of_lt inside, List.getElem?_drop]

theorem swap16_load16 {buffer : List (BitVec 8)} {ptr : ℕ} {v : BitVec 16}
    (stored : (buffer.drop ptr).take 2 = setUint16 v) : swap16 (load16 buffer ptr) = v := by
  rw [load16, ← Nat.add_zero ptr, load8_of_take stored (by omega), Nat.add_assoc,
    load8_of_take stored (by omega)]
  refine BitVec.eq_of_getLsbD_eq fun i inside => ?_
  simp only [swap16, setUint16, List.getD_cons_zero, List.getD_cons_succ, BitVec.getLsbD_or,
    BitVec.getLsbD_and, BitVec.getLsbD_shiftLeft, BitVec.getLsbD_ushiftRight,
    BitVec.getLsbD_setWidth]
  interval_cases i <;> simp

theorem swap32_load32 {buffer : List (BitVec 8)} {ptr : ℕ} {v : BitVec 32}
    (stored : (buffer.drop ptr).take 4 = setUint32 v) : swap32 (load32 buffer ptr) = v := by
  have first := load8_of_take stored (show 0 < 4 by omega)
  rw [Nat.add_zero] at first
  rw [load32, first, load8_of_take stored (by omega), load8_of_take stored (by omega),
    load8_of_take stored (by omega)]
  refine BitVec.eq_of_getLsbD_eq fun i inside => ?_
  simp only [swap32, setUint32, List.getD_cons_zero, List.getD_cons_succ, BitVec.getLsbD_or,
    BitVec.getLsbD_and, BitVec.getLsbD_shiftLeft, BitVec.getLsbD_ushiftRight,
    BitVec.getLsbD_setWidth]
  interval_cases i <;> simp

theorem alacSetInfo_decoderInfo (alac : AlacFile) (config : AlacSpecificConfig) :
    alacSetInfo alac (decoderInfo config) =
      { alac with
        bufferSize := config.frameLength * 4
        setinfoMaxSamplesPerFrame := config.frameLength
        setinfo7a := config.compatibleVersion
        setinfoSampleSize := config.bitDepth
        setinfoRiceHistorymult := config.pb
        setinfoRiceInitialhistory := config.mb
        setinfoRiceKmodifier := config.kb
        setinfo7f := config.numChannels
        setinfo80 := config.maxRun
        setinfo82 := config.maxFrameBytes
        setinfo86 := config.avgBitRate
        setinfo8aRate := config.sampleRate } := by
  have frameLength : swap32 (load32 (decoderInfo config) 24) = config.frameLength :=
    swap32_load32 rfl
  have maxRun : swap16 (load16 (decoderInfo config) 34) = config.maxRun := swap16_load16 rfl
  have maxFrameBytes : swap32 (load32 (decoderInfo config) 36) = config.maxFrameBytes :=
    swap32_load32 rfl
  have avgBitRate : swap32 (load32 (decoderInfo config) 40) = config.avgBitRate :=
    swap32_load32 rfl
  have sampleRate : swap32 (load32 (decoderInfo config) 44) = config.sampleRate :=
    swap32_load32 rfl
  rw [alacSetInfo, frameLength, maxRun, maxFrameBytes, avgBitRate, sampleRate]
  rfl

def formatFrameLength (intarr : List ℤ) : ℤ := intarr.getD 1 0

theorem toInt_range (n : ℤ) : -2 ^ 31 ≤ toInt n ∧ toInt n < 2 ^ 31 := by
  unfold toInt
  have low := Int.le_bmod (x := n) (show 0 < 2 ^ 32 by decide)
  have high := Int.bmod_lt (x := n) (show 0 < 2 ^ 32 by decide)
  omega

theorem fmtpInts_range {abi : Abi} : ∀ {count : ℕ} {text : Option Bytes} {intarr : List ℤ},
    fmtpInts abi count text = some intarr → ∀ n ∈ intarr, -2 ^ 31 ≤ n ∧ n < 2 ^ 31 := by
  intro count
  induction count with
  | zero =>
      intro text intarr parsed n member
      obtain rfl : [] = intarr := Option.some.inj parsed
      cases member
  | succ count ih =>
      intro text intarr parsed n member
      cases text with
      | none => cases parsed
      | some text =>
          obtain ⟨rest, tail, rfl⟩ := Option.map_eq_some_iff.mp parsed
          rcases List.mem_cons.mp member with rfl | member
          · exact toInt_range _
          · exact ih tail n member

theorem getFmtpInfo_alac {abi : Abi} {fmtp : CString} {config : AlacSpecificConfig}
    (parsed : getFmtpInfo abi fmtp 1 = some config) :
    ∃ intarr, fmtpInts abi 12 (some fmtp.chars) = some intarr ∧
      config.frameLength = BitVec.ofInt 32 (formatFrameLength intarr) ∧
        config.bitDepth = 16 ∧ config.numChannels = 2 := by
  rw [getFmtpInfo, if_pos rfl] at parsed
  cases ints : fmtpInts abi 12 (some fmtp.chars) with
  | none =>
      rw [ints] at parsed
      cases parsed
  | some intarr =>
      rw [ints] at parsed
      simp only [ne_eq] at parsed
      split_ifs at parsed with depth channels
      obtain rfl := Option.some.inj parsed
      exact ⟨intarr, rfl, rfl, depth, channels⟩

theorem audioBufferSize_eq {config : AlacSpecificConfig} (bitDepth : config.bitDepth = 16)
    (numChannels : config.numChannels = 2) :
    audioBufferSize config = (config.frameLength.toNat % 2 ^ 27 : ℕ) * 4 := by
  rw [audioBufferSize, bitDepth, numChannels]
  have product : (config.frameLength * (2 : BitVec 8).setWidth 32 * (16 : BitVec 8).setWidth 32 /
      8#32).toNat = config.frameLength.toNat % 2 ^ 27 * 4 := by
    simp only [BitVec.toNat_udiv, BitVec.toNat_mul]
    simp
    omega
  rw [BitVec.toInt_eq_toNat_of_lt (by omega), product]
  push_cast
  rfl

theorem raopBufferInit_alac {abi : Abi} {codec : AudioCodec AlacFile} {malloc : Malloc}
    {fmtp : CString} {aeskey aesiv : Bytes} {et : ℤ} {buffer : RaopBuffer AlacFile}
    (accepted : raopBufferInit abi codec.withAlac malloc fmtp aeskey aesiv et 1 = some buffer) :
    getFmtpInfo abi fmtp 1 = some buffer.alacConfig ∧
      buffer.decoder = alacOpen buffer.alacConfig ∧
      buffer.bufferSize = toInt (audioBufferSize buffer.alacConfig * raopBufferLength) ∧
      ∀ i, (buffer.entries i).audioBufferSize = audioBufferSize buffer.alacConfig := by
  unfold raopBufferInit at accepted
  cases parsed : getFmtpInfo abi fmtp 1 with
  | none =>
      rw [parsed] at accepted
      cases accepted
  | some config =>
      rw [parsed] at accepted
      simp only [AudioCodec.withAlac, if_true] at accepted
      split at accepted
      · rename_i memory decoder allocated opened
        split_ifs at accepted with encryption
        obtain rfl := Option.some.inj opened
        obtain rfl := Option.some.inj accepted
        exact ⟨rfl, rfl, rfl, fun _ => rfl⟩
      · cases accepted

/-- The sizes are right below 2²⁴ samples in a frame. -/
theorem sized_of_small {buffer : RaopBuffer AlacFile}
    (slots : ∀ i, (buffer.entries i).audioBufferSize = buffer.alacConfig.frameLength.toNat * 4)
    (whole : buffer.bufferSize = toInt (buffer.alacConfig.frameLength.toNat * 4 * raopBufferLength))
    (decoder : buffer.decoder = alacOpen buffer.alacConfig)
    (small : buffer.alacConfig.frameLength.toNat < 2 ^ 24) : Sized buffer := by
  generalize length : buffer.alacConfig.frameLength.toNat = frameLength at *
  have range : ∀ i : Fin raopBufferLength, 0 ≤ (i : ℤ) * (frameLength * 4) ∧
      (i : ℤ) * (frameLength * 4) ≤ 31 * (frameLength * 4) := by
    intro i
    have last : (i : ℕ) < 32 := i.isLt
    exact ⟨mul_nonneg (by omega) (by omega), mul_le_mul_of_nonneg_right (by omega) (by omega)⟩
  have start : ∀ i : Fin raopBufferLength, buffer.audioBufferStart i = i * (frameLength * 4) := by
    intro i
    rw [RaopBuffer.audioBufferStart, slots]
    have bounds := range i
    exact toInt_small (by omega) (by omega)
  have total : buffer.bufferSize = 32 * frameLength * 4 := by
    rw [whole, toInt_small] <;> simp only [raopBufferLength] <;> push_cast <;> omega
  refine ⟨by rw [length]; exact slots, by rw [length]; exact total, fun i => ?_,
    fun i j before => ?_, ?_⟩
  · have bounds := range i
    rw [start, slots, total]
    omega
  · rw [start, start, slots]
    have next : ((i : ℤ) + 1) * (frameLength * 4) ≤ j * (frameLength * 4) :=
      mul_le_mul_of_nonneg_right (by exact_mod_cast before) (by omega)
    linarith
  · rw [decoder, alacOpen, alacSetInfo_decoderInfo]

/-- Just the frame lengths below 2²⁴ give the sizes of the format. -/
theorem sized_iff {abi : Abi} {codec : AudioCodec AlacFile} {malloc : Malloc}
    {fmtp : CString} {aeskey aesiv : Bytes} {et : ℤ} {buffer : RaopBuffer AlacFile}
    (accepted : raopBufferInit abi codec.withAlac malloc fmtp aeskey aesiv et 1 = some buffer) :
    Sized buffer ↔ ∃ intarr, fmtpInts abi 12 (some fmtp.chars) = some intarr ∧
      0 ≤ formatFrameLength intarr ∧ formatFrameLength intarr < 2 ^ 24 := by
  obtain ⟨parsed, decoder, whole, slots⟩ := raopBufferInit_alac accepted
  obtain ⟨intarr, ints, frameLength, bitDepth, numChannels⟩ := getFmtpInfo_alac parsed
  have size := audioBufferSize_eq bitDepth numChannels
  have range : -2 ^ 31 ≤ formatFrameLength intarr ∧ formatFrameLength intarr < 2 ^ 31 := by
    rw [formatFrameLength, List.getD_eq_getElem?_getD]
    cases found : intarr[1]? with
    | none => exact ⟨by simp, by simp⟩
    | some n => exact fmtpInts_range ints n (List.mem_of_getElem? found)
  have unsigned : buffer.alacConfig.frameLength.toNat < 2 ^ 24 ↔
      0 ≤ formatFrameLength intarr ∧ formatFrameLength intarr < 2 ^ 24 := by
    rw [frameLength, BitVec.toNat_ofInt]
    omega
  simp only [ints, Option.some.injEq, exists_eq_left', ← unsigned]
  constructor
  · intro sized
    have total := sized.whole
    rw [whole] at total
    have bound := (toInt_range (audioBufferSize buffer.alacConfig * raopBufferLength)).2
    omega
  · intro small
    rw [Nat.mod_eq_of_lt (by omega)] at size
    exact sized_of_small (fun i => by rw [slots, size]) (by rw [whole, size]) decoder small

/-- A codec that decodes nothing. -/
def silentCodec : AudioCodec AlacFile where
  aesCbcDecrypt _ _ data := data
  alacCreate _ := none
  alacDecodeFrame alac _ slot _ := (alac, ⟨slot, 0, true⟩)
  createAacEld := alacCreate 16 2
  aacEldDecodeFrame alac _ _ slot _ := (alac, ⟨slot, 0, true⟩)
  alac_slot _ _ _ _ := rfl
  aacEld_slot _ _ _ _ _ := rfl

theorem usualFormat_sized :
    ∃ buffer, raopBufferInit .arm64V8a silentCodec.withAlac (fun _ => some fun _ => 0)
        (.lit "96 352 0 16 40 10 14 2 255 0 0 44100") [] [] 1 1 = some buffer ∧ Sized buffer := by
  obtain ⟨buffer, accepted⟩ := Option.isSome_iff_exists.mp
    (show (raopBufferInit .arm64V8a silentCodec.withAlac (fun _ => some fun _ => 0)
      (.lit "96 352 0 16 40 10 14 2 255 0 0 44100") [] [] 1 1).isSome by decide)
  have ints : fmtpInts .arm64V8a 12 (some (CString.lit "96 352 0 16 40 10 14 2 255 0 0 44100").chars) =
      some [96, 352, 0, 16, 40, 10, 14, 2, 255, 0, 0, 44100] := by
    decide
  exact ⟨buffer, accepted, (sized_iff accepted).mpr ⟨_, ints, by decide, by decide⟩⟩

/-- 2²⁷ samples more: the slots are as small as without them. -/
theorem wrappedFormat_notSized :
    ∃ buffer, raopBufferInit .arm64V8a silentCodec.withAlac (fun _ => some fun _ => 0)
        (.lit "96 134221824 0 16 40 10 14 2 255 0 0 44100") [] [] 1 1 = some buffer ∧
      (buffer.entries (slotOf 0)).audioBufferSize = 16384 ∧ buffer.bufferSize = 524288 ∧
        buffer.decoder.setinfoMaxSamplesPerFrame = 134221824 ∧ ¬ Sized buffer := by
  obtain ⟨buffer, accepted⟩ := Option.isSome_iff_exists.mp
    (show (raopBufferInit .arm64V8a silentCodec.withAlac (fun _ => some fun _ => 0)
      (.lit "96 134221824 0 16 40 10 14 2 255 0 0 44100") [] [] 1 1).isSome by decide)
  have sizes : ((raopBufferInit .arm64V8a silentCodec.withAlac (fun _ => some fun _ => 0)
      (.lit "96 134221824 0 16 40 10 14 2 255 0 0 44100") [] [] 1 1).map fun buffer =>
        ((buffer.entries (slotOf 0)).audioBufferSize, buffer.bufferSize,
          buffer.decoder.setinfoMaxSamplesPerFrame, buffer.alacConfig.frameLength)) =
      some (16384, 524288, 134221824, 134221824) := by
    decide
  rw [accepted] at sizes
  obtain ⟨slot, whole, decoder, frameLength⟩ :
      (buffer.entries (slotOf 0)).audioBufferSize = 16384 ∧ buffer.bufferSize = 524288 ∧
        buffer.decoder.setinfoMaxSamplesPerFrame = 134221824 ∧
          buffer.alacConfig.frameLength = 134221824 := by
    simpa using sizes
  refine ⟨buffer, accepted, slot, whole, decoder, fun sized => ?_⟩
  have right := sized.slots (slotOf 0)
  rw [slot, frameLength] at right
  revert right
  decide

end AirCast.Raop
