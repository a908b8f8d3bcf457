import AirCast.CString

/-! # The RAOP audio ring of raop_buffer.c

Thirty-two slots indexed by `seqnum % 32`, with 16-bit first and last sequence
numbers.  AES and the two audio decoders are parameters of the model.  A decoder
writes into the slot, which still holds what the packet before left there. -/

set_option autoImplicit false

namespace AirCast.Raop

def raopBufferLength : ℕ := 32
def raopPacketLen : ℕ := 32768

structure AlacSpecificConfig where
  frameLength : BitVec 32
  compatibleVersion : BitVec 8
  bitDepth : BitVec 8
  pb : BitVec 8
  mb : BitVec 8
  kb : BitVec 8
  numChannels : BitVec 8
  maxRun : BitVec 16
  maxFrameBytes : BitVec 32
  avgBitRate : BitVec 32
  sampleRate : BitVec 32
  deriving DecidableEq

/-- `raop_buffer_entry_t`; `audioBuffer` is the slot's part of the common
allocation. -/
structure RaopBufferEntry where
  available : Bool
  resending : Bool
  flags : UInt8
  type : UInt8
  seqnum : BitVec 16
  timestamp : BitVec 32
  ssrc : BitVec 32
  audioBufferSize : ℤ
  audioBufferLen : ℤ
  audioBuffer : Bytes
  deriving DecidableEq

/-- What a decoder leaves: the whole slot, `*outputlen`, and whether it wrote nowhere but in
the slot and its own arrays. -/
structure Frame where
  slot : Bytes
  outputlen : ℤ
  inside : Bool
  deriving DecidableEq

/-- The AES and decoder code behind the ring, over a decoder state `δ`.  The decoders get the
packet, the slot as it is, and `*outputlen`. -/
structure AudioCodec (δ : Type) where
  aesCbcDecrypt : Bytes → Bytes → Bytes → Bytes
  alacCreate : AlacSpecificConfig → Option δ
  alacDecodeFrame : δ → Bytes → Bytes → ℤ → δ × Frame
  createAacEld : δ
  aacEldDecodeFrame : δ → Bytes → ℤ → Bytes → ℤ → δ × Frame
  alac_slot : ∀ decoder packetbuf slot size,
    (alacDecodeFrame decoder packetbuf slot size).2.slot.length = slot.length
  aacEld_slot : ∀ decoder packetbuf inputsize slot size,
    (aacEldDecodeFrame decoder packetbuf inputsize slot size).2.slot.length = slot.length

structure RaopBuffer (δ : Type) where
  aeskey : Bytes
  aesiv : Bytes
  alacConfig : AlacSpecificConfig
  decoder : δ
  et : ℤ
  cn : ℤ
  isEmpty : Bool
  firstSeqnum : BitVec 16
  lastSeqnum : BitVec 16
  entries : Fin raopBufferLength → RaopBufferEntry
  bufferSize : ℤ

variable {δ : Type}

/-! ## Initialisation -/

/-- The loop that cuts `count` integers out of the fmtp string. -/
def fmtpInts (abi : Abi) : ℕ → Option Bytes → Option (List ℤ)
  | 0, _ => some []
  | _ + 1, none => none
  | count + 1, some text =>
      let cut := utilsStrsep [32] (some text)
      (fmtpInts abi count cut.2).map fun rest => atoi abi (cut.1.getD []) :: rest

def getFmtpInfo (abi : Abi) (fmtp : CString) (cn : ℤ) : Option AlacSpecificConfig :=
  if cn = 1 then
    match fmtpInts abi 12 (some fmtp.chars) with
    | none => none
    | some intarr =>
        let at' (i : ℕ) : ℤ := intarr.getD i 0
        let config : AlacSpecificConfig :=
          { frameLength := BitVec.ofInt 32 (at' 1)
            compatibleVersion := BitVec.ofInt 8 (at' 2)
            bitDepth := BitVec.ofInt 8 (at' 3)
            pb := BitVec.ofInt 8 (at' 4)
            mb := BitVec.ofInt 8 (at' 5)
            kb := BitVec.ofInt 8 (at' 6)
            numChannels := BitVec.ofInt 8 (at' 7)
            maxRun := BitVec.ofInt 16 (at' 8)
            maxFrameBytes := BitVec.ofInt 32 (at' 9)
            avgBitRate := BitVec.ofInt 32 (at' 10)
            sampleRate := BitVec.ofInt 32 (at' 11) }
        if config.bitDepth ≠ 16 then none
        else if config.numChannels ≠ 2 then none
        else some config
  else
    some
      { frameLength := 4096
        compatibleVersion := 0
        bitDepth := 16
        pb := 40
        mb := 10
        kb := 14
        numChannels := 2
        maxRun := 255
        maxFrameBytes := 0
        avgBitRate := 0
        sampleRate := 44100 }

/-- `frameLength * numChannels * bitDepth / 8` in unsigned arithmetic, stored in
an `int`. -/
def audioBufferSize (config : AlacSpecificConfig) : ℤ :=
  (config.frameLength * config.numChannels.setWidth 32 * config.bitDepth.setWidth 32 / 8#32).toInt

/-- What `malloc` returns for a number of bytes: memory with what is in it, or NULL. -/
abbrev Malloc := ℤ → Option (ℕ → UInt8)

def slotMemory (memory : ℕ → UInt8) (size : ℤ) (i : Fin raopBufferLength) : Bytes :=
  (List.range size.toNat).map fun j => memory (i * size.toNat + j)

/-- A slot as `calloc` and the initialisation loop leave it. -/
def RaopBufferEntry.initial (size : ℤ) (audioBuffer : Bytes) : RaopBufferEntry :=
  { available := false
    resending := false
    flags := 0
    type := 0
    seqnum := 0
    timestamp := 0
    ssrc := 0
    audioBufferSize := size
    audioBufferLen := 0
    audioBuffer := audioBuffer }

def raopBufferInit (abi : Abi) (codec : AudioCodec δ) (malloc : Malloc) (fmtp : CString)
    (aeskey aesiv : Bytes) (et cn : ℤ) : Option (RaopBuffer δ) :=
  match getFmtpInfo abi fmtp cn with
  | none => none
  | some config =>
      let size := audioBufferSize config
      let bufferSize := toInt (size * raopBufferLength)
      let opened :=
        if cn = 1 then codec.alacCreate config
        else if cn = 3 then some codec.createAacEld
        else none
      match malloc bufferSize, opened with
      | some memory, some decoder =>
          if et ≠ 1 ∧ et ≠ 3 then none
          else
            some
              { aeskey := aeskey
                aesiv := aesiv
                alacConfig := config
                decoder := decoder
                et := et
                cn := cn
                isEmpty := true
                firstSeqnum := 0
                lastSeqnum := 0
                entries := fun i => RaopBufferEntry.initial size (slotMemory memory size i)
                bufferSize := bufferSize }
      | _, _ => none

/-! ## Sequence numbers and slots -/

/-- `seqnum_cmp`: the `int` difference returned as a `short`. -/
def seqnumCmp (s1 s2 : BitVec 16) : ℤ := ((s1.toNat : ℤ) - s2.toNat).bmod (2 ^ 16)

/-- `seqnum % RAOP_BUFFER_LENGTH`. -/
def slotOf (seqnum : BitVec 16) : Fin raopBufferLength :=
  ⟨seqnum.toNat % raopBufferLength, Nat.mod_lt _ (by decide)⟩

def raopBufferFlush (b : RaopBuffer δ) (nextSeq : ℤ) : RaopBuffer δ :=
  let cleared : RaopBuffer δ :=
    { b with
      entries := fun i =>
        { b.entries i with available := false, resending := false, audioBufferLen := 0 } }
  if nextSeq < 0 ∨ 0xffff < nextSeq then { cleared with isEmpty := true }
  else
    { cleared with
      firstSeqnum := BitVec.ofInt 16 nextSeq
      lastSeqnum := BitVec.ofInt 16 (nextSeq - 1) }

/-! ## Queueing a packet -/

def byteAt (data : Bytes) (i : ℕ) : BitVec 8 := (data.getD i 0).toBitVec

def be16 (data : Bytes) (i : ℕ) : BitVec 16 := byteAt data i ++ byteAt data (i + 1)

def be32 (data : Bytes) (i : ℕ) : BitVec 32 := be16 data i ++ be16 data (i + 2)

/-- `packetbuf`: whole AES blocks decrypted, the rest copied. -/
def packetBuf (codec : AudioCodec δ) (b : RaopBuffer δ) (data : Bytes) (datalen : ℕ) : Bytes :=
  let encryptedlen := (datalen - 12) / 16 * 16
  let encrypted := (data.drop 12).take encryptedlen
  let plain := if b.et ≠ 0 then codec.aesCbcDecrypt b.aeskey b.aesiv encrypted else encrypted
  (if 0 < encryptedlen then plain else []) ++
    (data.drop (12 + encryptedlen)).take (datalen - 12 - encryptedlen)

def headerEntry (entry : RaopBufferEntry) (data : Bytes) (seqnum : BitVec 16) :
    RaopBufferEntry :=
  { entry with
    flags := data.getD 0 0
    type := data.getD 1 0
    seqnum := seqnum
    timestamp := be32 data 4
    ssrc := be32 data 8
    available := true
    resending := false }

/-- The decoder call of the ring, `none` where `cn` names no decoder. -/
def decodeFrame (codec : AudioCodec δ) (cn : ℤ) (decoder : δ) (packetbuf : Bytes) (datalen : ℕ)
    (slot : Bytes) (size : ℤ) : Option (δ × Frame) :=
  if cn = 1 then some (codec.alacDecodeFrame decoder packetbuf slot size)
  else if cn = 3 then
    some (codec.aacEldDecodeFrame decoder packetbuf ((datalen : ℤ) - 12) slot size)
  else none

/-- The tail of `raop_buffer_queue`, after the slot was found free. -/
def storePacket (codec : AudioCodec δ) (b : RaopBuffer δ) (data : Bytes) (datalen : ℕ)
    (seqnum : BitVec 16) : RaopBuffer δ × ℤ :=
  let slot := slotOf seqnum
  let entry := headerEntry (b.entries slot) data seqnum
  match decodeFrame codec b.cn b.decoder (packetBuf codec b data datalen) datalen
      entry.audioBuffer entry.audioBufferSize with
  | none => ({ b with entries := Function.update b.entries slot entry }, -3)
  | some (decoder, frame) =>
      let stored : RaopBuffer δ :=
        { b with
          decoder := decoder
          entries := Function.update b.entries slot
            { entry with audioBuffer := frame.slot, audioBufferLen := frame.outputlen } }
      let synced : RaopBuffer δ :=
        if stored.isEmpty then
          { stored with firstSeqnum := seqnum, lastSeqnum := seqnum, isEmpty := false }
        else stored
      if 0 < seqnumCmp seqnum synced.lastSeqnum then ({ synced with lastSeqnum := seqnum }, 1)
      else (synced, 1)

/-- `raop_buffer_queue` and its return value. -/
def raopBufferQueue (codec : AudioCodec δ) (b : RaopBuffer δ) (data : Bytes)
    (datalen : BitVec 16) (useSeqnum : Bool) : RaopBuffer δ × ℤ :=
  if datalen.toNat < 12 ∨ raopPacketLen < datalen.toNat then (b, -1)
  else
    let seqnum := if useSeqnum then be16 data 2 else b.firstSeqnum
    if b.isEmpty = false ∧ seqnumCmp seqnum b.firstSeqnum < 0 then (b, 0)
    else
      let b := if 0 ≤ seqnumCmp seqnum (b.firstSeqnum + BitVec.ofNat 16 raopBufferLength)
        then raopBufferFlush b seqnum.toNat else b
      let entry := b.entries (slotOf seqnum)
      if entry.available = true ∧ seqnumCmp entry.seqnum seqnum = 0 then (b, 0)
      else storePacket codec b data datalen.toNat seqnum

/-! ## Dequeueing -/

/-- What `raop_buffer_dequeue` returns, as far as `*length` goes, and stores through its
pointers; `*timestamp` stays as it was when silence is returned. -/
structure Dequeued where
  audio : Bytes
  length : ℤ
  timestamp : Option (BitVec 32)
  deriving DecidableEq

def raopBufferDequeue (b : RaopBuffer δ) (noResend : Bool) : RaopBuffer δ × Option Dequeued :=
  let buflen : ℤ := (seqnumCmp b.lastSeqnum b.firstSeqnum + 1).bmod (2 ^ 16)
  if b.isEmpty = true ∨ buflen ≤ 0 then (b, none)
  else
    let slot := slotOf b.firstSeqnum
    let entry := b.entries slot
    if noResend = false ∧ entry.available = false ∧ buflen < raopBufferLength then (b, none)
    else
      let advanced : RaopBuffer δ := { b with firstSeqnum := b.firstSeqnum + 1 }
      if entry.available = false then
        let silence := List.replicate entry.audioBufferSize.toNat 0
        ({ advanced with
            entries := Function.update b.entries slot { entry with audioBuffer := silence } },
          some ⟨silence, entry.audioBufferSize, none⟩)
      else
        ({ advanced with
            entries := Function.update b.entries slot
              { entry with available := false, resending := false, audioBufferLen := 0 } },
          some ⟨entry.audioBuffer.take entry.audioBufferLen.toNat, entry.audioBufferLen,
            some entry.timestamp⟩)

/-! ## Codec numbers -/

/-- The `cn` values for which `raop_buffer_init` opens a decoder. -/
def KnownCn (cn : ℤ) : Prop := cn = 1 ∨ cn = 3

theorem decodeFrame_known (codec : AudioCodec δ) (cn : ℤ) (known : KnownCn cn) (decoder : δ)
    (packetbuf : Bytes) (datalen : ℕ) (slot : Bytes) (size : ℤ) :
    ∃ out, decodeFrame codec cn decoder packetbuf datalen slot size = some out := by
  rcases known with rfl | rfl
  · exact ⟨_, rfl⟩
  · exact ⟨_, rfl⟩

theorem decodeFrame_slot {codec : AudioCodec δ} {cn : ℤ} {decoder : δ} {packetbuf : Bytes}
    {datalen : ℕ} {slot : Bytes} {size : ℤ} {out : δ × Frame}
    (decodes : decodeFrame codec cn decoder packetbuf datalen slot size = some out) :
    out.2.slot.length = slot.length := by
  unfold decodeFrame at decodes
  split_ifs at decodes
  · rw [← Option.some.inj decodes]
    exact codec.alac_slot _ _ _ _
  · rw [← Option.some.inj decodes]
    exact codec.aacEld_slot _ _ _ _ _

@[simp] theorem flush_cn (b : RaopBuffer δ) (nextSeq : ℤ) : (raopBufferFlush b nextSeq).cn = b.cn := by
  unfold raopBufferFlush
  split <;> rfl

theorem storePacket_cn (codec : AudioCodec δ) (b : RaopBuffer δ) (data : Bytes) (datalen : ℕ)
    (seqnum : BitVec 16) : (storePacket codec b data datalen seqnum).1.cn = b.cn := by
  unfold storePacket
  dsimp only
  split
  · rfl
  · split <;> split <;> rfl

theorem storePacket_accepts (codec : AudioCodec δ) {b : RaopBuffer δ} (known : KnownCn b.cn)
    (data : Bytes) (datalen : ℕ) (seqnum : BitVec 16) :
    (storePacket codec b data datalen seqnum).2 = 1 := by
  obtain ⟨⟨decoder, frame⟩, decodes⟩ := decodeFrame_known codec b.cn known b.decoder
    (packetBuf codec b data datalen) datalen
    (headerEntry (b.entries (slotOf seqnum)) data seqnum).audioBuffer
    (headerEntry (b.entries (slotOf seqnum)) data seqnum).audioBufferSize
  simp only [storePacket, decodes]
  split <;> split <;> rfl

theorem queue_cases (codec : AudioCodec δ) (b : RaopBuffer δ) (data : Bytes) {datalen : BitVec 16}
    (useSeqnum : Bool) (fits : ¬ (datalen.toNat < 12 ∨ raopPacketLen < datalen.toNat)) :
    ∃ (c : RaopBuffer δ) (seqnum : BitVec 16), c.cn = b.cn ∧
      (raopBufferQueue codec b data datalen useSeqnum = (c, 0) ∨
        raopBufferQueue codec b data datalen useSeqnum =
          storePacket codec c data datalen.toNat seqnum) := by
  rw [raopBufferQueue, if_neg fits]
  dsimp only
  generalize (if useSeqnum = true then be16 data 2 else b.firstSeqnum) = seqnum
  split
  · exact ⟨b, seqnum, rfl, Or.inl rfl⟩
  · have sameCn : (if 0 ≤ seqnumCmp seqnum (b.firstSeqnum + BitVec.ofNat 16 raopBufferLength)
        then raopBufferFlush b seqnum.toNat else b).cn = b.cn := by
      split
      · exact flush_cn b _
      · rfl
    generalize (if 0 ≤ seqnumCmp seqnum (b.firstSeqnum + BitVec.ofNat 16 raopBufferLength)
        then raopBufferFlush b seqnum.toNat else b) = c at sameCn ⊢
    split
    · exact ⟨c, seqnum, sameCn, Or.inl rfl⟩
    · exact ⟨c, seqnum, sameCn, Or.inr rfl⟩

@[simp] theorem queue_cn (codec : AudioCodec δ) (b : RaopBuffer δ) (data : Bytes)
    (datalen : BitVec 16) (useSeqnum : Bool) :
    (raopBufferQueue codec b data datalen useSeqnum).1.cn = b.cn := by
  by_cases bad : datalen.toNat < 12 ∨ raopPacketLen < datalen.toNat
  · rw [raopBufferQueue, if_pos bad]
  · obtain ⟨c, seqnum, same, dropped | stored⟩ := queue_cases codec b data useSeqnum bad
    · rw [dropped, same]
    · rw [stored, storePacket_cn, same]

theorem queue_accepts_iff (codec : AudioCodec δ) {b : RaopBuffer δ} (known : KnownCn b.cn)
    (data : Bytes) (datalen : BitVec 16) (useSeqnum : Bool) :
    0 ≤ (raopBufferQueue codec b data datalen useSeqnum).2 ↔
      12 ≤ datalen.toNat ∧ datalen.toNat ≤ raopPacketLen := by
  by_cases bad : datalen.toNat < 12 ∨ raopPacketLen < datalen.toNat
  · rw [raopBufferQueue, if_pos bad]
    refine iff_of_false (by omega) ?_
    omega
  · refine iff_of_true ?_ (by omega)
    obtain ⟨c, seqnum, same, dropped | stored⟩ := queue_cases codec b data useSeqnum bad
    · rw [dropped]
    · rw [stored, storePacket_accepts codec (same ▸ known)]
      exact zero_le_one

@[simp] theorem dequeue_cn (b : RaopBuffer δ) (noResend : Bool) :
    (raopBufferDequeue b noResend).1.cn = b.cn := by
  unfold raopBufferDequeue
  dsimp only
  split
  · rfl
  · split
    · rfl
    · split <;> rfl

/-! ## Resend requests -/

/-- The loop of `raop_buffer_handle_resends`: the entries it marks and where it stops. -/
def markResending (last : BitVec 16) :
    ℕ → BitVec 16 → (Fin raopBufferLength → RaopBufferEntry) →
      (Fin raopBufferLength → RaopBufferEntry) × BitVec 16
  | 0, seqnum, entries => (entries, seqnum)
  | fuel + 1, seqnum, entries =>
      let entry := entries (slotOf seqnum)
      if 0 ≤ seqnumCmp seqnum last ∨ entry.available = true ∨ entry.resending = true then
        (entries, seqnum)
      else
        markResending last fuel (seqnum + 1)
          (Function.update entries (slotOf seqnum) { entry with resending := true })

/-- `raop_buffer_handle_resends`, and what it passes to `resend_cb`.  The loop ends at
`last_seqnum` at the latest. -/
def raopBufferHandleResends (b : RaopBuffer δ) : RaopBuffer δ × Option (BitVec 16 × ℤ) :=
  let distance := seqnumCmp b.firstSeqnum b.lastSeqnum
  if distance < 0 then
    let marked := markResending b.lastSeqnum (-distance).toNat b.firstSeqnum b.entries
    let count := seqnumCmp marked.2 b.firstSeqnum
    ({ b with entries := marked.1 }, if count = 0 then none else some (b.firstSeqnum, count))
  else (b, none)

@[simp] theorem handleResends_cn (b : RaopBuffer δ) : (raopBufferHandleResends b).1.cn = b.cn := by
  unfold raopBufferHandleResends
  dsimp only
  split <;> rfl

/-! ## A plain codec -/

def plainFrame (packet slot : Bytes) : Frame :=
  ⟨(packet.take 4 ++ slot.drop (packet.take 4).length).take slot.length, 4, 4 ≤ slot.length⟩

theorem plainFrame_slot (packet slot : Bytes) :
    (plainFrame packet slot).slot.length = slot.length := by
  simp only [plainFrame, List.length_take, List.length_append, List.length_drop]
  omega

/-- A decoder that hands the first four bytes of the packet on. -/
def plainCodec : AudioCodec Unit where
  aesCbcDecrypt _ _ packet := packet
  alacCreate _ := some ()
  alacDecodeFrame _ packet slot _ := ((), plainFrame packet slot)
  createAacEld := ()
  aacEldDecodeFrame _ packet _ slot _ := ((), plainFrame packet slot)
  alac_slot _ packet slot _ := plainFrame_slot packet slot
  aacEld_slot _ packet _ slot _ := plainFrame_slot packet slot

end AirCast.Raop
