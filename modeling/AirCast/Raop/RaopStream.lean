import AirCast.Crypt.NewAes
import AirCast.Raop.AlacFrames
import AirCast.Raop.RaopJitter

/-! # What a stream of audio packets sounds like

A sender numbers its packets, codes their samples by ALAC and encrypts them with the key of the
session.  The ring with `AES_cbc_decrypt` and `alac_decode_frame` behind it hands out what an ideal
jitter buffer over the sender's own samples would. -/

set_option autoImplicit false

namespace AirCast.Raop

open AirCast.JitterBuffer (Ideal Emission Mapped)
open AirCast.SerialNumber

/-! ## The decoders behind the ring -/

/-- What is there where nothing was written before, and what C leaves open. -/
structure Surroundings where
  unspecified : Unspecified
  /-- the stack around `packetbuf` -/
  stack : AlacDecoder → Bytes → Memory
  aesCtx : Crypt.AesCtx
  heap : AlacBuffers
  fresh : heap.Within 0

def packetMemory (packetbuf : Bytes) (stack : Memory) : Memory := fun i =>
  if 0 ≤ i then (packetbuf[i.toNat]?.map UInt8.toBitVec).getD (stack i) else stack i

def slotBuffer (slot : Bytes) : OutBuffer := ⟨fun i => (slot[i]?.getD 0).toBitVec, 0⟩

def SampleBuffer.slotBytes (outbuffer : OutBuffer) (size : ℕ) : Bytes :=
  (List.range size).map fun i => ⟨outbuffer.value i⟩

/-- aes.c and alac.c, beside another decoder for AAC. -/
def alacCodec (around : Surroundings) (aac : AudioCodec AlacDecoder) : AudioCodec AlacDecoder :=
  { aac with
    aesCbcDecrypt := fun aeskey aesiv data =>
      (Crypt.aesCbcDecrypt
        (Crypt.aesConvertKey (Crypt.aesSetKey around.aesCtx aeskey aesiv .mode128)) data
          data.length).2
    alacCreate := fun config => some ⟨alacOpen config, around.heap⟩
    alacDecodeFrame := fun alac packetbuf slot _ =>
      let frame := alacDecodeFrame around.unspecified
        (packetMemory packetbuf (around.stack alac packetbuf)) alac (slotBuffer slot)
      (frame.alac, ⟨frame.outbuffer.slotBytes slot.length, frame.outputsize,
        frame.outbuffer.extent ≤ slot.length ∧
          frame.alac.buffers.Within frame.alac.file.setinfoMaxSamplesPerFrame.toNat⟩)
    alac_slot := fun _ _ _ _ => by simp [SampleBuffer.slotBytes] }

/-! ## The sender -/

/-- A packet of a sender: a frame of the format, and what the RTP header says. -/
structure AudioPacket (config : AlacSpecificConfig) where
  flags : UInt8
  type : UInt8
  timestamp : BitVec 32
  ssrc : BitVec 32
  pcm : List StereoSample
  bits : List Bool
  payload : Bytes
  frame : AlacPacket (alacOpen config) pcm bits
  carried : Carries (byteStream payload) 0 bits
  fits : 12 + payload.length ≤ raopPacketLen

namespace AudioPacket

variable {config : AlacSpecificConfig} (p : AudioPacket config)

/-- The whole blocks of the payload are encrypted, the rest is not. -/
def encrypted (aeskey aesiv : Bytes) : Bytes :=
  (Crypt.aesCbcEncrypt (Crypt.aesSetKey ⟨0, 0, Vector.replicate 120 0, []⟩ aeskey aesiv .mode128)
      p.payload p.payload.length).2 ++
    p.payload.drop (16 * (p.payload.length / 16))

/-- The datagram with number `n`. -/
def encode (aeskey aesiv : Bytes) (n : ℤ) : Bytes :=
  [p.flags, p.type] ++ ((setUint16 (wrap 16 n) ++ (setUint32 p.timestamp ++
    setUint32 p.ssrc)).map UInt8.ofBitVec ++ p.encrypted aeskey aesiv)

def datalen : BitVec 16 := BitVec.ofNat 16 (12 + p.payload.length)

def samples : Bytes := (pcmBytes p.pcm).map UInt8.ofBitVec

def decoded : Decoded := (⟨p.samples, 4 * p.pcm.length⟩, p.timestamp)

end AudioPacket

/-! ## The calls -/

inductive StreamOp (config : AlacSpecificConfig) where
  | packet (n : ℤ) (p : AudioPacket config)
  | dequeue (noResend : Bool)
  | flush (n : ℤ) (nextSeq : ℤ)

section

variable {config : AlacSpecificConfig}

def StreamOp.onWire (aeskey aesiv : Bytes) : StreamOp config → RingOp
  | .packet n p => .queue n (p.encode aeskey aesiv n) p.datalen
  | .dequeue noResend => .dequeue noResend
  | .flush n nextSeq => .flush n nextSeq

def StreamOp.ideal : StreamOp config → JitterBuffer.Op (AudioPacket config)
  | .packet n p => .offer n p
  | .dequeue noResend => .emit noResend
  | .flush n nextSeq => .flush (if SeqInRange nextSeq then some n else none)

def playout (config : AlacSpecificConfig) :
    Transducer (Ideal Unit (AudioPacket config)) (StreamOp config)
      (Option (Emission (ℕ × AudioPacket config))) :=
  (JitterBuffer.machine raopBufferLength fun decoder p => (decoder, p)).comap StreamOp.ideal

/-- A packet lies within half the range of the numbers from the next one. -/
def Near (s : Ideal Unit (AudioPacket config)) : StreamOp config → Prop
  | .packet n _ => ∀ w ∈ s.buffer, |n - w.first| ≤ 2 ^ 15 - 1
  | .dequeue _ => True
  | .flush n nextSeq => SeqInRange nextSeq → wrap 16 n = wrap 16 nextSeq

instance (s : Ideal Unit (AudioPacket config)) : ∀ op, Decidable (Near s op)
  | .packet n _ => inferInstanceAs (Decidable (∀ w ∈ s.buffer, |n - w.first| ≤ 2 ^ 15 - 1))
  | .dequeue _ => isTrue trivial
  | .flush n nextSeq =>
      inferInstanceAs (Decidable (SeqInRange nextSeq → wrap 16 n = wrap 16 nextSeq))

/-- What is played: the samples of a packet, or a slot of silence. -/
def played (size : ℤ) : Option (Emission (ℕ × AudioPacket config)) → Option Dequeued
  | none => none
  | some ⟨_, some (_, p)⟩ => some ⟨p.samples, 4 * p.pcm.length, some p.timestamp⟩
  | some ⟨_, none⟩ => some ⟨List.replicate size.toNat 0, size, none⟩

end

/-! ## One packet -/

theorem aesCbcDecrypt_sent (ctx ctx' : Crypt.AesCtx) (aeskey aesiv msg : Bytes) :
    let code :=
      (Crypt.aesCbcEncrypt (Crypt.aesSetKey ctx' aeskey aesiv .mode128) msg msg.length).2
    code.length = 16 * (msg.length / 16) ∧
      (Crypt.aesCbcDecrypt (Crypt.aesConvertKey (Crypt.aesSetKey ctx aeskey aesiv .mode128)) code
        code.length).2 = msg.take (16 * (msg.length / 16)) := by
  intro code
  have length : code.length = 16 * (msg.length / 16) := by
    simp only [code]
    rw [Crypt.aesCbcEncrypt, Crypt.aesCbcEncryptLoop_eq, Crypt.length_storeBlocks,
      BlockCipher.length_chain, Crypt.length_blocksOf, Int.toNat_natCast]
  refine ⟨length, ?_⟩
  have same : code =
      (Crypt.aesCbcEncrypt (Crypt.aesSetKey ctx aeskey aesiv .mode128) msg msg.length).2 :=
    Crypt.aesCbcEncrypt_setKey ctx' ctx aeskey aesiv msg msg.length
  have back := (Crypt.aesCbcDecrypt_aesCbcEncrypt _
    (Crypt.aesSetKey_ready ctx aeskey aesiv .mode128) msg []).1
  rw [← same, List.append_nil, Crypt.aesCbcDecrypt, Int.toNat_natCast] at back
  rw [Crypt.aesCbcDecrypt, Int.toNat_natCast, length, Nat.mul_div_cancel_left _ (by omega)]
  exact back

section Packet

variable {config : AlacSpecificConfig} (p : AudioPacket config) (aeskey aesiv : Bytes) (n : ℤ)

theorem AudioPacket.encode_eq : ∃ header : Bytes, header.length = 12 ∧
    p.encode aeskey aesiv n = header ++ p.encrypted aeskey aesiv := by
  refine ⟨[p.flags, p.type] ++ (setUint16 (wrap 16 n) ++ (setUint32 p.timestamp ++
    setUint32 p.ssrc)).map UInt8.ofBitVec, rfl, ?_⟩
  rw [AudioPacket.encode, List.append_assoc]

theorem AudioPacket.encode_seqnum : be16 (p.encode aeskey aesiv n) 2 = wrap 16 n := by
  have bytes : ∀ v : BitVec 16, (v >>> 8).setWidth 8 ++ v.setWidth 8 = v := by
    intro v
    ext i inside
    simp only [BitVec.getElem_append]
    interval_cases i <;> simp
  exact bytes (wrap 16 n)

theorem AudioPacket.encode_timestamp : be32 (p.encode aeskey aesiv n) 4 = p.timestamp := by
  have bytes : ∀ v : BitVec 32, ((v >>> 24).setWidth 8 ++ (v >>> 16).setWidth 8 ++
      ((v >>> 8).setWidth 8 ++ v.setWidth 8) : BitVec 32) = v := by
    intro v
    ext i inside
    simp only [BitVec.getElem_append]
    interval_cases i <;> simp
  exact bytes p.timestamp

theorem AudioPacket.datalen_toNat : p.datalen.toNat = 12 + p.payload.length := by
  have fits := p.fits
  rw [raopPacketLen] at fits
  rw [AudioPacket.datalen, BitVec.toNat_ofNat, Nat.mod_eq_of_lt (by omega)]

theorem AudioPacket.lengthOk : LengthOk p.datalen := by
  rw [LengthOk, p.datalen_toNat]
  exact ⟨by omega, p.fits⟩

variable (around : Surroundings) (aac : AudioCodec AlacDecoder)

theorem packetBuf_encode {base : RaopBuffer AlacDecoder} (encrypts : base.et ≠ 0) :
    packetBuf (alacCodec around aac) base (p.encode base.aeskey base.aesiv n)
      (12 + p.payload.length) = p.payload := by
  obtain ⟨header, twelve, wire⟩ := p.encode_eq base.aeskey base.aesiv n
  obtain ⟨length, plain⟩ := aesCbcDecrypt_sent around.aesCtx ⟨0, 0, Vector.replicate 120 0, []⟩
    base.aeskey base.aesiv p.payload
  rw [wire, AudioPacket.encrypted]
  generalize (Crypt.aesCbcEncrypt _ p.payload p.payload.length).2 = code at length plain
  have front : ((header ++ (code ++ p.payload.drop (16 * (p.payload.length / 16)))).drop 12).take
      (p.payload.length / 16 * 16) = code := by
    rw [List.drop_left' twelve, List.take_left' (by rw [length]; omega)]
  have back : ((header ++ (code ++ p.payload.drop (16 * (p.payload.length / 16)))).drop
      (12 + p.payload.length / 16 * 16)).take (12 + p.payload.length - 12 -
        p.payload.length / 16 * 16) = p.payload.drop (16 * (p.payload.length / 16)) := by
    rw [← List.drop_drop, List.drop_left' twelve, List.drop_left' (by rw [length]; omega),
      List.take_of_length_le (by rw [List.length_drop]; omega)]
  simp only [packetBuf, Nat.add_sub_cancel_left, if_pos encrypts] at back ⊢
  rw [front, back]
  by_cases whole : 0 < p.payload.length / 16 * 16
  · rw [if_pos whole]
    exact (congrArg (· ++ _) plain).trans (List.take_append_drop _ _)
  · rw [if_neg whole, List.nil_append, show 16 * (p.payload.length / 16) = 0 by omega,
      List.drop_zero]

theorem carries_packetMemory {payload : Bytes} {bits : List Bool}
    (carried : Carries (byteStream payload) 0 bits) (stack : Memory) :
    Carries (bitStream (packetMemory payload stack)) 0 bits := by
  rw [carries_iff] at carried ⊢
  intro index inside
  have bit := carried index inside
  rw [byteStream, Option.map_eq_some_iff] at bit
  obtain ⟨b, there, value⟩ := bit
  rw [bitStream, packetMemory, if_pos (Int.natCast_nonneg _), Int.toNat_natCast, there,
    Option.map_some, Option.getD_some, ← value]
  rfl

theorem slotBytes_put (slot : Bytes) (bytes : List (BitVec 8)) (room : bytes.length ≤ slot.length) :
    (((slotBuffer slot).put 0 bytes).slotBytes slot.length).take bytes.length =
      bytes.map UInt8.ofBitVec := by
  refine List.ext_getElem (by simp [SampleBuffer.slotBytes, room]) fun i inside _ => ?_
  have below : i < bytes.length := by
    rw [List.length_take] at inside
    omega
  have value := SampleBuffer.put_inside (slotBuffer slot) 0 below
  rw [Nat.zero_add] at value
  simp [SampleBuffer.slotBytes, value]

/-- The format of the session, as the decoder takes it. -/
structure Playable (config : AlacSpecificConfig) : Prop where
  bitDepth : config.bitDepth = 16
  numChannels : config.numChannels = 2
  small : config.frameLength.toNat < 2 ^ 24
  kb : config.kb.toNat < 32

theorem Playable.stereo (playable : Playable config) : Stereo16 (alacOpen config) := by
  rw [alacOpen, alacSetInfo_decoderInfo, playable.bitDepth, playable.numChannels]
  exact ⟨rfl, rfl, rfl, playable.kb⟩

theorem alacOpen_maxSamples (config : AlacSpecificConfig) :
    (alacOpen config).setinfoMaxSamplesPerFrame = config.frameLength := by
  rw [alacOpen, alacSetInfo_decoderInfo]

theorem AudioPacket.within : p.pcm.length ≤ config.frameLength.toNat := by
  rw [← alacOpen_maxSamples]
  exact p.frame.most

/-- The decoder keeps the format of the session, and its arrays hold. -/
structure Formatted (config : AlacSpecificConfig) (decoder : AlacDecoder) (_ : Unit) : Prop where
  file : decoder.file = alacOpen config
  inside : decoder.buffers.Within config.frameLength.toNat

/-- A packet is decoded to its samples, whatever the decoder did before and whatever is in the
slot. -/
theorem decodeOver_encode {base : RaopBuffer AlacDecoder} (encrypts : base.et ≠ 0)
    (alac : base.cn = 1) (playable : Playable config) {decoder : AlacDecoder}
    (format : Formatted config decoder ()) :
    ∃ after, Formatted config after () ∧ ∀ slot : Bytes, 4 * config.frameLength.toNat ≤ slot.length →
      let out := decodeOver (alacCodec around aac) base decoder
        (p.encode base.aeskey base.aesiv n, p.datalen) slot
      out.1 = after ∧ out.2.inside = true ∧ out.2.pcm = ⟨p.samples, 4 * p.pcm.length⟩ := by
  obtain ⟨file, buffers⟩ := decoder
  obtain ⟨same, allocated⟩ := format
  dsimp only at same allocated
  subst same
  rw [← alacOpen_maxSamples] at allocated
  have within := p.within
  have few : p.pcm.length < 2 ^ 29 := within.trans_lt (playable.small.trans (by norm_num))
  obtain ⟨after, inside, frame⟩ := @alacDecodeFrame_packet around.unspecified
    _ ⟨alacOpen config, buffers⟩ _ playable.stereo few allocated _ p.frame
    (carries_packetMemory p.carried (around.stack ⟨alacOpen config, buffers⟩ p.payload))
  rw [alacOpen_maxSamples] at inside
  refine ⟨⟨alacOpen config, after⟩, ⟨rfl, inside⟩, fun slot room => ?_⟩
  have bytes := length_pcmBytes p.pcm
  have decoded : decodeOver (alacCodec around aac) base ⟨alacOpen config, buffers⟩
      (p.encode base.aeskey base.aesiv n, p.datalen) slot =
        (⟨alacOpen config, after⟩,
          ⟨((slotBuffer slot).put 0 (pcmBytes p.pcm)).slotBytes slot.length, 4 * p.pcm.length,
            true⟩) := by
    have extent : ((slotBuffer slot).put 0 (pcmBytes p.pcm)).extent ≤ slot.length := by
      have empty : (slotBuffer slot).extent = 0 := rfl
      rw [SampleBuffer.put_extent, empty]
      split_ifs <;> omega
    have one : (alacCodec around aac).alacDecodeFrame ⟨alacOpen config, buffers⟩ p.payload slot
        (audioBufferSize base.alacConfig) = (⟨alacOpen config, after⟩,
          ⟨((slotBuffer slot).put 0 (pcmBytes p.pcm)).slotBytes slot.length, 4 * p.pcm.length,
            true⟩) := by
      simp only [alacCodec, frame, alacOpen_maxSamples, extent, inside, and_self, decide_true]
    simp only [decodeOver, p.datalen_toNat, packetBuf_encode p n around aac encrypts, decodeFrame,
      if_pos alac, one, Option.getD_some]
  have front := slotBytes_put slot (pcmBytes p.pcm) (by omega)
  rw [bytes] at front
  rw [decoded]
  refine ⟨rfl, rfl, ?_⟩
  rw [Frame.pcm, show (4 * p.pcm.length : ℤ).toNat = 4 * p.pcm.length by omega, front]
  rfl

theorem writesWhole_encode {base : RaopBuffer AlacDecoder} (encrypts : base.et ≠ 0)
    (alac : base.cn = 1) (playable : Playable config)
    (size : audioBufferSize base.alacConfig = 4 * config.frameLength.toNat) {decoder : AlacDecoder}
    (format : Formatted config decoder ()) :
    let packet := (p.encode base.aeskey base.aesiv n, p.datalen)
    WritesWhole (alacCodec around aac) base decoder packet ∧
      Formatted config (decodePacket (alacCodec around aac) base decoder packet).1 () ∧
        (decodePacket (alacCodec around aac) base decoder packet).2 = p.decoded := by
  obtain ⟨after, formatted, over_⟩ :=
    decodeOver_encode p n around aac encrypts alac playable format
  have silence := over_ (List.replicate (audioBufferSize base.alacConfig).toNat 0) (by
    rw [List.length_replicate]
    omega)
  dsimp only at silence
  obtain ⟨next, -, heard⟩ := silence
  have within := p.within
  refine ⟨fun slot length => ?_, ?_, ?_⟩
  · obtain ⟨same, inside, pcm⟩ := over_ slot (by omega)
    refine ⟨inside, ?_, same.trans next.symm, pcm.trans heard.symm⟩
    rw [show Frame.outputlen _ = (4 * p.pcm.length : ℤ) from congrArg Pcm.outputlen pcm]
    omega
  · rw [decodePacket, next]
    exact formatted
  · rw [decodePacket, heard, p.encode_timestamp]
    rfl

end Packet

section Runs

variable {config : AlacSpecificConfig} (around : Surroundings) (aac : AudioCodec AlacDecoder)

theorem played_eq (size : ℤ) (out : Option (Emission (ℕ × AudioPacket config))) :
    render size (out.map (Emission.map (Prod.map id AudioPacket.decoded))) = played size out := by
  match out with
  | none => rfl
  | some ⟨_, none⟩ => rfl
  | some ⟨_, some (_, _)⟩ => rfl

theorem idealOp_onWire (aeskey aesiv : Bytes) (op : StreamOp config) :
    ∃ code : AudioPacket config → Bytes × BitVec 16,
      idealOp (op.onWire aeskey aesiv) = op.ideal.map code ∧
        ∀ p, ∃ n, code p = (p.encode aeskey aesiv n, p.datalen) := by
  cases op with
  | packet n p =>
      refine ⟨fun p => (p.encode aeskey aesiv n, p.datalen), ?_, fun _ => ⟨n, rfl⟩⟩
      exact if_pos p.lengthOk
  | dequeue noResend => exact ⟨fun p => (p.encode aeskey aesiv 0, p.datalen), rfl, fun _ => ⟨0, rfl⟩⟩
  | flush n nextSeq => exact ⟨fun p => (p.encode aeskey aesiv 0, p.datalen), rfl, fun _ => ⟨0, rfl⟩⟩

theorem idealRing_playout {base : RaopBuffer AlacDecoder} (encrypts : base.et ≠ 0)
    (alac : base.cn = 1) (playable : Playable config)
    (size : audioBufferSize base.alacConfig = 4 * config.frameLength.toNat) {s : Ideal AlacDecoder Decoded}
    {t : Ideal Unit (AudioPacket config)}
    (mapped : Mapped AudioPacket.decoded (Formatted config) s t) (op : StreamOp config) :
    let wire := (idealRing (alacCodec around aac) base).step s (op.onWire base.aeskey base.aesiv)
    let packets := (playout config).step t op
    Mapped AudioPacket.decoded (Formatted config) wire.1 packets.1 ∧
      wire.2 = packets.2.map (Emission.map (Prod.map id AudioPacket.decoded)) := by
  obtain ⟨code, same, coded⟩ := idealOp_onWire base.aeskey base.aesiv op
  have decodes : ∀ (d : AlacDecoder) (e : Unit) (p : AudioPacket config), Formatted config d e →
      Formatted config (decodePacket (alacCodec around aac) base d (code p)).1 e ∧
        (decodePacket (alacCodec around aac) base d (code p)).2 = p.decoded := by
    intro d e p format
    obtain ⟨n, wire⟩ := coded p
    rw [wire]
    exact (writesWhole_encode p n around aac encrypts alac playable size format).2
  simp only [idealRing, playout, Transducer.comap, JitterBuffer.machine, same]
  exact JitterBuffer.step_map AudioPacket.decoded raopBufferLength decodes mapped op.ideal

theorem inHalfRange_onWire {s : Ideal AlacDecoder Decoded} {t : Ideal Unit (AudioPacket config)}
    (mapped : Mapped AudioPacket.decoded (Formatted config) s t) (aeskey aesiv : Bytes)
    (op : StreamOp config) (near : Near t op) : InHalfRange s (op.onWire aeskey aesiv) := by
  cases op with
  | packet n p =>
      refine fun _ => ⟨p.encode_seqnum aeskey aesiv n, fun w held => ?_⟩
      rw [mapped.2.2, Option.mem_map] at held
      obtain ⟨v, there, rfl⟩ := held
      exact near v there
  | dequeue noResend => trivial
  | flush n nextSeq => exact near

theorem overwrites_onWire {base : RaopBuffer AlacDecoder} (encrypts : base.et ≠ 0)
    (alac : base.cn = 1) (playable : Playable config)
    (size : audioBufferSize base.alacConfig = 4 * config.frameLength.toNat)
    {s : Ideal AlacDecoder Decoded} {t : Ideal Unit (AudioPacket config)}
    (mapped : Mapped AudioPacket.decoded (Formatted config) s t) (op : StreamOp config) :
    Overwrites (alacCodec around aac) base s (op.onWire base.aeskey base.aesiv) := by
  cases op with
  | packet n p =>
      exact fun _ _ => (writesWhole_encode p n around aac encrypts alac playable size mapped.1).1
  | dequeue noResend => trivial
  | flush n nextSeq => trivial

theorem raopBufferInit_formatted {abi : Abi} {malloc : Malloc} {fmtp : CString}
    {aeskey aesiv : Bytes} {et : ℤ} {b : RaopBuffer AlacDecoder}
    (success : raopBufferInit abi (alacCodec around aac) malloc fmtp aeskey aesiv et 1 = some b) :
    getFmtpInfo abi fmtp 1 = some b.alacConfig ∧ b.aeskey = aeskey ∧ b.aesiv = aesiv ∧ b.et ≠ 0 ∧
      b.cn = 1 ∧ Formatted b.alacConfig b.decoder () := by
  unfold raopBufferInit at success
  cases parsed : getFmtpInfo abi fmtp 1 with
  | none =>
      rw [parsed] at success
      cases success
  | some config =>
      rw [parsed] at success
      simp only [alacCodec, if_true] at success
      split at success
      · rename_i memory decoder allocated created
        split_ifs at success with encryption
        obtain rfl := Option.some.inj created
        obtain rfl := Option.some.inj success
        obtain ⟨a, b, c, d, e, f⟩ := around.fresh
        refine ⟨rfl, rfl, rfl, ?_, rfl, rfl, ?_⟩
        · dsimp only
          omega
        · exact ⟨a.trans (Nat.zero_le _), b.trans (Nat.zero_le _), c.trans (Nat.zero_le _),
            d.trans (Nat.zero_le _), e.trans (Nat.zero_le _), f.trans (Nat.zero_le _)⟩
      · cases success

/-- From initialisation on, what the ring hands out for the datagrams of a sender is what an ideal
jitter buffer hands out that was given the samples. -/
theorem ring_plays_samples (abi : Abi) (malloc : Malloc) (fmtp : CString) (aeskey aesiv : Bytes)
    (et : ℤ) (format : getFmtpInfo abi fmtp 1 = some config)
    (small : config.frameLength.toNat < 2 ^ 24) (kb : config.kb.toNat < 32)
    {b : RaopBuffer AlacDecoder}
    (success : raopBufferInit abi (alacCodec around aac) malloc fmtp aeskey aesiv et 1 = some b)
    (ops : List (StreamOp config)) (near : (playout config).Admissible Near ⟨(), 0, none⟩ ops) :
    ((ring (alacCodec around aac)).run b (ops.map (StreamOp.onWire aeskey aesiv))).2 =
      ((playout config).run ⟨(), 0, none⟩ ops).2.map (played (audioBufferSize config)) := by
  obtain ⟨known, related⟩ := init_spec abi _ malloc fmtp aeskey aesiv et 1 b success
  obtain ⟨-, -, -, bitDepth, numChannels⟩ := getFmtpInfo_alac format
  have playable : Playable config := ⟨bitDepth, numChannels, small, kb⟩
  obtain ⟨parsed, key, iv, encrypts, alac, opened⟩ := raopBufferInit_formatted around aac success
  have configured : b.alacConfig = config := Option.some.inj (parsed.symm.trans format)
  rw [configured] at opened
  have size : audioBufferSize b.alacConfig = 4 * config.frameLength.toNat := by
    rw [configured, audioBufferSize_eq bitDepth numChannels, Nat.mod_eq_of_lt (by omega)]
    omega
  have same : audioBufferSize config = audioBufferSize b.alacConfig :=
    congrArg audioBufferSize configured.symm
  rw [← key, ← iv, same, ← Transducer.comap_run]
  let R : RaopBuffer AlacDecoder → Ideal Unit (AudioPacket config) → Prop := fun ring t =>
    ∃ s, Refines b ring s ∧ Mapped AudioPacket.decoded (Formatted config) s t
  refine (Transducer.run_simulates _ (playout config) (played (audioBufferSize b.alacConfig)) Near
    R ?_ ops b _ ⟨_, related, opened, rfl, rfl⟩ near).2
  rintro ring t op ⟨s, refines, mapped⟩ near
  obtain ⟨after, answer⟩ := ring_refines (alacCodec around aac) b known ring s _ refines
    (inHalfRange_onWire mapped b.aeskey b.aesiv op near)
    (overwrites_onWire around aac encrypts alac playable size mapped op)
  obtain ⟨next, out⟩ := idealRing_playout around aac encrypts alac playable size mapped op
  refine ⟨⟨_, after, next⟩, ?_⟩
  rw [← played_eq, ← out]
  exact answer

end Runs

/-! ## A short stream -/

def verbatimBits (pcm : List StereoSample) : List Bool :=
  fixedBits 3 1 ++ (headerBits 0 0 true (some pcm.length) ++ pcmBits pcm)

theorem verbatimBits_frame {file : AlacFile} {pcm : List StereoSample}
    (most : pcm.length ≤ file.setinfoMaxSamplesPerFrame.toNat) :
    AlacPacket file pcm (verbatimBits pcm) := .verbatim (by omega) (by omega) ⟨.inl rfl, most⟩

theorem length_verbatimBits (pcm : List StereoSample) :
    (verbatimBits pcm).length = 55 + 32 * pcm.length := by
  have samples : (pcmBits pcm).length = 32 * pcm.length := by
    simp only [pcmBits, List.length_flatMap, List.length_append, length_fixedBits,
      List.map_const', List.sum_replicate, smul_eq_mul]
    omega
  simp [verbatimBits, headerBits, samples]
  omega

def verbatimPayload (pcm : List StereoSample) : Bytes :=
  packBits (verbatimBits pcm ++ List.replicate 7 false)

theorem verbatimPayload_carries (pcm : List StereoSample) :
    Carries (byteStream (verbatimPayload pcm)) 0 (verbatimBits pcm) := by
  refine (carries_iff _ _ _).mpr fun index inside => ?_
  rw [verbatimPayload, Nat.zero_add, byteStream_packBits, List.getElem?_append_left inside,
    List.getElem?_eq_getElem inside]
  rw [List.length_append, List.length_replicate]
  omega

theorem verbatimPayload_fits {pcm : List StereoSample} (short : pcm.length ≤ 8000) :
    12 + (verbatimPayload pcm).length ≤ raopPacketLen := by
  rw [raopPacketLen, verbatimPayload, packBits, List.length_map, List.length_range,
    List.length_append, length_verbatimBits, List.length_replicate]
  omega

/-- A packet of samples that are not compressed. -/
def AudioPacket.verbatim (config : AlacSpecificConfig) (timestamp : BitVec 32)
    (pcm : List StereoSample) (within : pcm.length ≤ config.frameLength.toNat)
    (short : pcm.length ≤ 8000) : AudioPacket config where
  flags := 0x80
  type := 0x60
  timestamp := timestamp
  ssrc := 0
  pcm := pcm
  bits := verbatimBits pcm
  payload := verbatimPayload pcm
  frame := verbatimBits_frame (by rwa [alacOpen_maxSamples])
  carried := verbatimPayload_carries pcm
  fits := verbatimPayload_fits short

/-- Frames of up to four samples. -/
def fourSamples : AlacSpecificConfig :=
  { frameLength := 4
    compatibleVersion := 0
    bitDepth := 16
    pb := 40
    mb := 10
    kb := 14
    numChannels := 2
    maxRun := 255
    maxFrameBytes := 0
    avgBitRate := 0
    sampleRate := 44100 }

def cleared : Surroundings :=
  { unspecified := default
    stack := fun _ _ _ => 0
    aesCtx := ⟨0, 0, Vector.replicate 120 0, []⟩
    heap := ⟨⟨fun _ => 0, 0⟩, ⟨fun _ => 0, 0⟩, ⟨fun _ => 0, 0⟩, ⟨fun _ => 0, 0⟩, ⟨fun _ => 0, 0⟩,
      ⟨fun _ => 0, 0⟩⟩
    fresh := by decide }

def noAac : AudioCodec AlacDecoder where
  aesCbcDecrypt _ _ data := data
  alacCreate _ := none
  alacDecodeFrame decoder _ slot _ := (decoder, ⟨slot, 0, true⟩)
  createAacEld := ⟨alacOpen fourSamples, cleared.heap⟩
  aacEldDecodeFrame decoder _ _ slot _ := (decoder, ⟨slot, 0, true⟩)
  alac_slot _ _ _ _ := rfl
  aacEld_slot _ _ _ _ _ := rfl

def tone (timestamp : BitVec 32) (pitch : BitVec 16) : AudioPacket fourSamples :=
  .verbatim fourSamples timestamp [(pitch, 1), (0, pitch), (pitch, pitch)]
    (show 3 ≤ 4 by decide) (show 3 ≤ 8000 by decide)

def shortStream : List (StreamOp fourSamples) :=
  [.packet 65535 (tone 7 0x0102), .packet 65537 (tone 9 0x0304), .dequeue false, .dequeue false,
    .dequeue true, .packet 65536 (tone 8 0x0506), .dequeue false]

theorem ring_plays_shortStream :
    ∃ b, raopBufferInit .arm64V8a (alacCodec cleared noAac) (fun _ => some fun _ => 0)
        (CString.lit "96 4 0 16 40 10 14 2 255 0 0 44100") [1] [2] 1 1 = some b ∧
      ((ring (alacCodec cleared noAac)).run b (shortStream.map (StreamOp.onWire [1] [2]))).2 =
        ((playout fourSamples).run ⟨(), 0, none⟩ shortStream).2.map
          (played (audioBufferSize fourSamples)) ∧
      ((playout fourSamples).run ⟨(), 0, none⟩ shortStream).2.map
          (played (audioBufferSize fourSamples)) =
        [none, none, some ⟨[2, 1, 1, 0, 0, 0, 2, 1, 2, 1, 2, 1], 12, some 7⟩, none,
          some ⟨List.replicate 16 0, 16, none⟩, none,
          some ⟨[4, 3, 1, 0, 0, 0, 4, 3, 4, 3, 4, 3], 12, some 9⟩] := by
  have format : getFmtpInfo .arm64V8a (CString.lit "96 4 0 16 40 10 14 2 255 0 0 44100") 1 =
      some fourSamples := by decide
  exact ⟨_, rfl, ring_plays_samples cleared noAac .arm64V8a (fun _ => some fun _ => 0)
    (CString.lit "96 4 0 16 40 10 14 2 255 0 0 44100") [1] [2] 1 format (by decide) (by decide)
    rfl shortStream (by decide), by decide⟩

/-! ## What the ring does not clear -/

/-- A sample for the number 0 is played; then the number 32 has the same slot, and its packet no
channel that the decoder knows. -/
def otherTag : List RingOp :=
  [.queue 0 ([0x80, 0x60, 0, 0, 0, 0, 0, 7, 0, 0, 0, 0] ++ verbatimPayload [(0x0102, 0x0304)]) 23,
    .dequeue false, .flush 32 32,
    .queue 32 [0x80, 0x60, 0, 32, 0, 0, 0, 9, 0, 0, 0, 0, 0x40] 13, .dequeue false]

/-- The old sample is played again under the new number. -/
theorem otherTag_replays :
    ∃ b, raopBufferInit .arm64V8a (alacCodec cleared noAac) (fun _ => some fun _ => 0)
        (CString.lit "96 1 0 16 40 10 14 2 255 0 0 44100") [1] [2] 1 1 = some b ∧
      (idealRing (alacCodec cleared noAac) b).Admissible InHalfRange ⟨b.decoder, 0, none⟩ otherTag ∧
      ((ring (alacCodec cleared noAac)).run b otherTag).2 =
        [none, some ⟨[2, 1, 4, 3], 4, some 7⟩, none, none, some ⟨[2, 1, 4, 3], 4, some 9⟩] ∧
      ((ring (alacCodec cleared noAac)).run b otherTag).2 ≠
        ((idealRing (alacCodec cleared noAac) b).run ⟨b.decoder, 0, none⟩ otherTag).2.map
          (render (audioBufferSize b.alacConfig)) := by
  refine ⟨_, rfl, by decide, by decide +kernel, by decide +kernel⟩

end AirCast.Raop
