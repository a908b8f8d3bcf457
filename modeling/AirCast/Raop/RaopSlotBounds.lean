import AirCast.Raop.AlacLayout
import AirCast.Raop.RaopRingCalls
import AirCast.Raop.RaopStream

/-! # Which packets the ALAC decoder writes inside their slots

A packet of the ring is decoded into its own slot.  Nothing but the packet says how far
`alac_decode_frame` writes, so that a run keeps inside the slots just as long as the packets do. -/

set_option autoImplicit false

namespace AirCast.Raop

section

variable (around : Surroundings) (aac : AudioCodec AlacDecoder)

def packetAhead (b : RaopBuffer AlacDecoder) (data : Bytes) (datalen : BitVec 16) : Memory :=
  let packetbuf := packetBuf (alacCodec around aac) b data datalen.toNat
  packetMemory packetbuf (around.stack b.decoder packetbuf)

def decodedFrame (b : RaopBuffer AlacDecoder) (data : Bytes) (datalen : BitVec 16)
    (seqnum : BitVec 16) : DecodedFrame :=
  alacDecodeFrame around.unspecified (packetAhead around aac b data datalen) b.decoder
    (slotBuffer (b.entries (slotOf seqnum)).audioBuffer)

/-- A packet that is accepted is written below `audio_buffer_size` in its slot and below
`frameLength` in the arrays of the decoder, and the slot holds the length that it gets. -/
def StaysInSlot (b : RaopBuffer AlacDecoder) : RingCall → Prop
  | .queue data datalen useSeqnum =>
      let queued := raopBufferQueue (alacCodec around aac) b data datalen useSeqnum
      queued.2 = 1 →
        let seqnum := packetSeqnum b data useSeqnum
        let frame := decodedFrame around aac b data datalen seqnum
        let entry := queued.1.entries (slotOf seqnum)
        frame.outbuffer.extent ≤ entry.audioBufferSize ∧
          frame.alac.buffers.Within b.alacConfig.frameLength.toNat ∧
            0 ≤ entry.audioBufferLen ∧ entry.audioBufferLen ≤ entry.audioBufferSize
  | _ => True

/-- What a packet that is accepted says about its samples fits in a slot and in `frameLength`. -/
def PacketFits (b : RaopBuffer AlacDecoder) : RingCall → Prop
  | .queue data datalen useSeqnum =>
      (raopBufferQueue (alacCodec around aac) b data datalen useSeqnum).2 = 1 →
        (frameLayout around.unspecified (packetAhead around aac b data datalen)
          (alacOpen b.alacConfig)).FitsIn b.alacConfig.frameLength.toNat
            (audioBufferSize b.alacConfig)
  | _ => True

instance (b : RaopBuffer AlacDecoder) : ∀ call, Decidable (StaysInSlot around aac b call)
  | .queue _ _ _ => inferInstanceAs (Decidable (_ → _ ∧ _))
  | .dequeue _ => isTrue trivial
  | .handleResends => isTrue trivial
  | .flush _ => isTrue trivial

instance (b : RaopBuffer AlacDecoder) : ∀ call, Decidable (PacketFits around aac b call)
  | .queue _ _ _ => inferInstanceAs (Decidable (_ → _))
  | .dequeue _ => isTrue trivial
  | .handleResends => isTrue trivial
  | .flush _ => isTrue trivial

variable {around aac}

theorem storePacket_alac {δ : Type} (codec : AudioCodec δ) {b : RaopBuffer δ} (alac : b.cn = 1)
    (data : Bytes) (datalen : ℕ) (seqnum : BitVec 16) :
    let entry := b.entries (slotOf seqnum)
    let decoded := codec.alacDecodeFrame b.decoder (packetBuf codec b data datalen)
      entry.audioBuffer entry.audioBufferSize
    let stored := (storePacket codec b data datalen seqnum).1
    stored.decoder = decoded.1 ∧
      (stored.entries (slotOf seqnum)).audioBufferLen = decoded.2.outputlen := by
  simp only [storePacket, decodeFrame, if_pos alac]
  split_ifs <;> simp [headerEntry]

theorem queue_decodes {b : RaopBuffer AlacDecoder} (alac : b.cn = 1) {data : Bytes}
    {datalen : BitVec 16} {useSeqnum : Bool}
    (accepted : (raopBufferQueue (alacCodec around aac) b data datalen useSeqnum).2 = 1) :
    let seqnum := packetSeqnum b data useSeqnum
    let frame := decodedFrame around aac b data datalen seqnum
    let queued := (raopBufferQueue (alacCodec around aac) b data datalen useSeqnum).1
    queued.decoder = frame.alac ∧
      (queued.entries (slotOf seqnum)).audioBufferLen = frame.outputsize := by
  obtain ⟨c, before, stored⟩ := queue_stores (alacCodec around aac) accepted
  obtain ⟨sameCn, decoder, buf, slots⟩ : c.cn = b.cn ∧ c.decoder = b.decoder ∧
      packetBuf (alacCodec around aac) c data datalen.toNat =
        packetBuf (alacCodec around aac) b data datalen.toNat ∧
      ∀ i, (c.entries i).audioBuffer = (b.entries i).audioBuffer := by
    rcases before with rfl | ⟨nextSeq, rfl⟩
    · exact ⟨rfl, rfl, rfl, fun _ => rfl⟩
    · unfold raopBufferFlush
      split <;> exact ⟨rfl, rfl, rfl, fun _ => rfl⟩
  have decoded := storePacket_alac (alacCodec around aac) (sameCn.trans alac) data datalen.toNat
    (packetSeqnum b data useSeqnum)
  dsimp only at decoded ⊢
  rw [stored, decodedFrame, packetAhead, decoded.1, decoded.2, buf, decoder, slots]
  exact ⟨rfl, rfl⟩

/-- A ring set up like `base` whose decoder has written nowhere but in its arrays. -/
structure Decoding (base b : RaopBuffer AlacDecoder) : Prop where
  config : SameConfig base b
  format : Formatted base.alacConfig b.decoder ()

section

variable {base b : RaopBuffer AlacDecoder}

theorem staysInSlot_iff (alac : base.cn = 1) (bitDepth : base.alacConfig.bitDepth = 16)
    (numChannels : base.alacConfig.numChannels = 2)
    (some_ : 1 ≤ base.alacConfig.frameLength.toNat) (decoding : Decoding base b)
    (call : RingCall) : StaysInSlot around aac b call ↔ PacketFits around aac b call := by
  cases call with
  | queue data datalen useSeqnum =>
      refine forall_congr' fun accepted => ?_
      obtain ⟨config, file, inside⟩ := decoding
      have after := queue_config (alacCodec around aac) config data datalen useSeqnum
      obtain ⟨-, length⟩ := queue_decodes (config.cn.trans alac) accepted
      have size := audioBufferSize_eq bitDepth numChannels
      have within := @alacDecodeFrame_within_iff around.unspecified
        (packetAhead around aac b data datalen) base.alacConfig.frameLength.toNat b.decoder some_
        (by rw [file, alacOpen, alacSetInfo_decoderInfo, bitDepth])
        (by rw [file, alacOpen, alacSetInfo_decoderInfo, numChannels]; rfl)
        (by rw [file, alacOpen, alacSetInfo_decoderInfo, bitDepth, numChannels]; rfl)
        inside (base.alacConfig.frameLength.toNat % 2 ^ 27) (Nat.mod_le _ _)
        (slotBuffer (b.entries (slotOf (packetSeqnum b data useSeqnum))).audioBuffer)
        (Nat.zero_le _)
      rw [file] at within
      dsimp only at within length ⊢
      rw [after.sizes, length, config.config, size, mul_comm, ← within, decodedFrame]
      norm_cast
  | dequeue noResend => exact Iff.rfl
  | handleResends => exact Iff.rfl
  | flush nextSeq => exact Iff.rfl

theorem ringCalls_decoding (alac : base.cn = 1) (decoding : Decoding base b) (call : RingCall)
    (stays : StaysInSlot around aac b call) :
    Decoding base ((ringCalls (alacCodec around aac)).step b call).1 := by
  obtain ⟨config, file, inside⟩ := decoding
  refine ⟨ringCalls_config _ config call, ?_⟩
  cases call with
  | queue data datalen useSeqnum =>
      simp only [ringCalls]
      by_cases accepted : (raopBufferQueue (alacCodec around aac) b data datalen useSeqnum).2 = 1
      · obtain ⟨decoder, -⟩ := queue_decodes (config.cn.trans alac) accepted
        obtain ⟨-, within, -⟩ := stays accepted
        rw [decoder]
        exact ⟨(alacDecodeFrame_file _).trans file, config.config ▸ within⟩
      · have effect := queue_effect (alacCodec around aac) b (.inl (config.cn.trans alac)) data
          datalen useSeqnum
        cases effect with
        | dropped same refused =>
            rw [same]
            exact ⟨file, inside⟩
        | fresh took => exact absurd took accepted
        | opened took => exact absurd took accepted
        | restarted took => exact absurd took accepted
  | dequeue noResend =>
      have same : (raopBufferDequeue b noResend).1.decoder = b.decoder := by
        rcases dequeue_effect b noResend with unchanged | ⟨freed, -, -, -, after⟩
        · rw [unchanged]
        · rw [after]
      simp only [ringCalls]
      rw [same]
      exact ⟨file, inside⟩
  | handleResends =>
      have same : (raopBufferHandleResends b).1.decoder = b.decoder := by
        rw [raopBufferHandleResends]
        split_ifs <;> rfl
      simp only [ringCalls]
      rw [same]
      exact ⟨file, inside⟩
  | flush nextSeq =>
      simp only [ringCalls]
      rw [flush_decoder]
      exact ⟨file, inside⟩

end

/-- From initialisation on, a run of calls writes inside the slots and the arrays just as long as
each packet says no more than they hold. -/
theorem stays_iff_packets_fit {abi : Abi} {malloc : Malloc} {fmtp : CString}
    {aeskey aesiv : Bytes} {et : ℤ} {b : RaopBuffer AlacDecoder}
    (success : raopBufferInit abi (alacCodec around aac) malloc fmtp aeskey aesiv et 1 = some b)
    (some_ : 1 ≤ b.alacConfig.frameLength.toNat) (calls : List RingCall) :
    (ringCalls (alacCodec around aac)).Admissible (StaysInSlot around aac) b calls ↔
      (ringCalls (alacCodec around aac)).Admissible (PacketFits around aac) b calls := by
  obtain ⟨parsed, -, -, -, alac, formatted⟩ := raopBufferInit_formatted around aac success
  obtain ⟨-, -, -, bitDepth, numChannels⟩ := getFmtpInfo_alac parsed
  obtain ⟨-, related⟩ := init_spec abi _ malloc fmtp aeskey aesiv et 1 b success
  have exact_ := fun c call (decoding : Decoding b c) => @staysInSlot_iff around aac b c alac
    bitDepth numChannels some_ decoding call
  refine Transducer.admissible_congr _ _ _ (Decoding b) (fun c call decoding fits => ?_) exact_
    calls b ⟨related.config, formatted⟩
  exact ringCalls_decoding alac decoding call ((exact_ c call decoding).mpr fits)

end

/-! ## Packets of silence -/

def silentChannel (coefs : List (BitVec 16)) : List Bool :=
  fixedBits 4 0 ++ (fixedBits 4 9 ++ (fixedBits 3 4 ++ (fixedBits 5 coefs.length ++
    tableBits coefs)))

/-- One zero, and a run of zeros behind it. -/
def silentCode (run : ℕ) : List Bool := [false] ++ ([false] ++ fixedBits 4 (run + 1))

def silentMono (count run : ℕ) : List Bool :=
  fixedBits 3 0 ++ (headerBits 0 0 false (some count) ++ (fixedBits 8 0 ++ (fixedBits 8 0 ++
    (silentChannel [] ++ silentCode run))))

def silentStereo (run : ℕ) : List Bool :=
  fixedBits 3 1 ++ (headerBits 0 0 false none ++ (fixedBits 8 0 ++ (fixedBits 8 0 ++
    (silentChannel [256] ++ (silentChannel [] ++ (silentCode run ++ silentCode run))))))

def queueFrame (seqnum : UInt8) (bits : List Bool) : RingCall :=
  let data := [0x80, 0x60, 0, seqnum, 0, 0, 0, 7, 0, 0, 0, 0] ++
    packBits (bits ++ List.replicate 7 false)
  .queue data (BitVec.ofNat 16 data.length) true

/-- A whole frame, a short one, and one whose run of zeros is longer than a frame. -/
def silence (run : ℕ) : List RingCall :=
  [queueFrame 0 (silentStereo 3), .dequeue false, queueFrame 2 (silentMono 3 2), .handleResends,
    .dequeue true, .flush 40, queueFrame 40 (silentMono 3 run)]

theorem silence_stays_iff :
    ∃ b, raopBufferInit .arm64V8a (alacCodec cleared noAac) (fun _ => some fun _ => 0)
        (CString.lit "96 4 0 16 40 10 14 2 255 0 0 44100") [1] [2] 1 1 = some b ∧
      (ringCalls (alacCodec cleared noAac)).Admissible (StaysInSlot cleared noAac) b (silence 3) ∧
      ¬ (ringCalls (alacCodec cleared noAac)).Admissible (StaysInSlot cleared noAac) b
        (silence 4) := by
  have exact_ := fun b opened => @stays_iff_packets_fit cleared noAac .arm64V8a
    (fun _ => some fun _ => 0) (CString.lit "96 4 0 16 40 10 14 2 255 0 0 44100") [1] [2] 1 b opened
  exact ⟨_, rfl, (exact_ _ rfl (by decide) _).mpr (by decide +kernel),
    (exact_ _ rfl (by decide) _).not.mpr (by decide +kernel)⟩

/-- Two samples in a slot for one. -/
theorem twoSamples_overrun :
    ∃ b, raopBufferInit .arm64V8a (alacCodec cleared noAac) (fun _ => some fun _ => 0)
        (CString.lit "96 1 0 16 40 10 14 2 255 0 0 44100") [1] [2] 1 1 = some b ∧
      b.alacConfig.frameLength = 1 ∧
      ¬ (ringCalls (alacCodec cleared noAac)).Admissible (StaysInSlot cleared noAac) b
        [queueFrame 0 (verbatimBits [(1, 2), (3, 4)])] := by
  refine ⟨_, rfl, by decide, by decide +kernel⟩

end AirCast.Raop
