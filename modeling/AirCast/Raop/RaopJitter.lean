import AirCast.Lib.JitterBuffer
import AirCast.Lib.SerialNumber
import AirCast.Raop.RaopBuffer

/-! # The audio ring refines the ideal jitter buffer

`Refines` ties the wrapped counters, the slot flags and `is_empty` of the ring
to a window over unbounded numbers: every number of the window is shown by its
own slot, and `last_seqnum` is the greatest number accepted, or the one before
`first_seqnum`.  Each operation preserves it as long as a packet lies within
half the 16-bit range of the next number, and is decoded over all of the audio that
an earlier packet left in the slot. -/

set_option autoImplicit false

namespace AirCast.Raop

open AirCast.SerialNumber
open AirCast.JitterBuffer (Window Ideal Emission)

variable {δ : Type}

/-! ## Runs -/

/-- One call on the ring.  `n` is the unbounded number behind the packet's
sequence field or behind the flush target; the ring never sees it. -/
inductive RingOp where
  | queue (n : ℤ) (data : Bytes) (datalen : BitVec 16)
  | dequeue (noResend : Bool)
  | flush (n : ℤ) (nextSeq : ℤ)
  deriving DecidableEq

def ringStep (codec : AudioCodec δ) (b : RaopBuffer δ) :
    RingOp → RaopBuffer δ × Option Dequeued
  | .queue _ data datalen => ((raopBufferQueue codec b data datalen true).1, none)
  | .dequeue noResend => raopBufferDequeue b noResend
  | .flush _ nextSeq => (raopBufferFlush b nextSeq, none)

def ring (codec : AudioCodec δ) : Transducer (RaopBuffer δ) RingOp (Option Dequeued) :=
  ⟨ringStep codec⟩

def LengthOk (datalen : BitVec 16) : Prop :=
  12 ≤ datalen.toNat ∧ datalen.toNat ≤ raopPacketLen

instance (datalen : BitVec 16) : Decidable (LengthOk datalen) :=
  inferInstanceAs (Decidable (_ ∧ _))

def SeqInRange (nextSeq : ℤ) : Prop := 0 ≤ nextSeq ∧ nextSeq ≤ 0xffff

instance (nextSeq : ℤ) : Decidable (SeqInRange nextSeq) :=
  inferInstanceAs (Decidable (_ ∧ _))

/-- What is heard of a packet. -/
structure Pcm where
  audio : Bytes
  outputlen : ℤ
  deriving DecidableEq

def Frame.pcm (frame : Frame) : Pcm := ⟨frame.slot.take frame.outputlen.toNat, frame.outputlen⟩

abbrev Decoded := Pcm × BitVec 32

/-- What the decoder makes of a packet over what is in the slot, in a ring configured like
`base`. -/
def decodeOver (codec : AudioCodec δ) (base : RaopBuffer δ) (decoder : δ)
    (packet : Bytes × BitVec 16) (slot : Bytes) : δ × Frame :=
  (decodeFrame codec base.cn decoder (packetBuf codec base packet.1 packet.2.toNat)
    packet.2.toNat slot (audioBufferSize base.alacConfig)).getD (decoder, ⟨slot, 0, true⟩)

def decodePacket (codec : AudioCodec δ) (base : RaopBuffer δ) (decoder : δ)
    (packet : Bytes × BitVec 16) : δ × Decoded :=
  let out := decodeOver codec base decoder packet
    (List.replicate (audioBufferSize base.alacConfig).toNat 0)
  (out.1, (out.2.pcm, be32 packet.1 4))

/-- The decoder overwrites all bytes that it reports, and writes nowhere else. -/
def WritesWhole (codec : AudioCodec δ) (base : RaopBuffer δ) (decoder : δ)
    (packet : Bytes × BitVec 16) : Prop :=
  ∀ slot : Bytes, slot.length = (audioBufferSize base.alacConfig).toNat →
    let out := decodeOver codec base decoder packet slot
    out.2.inside = true ∧ out.2.outputlen ≤ slot.length ∧
      out.1 = (decodePacket codec base decoder packet).1 ∧
        out.2.pcm = (decodePacket codec base decoder packet).2.1

def idealOp : RingOp → JitterBuffer.Op (Bytes × BitVec 16)
  | .queue n data datalen => if LengthOk datalen then .offer n (data, datalen) else .reject
  | .dequeue noResend => .emit noResend
  | .flush n nextSeq => .flush (if SeqInRange nextSeq then some n else none)

/-- The ideal jitter buffer driven by the calls made on the ring. -/
def idealRing (codec : AudioCodec δ) (base : RaopBuffer δ) :
    Transducer (Ideal δ Decoded) RingOp (Option (Emission (ℕ × Decoded))) :=
  (JitterBuffer.machine raopBufferLength (decodePacket codec base)).comap idealOp

/-- The unbounded numbers agree with the 16-bit fields, and a packet offered to
a synchronised buffer lies within `2 ^ 15 - 1` of its next number. -/
def InHalfRange (s : Ideal δ Decoded) : RingOp → Prop
  | .queue n data datalen =>
      LengthOk datalen → be16 data 2 = wrap 16 n ∧
        ∀ w ∈ s.buffer, |n - w.first| ≤ 2 ^ 15 - 1
  | .dequeue _ => True
  | .flush n nextSeq => SeqInRange nextSeq → wrap 16 n = wrap 16 nextSeq

instance (s : Ideal δ Decoded) : ∀ op, Decidable (InHalfRange s op)
  | .queue n data datalen =>
      inferInstanceAs (Decidable (LengthOk datalen → be16 data 2 = wrap 16 n ∧
        ∀ w ∈ s.buffer, |n - w.first| ≤ 2 ^ 15 - 1))
  | .dequeue _ => isTrue trivial
  | .flush n nextSeq =>
      inferInstanceAs (Decidable (SeqInRange nextSeq → wrap 16 n = wrap 16 nextSeq))

/-- A packet that is neither late nor a duplicate is decoded over its whole slot. -/
def Overwrites (codec : AudioCodec δ) (base : RaopBuffer δ) (s : Ideal δ Decoded) :
    RingOp → Prop
  | .queue n data datalen =>
      LengthOk datalen →
        JitterBuffer.verdict raopBufferLength s.buffer n = .fresh ∨
            JitterBuffer.verdict raopBufferLength s.buffer n = .restart →
          WritesWhole codec base s.decoder (data, datalen)
  | .dequeue _ => True
  | .flush _ _ => True

def render (size : ℤ) : Option (Emission (ℕ × Decoded)) → Option Dequeued
  | none => none
  | some ⟨_, some (_, pcm, timestamp)⟩ => some ⟨pcm.audio, pcm.outputlen, some timestamp⟩
  | some ⟨_, none⟩ => some ⟨List.replicate size.toNat 0, size, none⟩

/-! ## Wrapped numbers -/

theorem seqnumCmp_eq (a b : BitVec 16) : seqnumCmp a b = signedDiff a b :=
  (signedDiff_eq_bmod a b).symm

theorem seqnumCmp_wrap (a b : ℤ) (lower : -32768 ≤ a - b) (upper : a - b < 32768) :
    seqnumCmp (wrap 16 a) (wrap 16 b) = a - b := by
  rw [seqnumCmp_eq, signedDiff_wrap]
  · norm_num
    omega
  · norm_num
    omega

theorem slotOf_wrap (a b : ℤ) (same : slotOf (wrap 16 a) = slotOf (wrap 16 b)) :
    a % 32 = b % 32 := by
  have values := congrArg Fin.val same
  simp only [slotOf, raopBufferLength] at values
  rw [wrap_toNat_mod 16 32 a (by decide), wrap_toNat_mod 16 32 b (by decide)] at values
  omega

theorem slotOf_wrap_injective (first a b : ℤ) (ha : first ≤ a ∧ a < first + 32)
    (hb : first ≤ b ∧ b < first + 32) (same : slotOf (wrap 16 a) = slotOf (wrap 16 b)) :
    a = b :=
  eq_of_emod_eq 32 first a b (slotOf_wrap a b same) ha hb

theorem wrap_succ (n : ℤ) : wrap 16 n + 1 = wrap 16 (n + 1) := wrap_add 16 n 1

/-! ## The simulation relation -/

def SlotShows (entry : RaopBufferEntry) (n : ℤ) : Option (ℕ × Decoded) → Prop
  | none => entry.available = false
  | some (_, pcm, timestamp) =>
      entry.available = true ∧ entry.seqnum = wrap 16 n ∧
        entry.audioBuffer.take entry.audioBufferLen.toNat = pcm.audio ∧
          entry.audioBufferLen = pcm.outputlen ∧ entry.timestamp = timestamp

/-- `last` is the greatest number accepted, or the one before the window. -/
structure LastOf (w : Window (ℕ × Decoded)) (last : ℤ) : Prop where
  lower : w.first - 1 ≤ last
  upper : last < w.first + 32
  held : w.first ≤ last → (w.accepted last).isSome
  greatest : ∀ n, (w.accepted n).isSome → n ≤ last

structure RingShows (b : RaopBuffer δ) (w : Window (ℕ × Decoded)) : Prop where
  synced : b.isEmpty = false
  first : b.firstSeqnum = wrap 16 w.first
  last : ∃ last, b.lastSeqnum = wrap 16 last ∧ LastOf w last
  slots : ∀ n, w.first ≤ n → n < w.first + 32 →
    SlotShows (b.entries (slotOf (wrap 16 n))) n (w.accepted n)

/-- The fields no operation writes, and the sizes of the slots. -/
structure SameConfig (base b : RaopBuffer δ) : Prop where
  aeskey : b.aeskey = base.aeskey
  aesiv : b.aesiv = base.aesiv
  config : b.alacConfig = base.alacConfig
  et : b.et = base.et
  cn : b.cn = base.cn
  sizes : ∀ i, (b.entries i).audioBufferSize = audioBufferSize base.alacConfig
  slots : ∀ i, (b.entries i).audioBuffer.length = (audioBufferSize base.alacConfig).toNat

def BufferShows (b : RaopBuffer δ) : JitterBuffer.Buffer (ℕ × Decoded) → Prop
  | none => b.isEmpty = true ∧ ∀ i, (b.entries i).available = false
  | some w => RingShows b w

structure Refines (base b : RaopBuffer δ) (s : Ideal δ Decoded) : Prop where
  config : SameConfig base b
  decoder : b.decoder = s.decoder
  view : BufferShows b s.buffer

/-! ## Flush -/

theorem flush_available (b : RaopBuffer δ) (nextSeq : ℤ) (i : Fin raopBufferLength) :
    ((raopBufferFlush b nextSeq).entries i).available = false := by
  unfold raopBufferFlush
  split <;> rfl

theorem flush_config (base b : RaopBuffer δ) (nextSeq : ℤ) (config : SameConfig base b) :
    SameConfig base (raopBufferFlush b nextSeq) := by
  obtain ⟨aeskey, aesiv, alac, et, cn, sizes, slots⟩ := config
  unfold raopBufferFlush
  split <;> exact ⟨aeskey, aesiv, alac, et, cn, sizes, slots⟩

theorem flush_decoder (b : RaopBuffer δ) (nextSeq : ℤ) :
    (raopBufferFlush b nextSeq).decoder = b.decoder := by
  unfold raopBufferFlush
  split <;> rfl

theorem flush_inRange (b : RaopBuffer δ) (nextSeq : ℤ) (inRange : SeqInRange nextSeq) :
    (raopBufferFlush b nextSeq).isEmpty = b.isEmpty ∧
      (raopBufferFlush b nextSeq).firstSeqnum = wrap 16 nextSeq ∧
      (raopBufferFlush b nextSeq).lastSeqnum = wrap 16 (nextSeq - 1) := by
  unfold raopBufferFlush
  have fits : ¬ (nextSeq < 0 ∨ 0xffff < nextSeq) := by
    unfold SeqInRange at inRange
    omega
  rw [if_neg fits]
  exact ⟨rfl, rfl, rfl⟩

theorem flush_outOfRange (b : RaopBuffer δ) (nextSeq : ℤ) (outside : ¬ SeqInRange nextSeq) :
    (raopBufferFlush b nextSeq).isEmpty = true := by
  unfold raopBufferFlush
  have wild : nextSeq < 0 ∨ 0xffff < nextSeq := by
    unfold SeqInRange at outside
    omega
  rw [if_pos wild]

theorem lastOf_moved (n : ℤ) : LastOf ⟨n, fun _ => none⟩ (n - 1) where
  lower := le_rfl
  upper := by dsimp only; omega
  held := by intro h; dsimp only at h; omega
  greatest := by intro m present; simp at present

theorem flush_refines (base b : RaopBuffer δ) (s : Ideal δ Decoded) (n nextSeq : ℤ)
    (related : Refines base b s) (lifted : SeqInRange nextSeq → wrap 16 n = wrap 16 nextSeq) :
    Refines base (raopBufferFlush b nextSeq)
      { s with buffer := JitterBuffer.flush s.buffer (if SeqInRange nextSeq then some n else none) } := by
  refine ⟨flush_config base b nextSeq related.config, ?_, ?_⟩
  · rw [flush_decoder]
    exact related.decoder
  · by_cases inRange : SeqInRange nextSeq
    · obtain ⟨empty, first, last⟩ := flush_inRange b nextSeq inRange
      have target := lifted inRange
      rw [if_pos inRange]
      have view := related.view
      cases hb : s.buffer with
      | none =>
          rw [hb] at view
          exact ⟨by rw [empty]; exact view.1, flush_available b nextSeq⟩
      | some w =>
          rw [hb] at view
          refine ⟨by rw [empty]; exact view.synced, by rw [first, ← target], ⟨n - 1, ?_,
            lastOf_moved n⟩, fun m _ _ => flush_available b nextSeq _⟩
          rw [last, wrap_sub, wrap_sub, target]
    · rw [if_neg inRange]
      exact ⟨flush_outOfRange b nextSeq inRange, flush_available b nextSeq⟩

/-! ## Storing a packet -/

theorem packetBuf_config (codec : AudioCodec δ) (base b : RaopBuffer δ)
    (config : SameConfig base b) (data : Bytes) (datalen : ℕ) :
    packetBuf codec b data datalen = packetBuf codec base data datalen := by
  unfold packetBuf
  rw [config.et, config.aeskey, config.aesiv]

/-- What `storePacket` leaves, field by field. -/
structure Stored (codec : AudioCodec δ) (base b : RaopBuffer δ) (data : Bytes)
    (datalen : BitVec 16) (seqnum : BitVec 16) (after : RaopBuffer δ) : Prop where
  config : SameConfig base after
  decoder : after.decoder = (decodePacket codec base b.decoder (data, datalen)).1
  synced : after.isEmpty = false
  first : after.firstSeqnum = if b.isEmpty then seqnum else b.firstSeqnum
  last : after.lastSeqnum =
    if b.isEmpty then seqnum
    else if 0 < seqnumCmp seqnum b.lastSeqnum then seqnum else b.lastSeqnum
  slot : ∀ n tag, seqnum = wrap 16 n → SlotShows (after.entries (slotOf seqnum)) n
    (some (tag, (decodePacket codec base b.decoder (data, datalen)).2))
  others : ∀ i, i ≠ slotOf seqnum → after.entries i = b.entries i

theorem seqnumCmp_self (a : BitVec 16) : seqnumCmp a a = 0 := by
  simp [seqnumCmp]

theorem update_slots {base b : RaopBuffer δ} (config : SameConfig base b)
    (i : Fin raopBufferLength) (entry : RaopBufferEntry)
    (size : entry.audioBufferSize = (b.entries i).audioBufferSize)
    (length : entry.audioBuffer.length = (b.entries i).audioBuffer.length)
    (j : Fin raopBufferLength) :
    (Function.update b.entries i entry j).audioBufferSize = audioBufferSize base.alacConfig ∧
      (Function.update b.entries i entry j).audioBuffer.length =
        (audioBufferSize base.alacConfig).toNat := by
  rw [Function.update_apply]
  split
  · exact ⟨size.trans (config.sizes i), length.trans (config.slots i)⟩
  · exact ⟨config.sizes j, config.slots j⟩

theorem storePacket_config (codec : AudioCodec δ) {base b : RaopBuffer δ}
    (config : SameConfig base b) (data : Bytes) (datalen : ℕ) (seqnum : BitVec 16) :
    SameConfig base (storePacket codec b data datalen seqnum).1 := by
  have kept : ∀ (entry : RaopBufferEntry) (next : RaopBuffer δ),
      entry.audioBufferSize = (b.entries (slotOf seqnum)).audioBufferSize →
      entry.audioBuffer.length = (b.entries (slotOf seqnum)).audioBuffer.length →
      next.aeskey = b.aeskey ∧ next.aesiv = b.aesiv ∧ next.alacConfig = b.alacConfig ∧
        next.et = b.et ∧ next.cn = b.cn →
      next.entries = Function.update b.entries (slotOf seqnum) entry → SameConfig base next := by
    rintro entry next size length ⟨aeskey, aesiv, alac, et, cn⟩ entries
    have updated := update_slots config _ _ size length
    exact ⟨aeskey.trans config.aeskey, aesiv.trans config.aesiv, alac.trans config.config,
      et.trans config.et, cn.trans config.cn, fun i => entries ▸ (updated i).1,
      fun i => entries ▸ (updated i).2⟩
  unfold storePacket
  dsimp only
  split
  · refine kept (headerEntry (b.entries (slotOf seqnum)) data seqnum) _ ?_ ?_
      ⟨rfl, rfl, rfl, rfl, rfl⟩ rfl <;> rfl
  · rename_i decoder frame decodes
    have stored := kept { headerEntry (b.entries (slotOf seqnum)) data seqnum with
      audioBuffer := frame.slot, audioBufferLen := frame.outputlen }
    have length := decodeFrame_slot decodes
    split_ifs <;> exact stored _ rfl length ⟨rfl, rfl, rfl, rfl, rfl⟩ rfl

theorem storePacket_stored (codec : AudioCodec δ) (base b : RaopBuffer δ)
    (config : SameConfig base b) (known : KnownCn base.cn) (data : Bytes)
    (datalen seqnum : BitVec 16) (whole : WritesWhole codec base b.decoder (data, datalen)) :
    Stored codec base b data datalen seqnum (storePacket codec b data datalen.toNat seqnum).1 := by
  let slot := (b.entries (slotOf seqnum)).audioBuffer
  obtain ⟨⟨decoder, frame⟩, decodes⟩ := decodeFrame_known codec base.cn known b.decoder
    (packetBuf codec base data datalen.toNat) datalen.toNat slot (audioBufferSize base.alacConfig)
  have made : decodeOver codec base b.decoder (data, datalen) slot = (decoder, frame) := by
    simp only [decodeOver, decodes, Option.getD_some]
  obtain ⟨-, -, nextDecoder, heard⟩ := whole slot (config.slots (slotOf seqnum))
  rw [made] at nextDecoder heard
  have ring : decodeFrame codec b.cn b.decoder (packetBuf codec b data datalen.toNat)
      datalen.toNat (headerEntry (b.entries (slotOf seqnum)) data seqnum).audioBuffer
      (headerEntry (b.entries (slotOf seqnum)) data seqnum).audioBufferSize =
        some (decoder, frame) := by
    rw [config.cn, packetBuf_config codec base b config]
    exact (congrArg _ (config.sizes _)).trans decodes
  have updated := update_slots config (slotOf seqnum)
    { headerEntry (b.entries (slotOf seqnum)) data seqnum with
      audioBuffer := frame.slot, audioBufferLen := frame.outputlen }
    rfl (decodeFrame_slot decodes)
  have shown : ∀ n tag, seqnum = wrap 16 n →
      SlotShows { headerEntry (b.entries (slotOf seqnum)) data seqnum with
          audioBuffer := frame.slot, audioBufferLen := frame.outputlen } n
        (some (tag, (decodePacket codec base b.decoder (data, datalen)).2)) := by
    intro n tag number
    obtain ⟨audio, outputlen⟩ := Pcm.mk.inj heard
    exact ⟨rfl, number, audio, outputlen, rfl⟩
  obtain ⟨aeskey, aesiv, alac, et, cn, -, -⟩ := config
  have finish : ∀ first last : BitVec 16,
      first = (if b.isEmpty then seqnum else b.firstSeqnum) →
      last = (if b.isEmpty then seqnum
        else if 0 < seqnumCmp seqnum b.lastSeqnum then seqnum else b.lastSeqnum) →
      Stored codec base b data datalen seqnum
        { b with
          decoder := decoder
          isEmpty := false
          firstSeqnum := first
          lastSeqnum := last
          entries := Function.update b.entries (slotOf seqnum)
            { headerEntry (b.entries (slotOf seqnum)) data seqnum with
              audioBuffer := frame.slot, audioBufferLen := frame.outputlen } } := by
    intro first last hfirst hlast
    refine ⟨⟨aeskey, aesiv, alac, et, cn, fun i => (updated i).1, fun i => (updated i).2⟩,
      nextDecoder, rfl, hfirst, hlast, ?_, ?_⟩
    · intro n tag number
      dsimp only
      rw [Function.update_self]
      exact shown n tag number
    · intro i other
      exact Function.update_of_ne other _ _
  unfold storePacket
  simp only [ring]
  cases empty : b.isEmpty with
  | true =>
      simp only [if_pos, seqnumCmp_self, lt_self_iff_false, if_false]
      exact finish seqnum seqnum (by rw [empty, if_pos rfl]) (by rw [empty, if_pos rfl])
  | false =>
      simp only [Bool.false_eq_true, if_false]
      split
      · rename_i ahead
        have := finish b.firstSeqnum seqnum (by simp [empty]) (by simp [empty, ahead])
        simpa [empty] using this
      · rename_i behind
        have := finish b.firstSeqnum b.lastSeqnum (by simp [empty]) (by simp [empty, behind])
        simpa [empty] using this

section Queue

variable {codec : AudioCodec δ} {base b after : RaopBuffer δ} {w : Window (ℕ × Decoded)}

theorem lastOf_accept (last n : ℤ) (a : ℕ × Decoded) (lastOf : LastOf w last)
    (lower : w.first ≤ n) (upper : n < w.first + 32) :
    LastOf (w.accept n a) (if 0 < n - last then n else last) where
  lower := by
    have := lastOf.lower
    simp only [Window.accept]
    split <;> omega
  upper := by
    have := lastOf.upper
    simp only [Window.accept]
    split <;> omega
  held := by
    intro nonempty
    simp only [Window.accept, Function.update_apply] at nonempty ⊢
    by_cases ahead : 0 < n - last
    · simp only [if_pos ahead, if_true, Option.isSome_some]
    · rw [if_neg ahead] at nonempty ⊢
      split
      · rfl
      · exact lastOf.held nonempty
  greatest := by
    intro m present
    simp only [Window.accept, Function.update_apply] at present
    split at present
    · split <;> omega
    · have := lastOf.greatest m present
      split <;> omega

theorem stored_fresh {data : Bytes} {datalen seqnum : BitVec 16} {n : ℤ} (tag : ℕ)
    (stored : Stored codec base b data datalen seqnum after) (shows : RingShows b w)
    (number : seqnum = wrap 16 n) (lower : w.first ≤ n) (upper : n < w.first + 32) :
    RingShows after
      (w.accept n (tag, (decodePacket codec base b.decoder (data, datalen)).2)) := by
  obtain ⟨last, hlast, lastOf⟩ := shows.last
  refine ⟨stored.synced, ?_, ⟨_, ?_, lastOf_accept last n _ lastOf lower upper⟩, ?_⟩
  · rw [stored.first, shows.synced]
    exact shows.first
  · have := lastOf.lower
    have := lastOf.upper
    rw [stored.last, shows.synced, hlast, number, seqnumCmp_wrap n last (by omega) (by omega)]
    simp only [Bool.false_eq_true, if_false]
    split <;> rfl
  · intro m mLower mUpper
    simp only [Window.accept] at mLower mUpper ⊢
    by_cases same : m = n
    · subst same
      rw [Function.update_self, ← number]
      exact stored.slot m tag number
    · rw [Function.update_of_ne same]
      have apart : slotOf (wrap 16 m) ≠ slotOf seqnum := by
        intro shared
        rw [number] at shared
        exact same (slotOf_wrap_injective w.first m n ⟨mLower, mUpper⟩ ⟨lower, upper⟩ shared)
      rw [stored.others _ apart]
      exact shows.slots m mLower mUpper

theorem lastOf_start (n : ℤ) (a : ℕ × Decoded) : LastOf (Window.start n a) n where
  lower := by simp [Window.start]
  upper := by simp [Window.start]
  held := by simp [Window.start]
  greatest := by
    intro m present
    simp only [Window.start, Function.update_apply] at present
    split at present
    · omega
    · simp at present

theorem stored_start {data : Bytes} {datalen seqnum : BitVec 16} {n : ℤ} (tag : ℕ)
    (stored : Stored codec base b data datalen seqnum after) (empty : b.isEmpty = true)
    (cleared : ∀ i, (b.entries i).available = false) (number : seqnum = wrap 16 n) :
    RingShows after
      (Window.start n (tag, (decodePacket codec base b.decoder (data, datalen)).2)) := by
  refine ⟨stored.synced, ?_, ⟨n, ?_, lastOf_start n _⟩, ?_⟩
  · rw [stored.first, empty]
    exact number
  · rw [stored.last, empty]
    exact number
  · intro m mLower mUpper
    simp only [Window.start] at mLower mUpper ⊢
    by_cases same : m = n
    · subst same
      rw [Function.update_self, ← number]
      exact stored.slot m tag number
    · rw [Function.update_of_ne same]
      have apart : slotOf (wrap 16 m) ≠ slotOf seqnum := by
        intro shared
        rw [number] at shared
        exact same (slotOf_wrap_injective n m n ⟨mLower, mUpper⟩ (by omega) shared)
      rw [stored.others _ apart]
      exact cleared _

theorem duplicate_iff {n : ℤ} (shows : RingShows b w) (lower : w.first ≤ n)
    (upper : n < w.first + 32) :
    ((b.entries (slotOf (wrap 16 n))).available = true ∧
        seqnumCmp (b.entries (slotOf (wrap 16 n))).seqnum (wrap 16 n) = 0) ↔
      (w.accepted n).isSome = true := by
  have slot := shows.slots n lower upper
  cases held : w.accepted n with
  | none =>
      rw [held] at slot
      simp only [SlotShows] at slot
      simp [slot]
  | some a =>
      rw [held] at slot
      obtain ⟨available, seqnum, -⟩ := slot
      simp [available, seqnum, seqnumCmp_self]

theorem flush_synced {n : ℤ} (shows : RingShows b w) (seqnum : BitVec 16)
    (number : seqnum = wrap 16 n) :
    RingShows (raopBufferFlush b seqnum.toNat) ⟨n, fun _ => none⟩ := by
  have inRange : SeqInRange seqnum.toNat := by
    have := seqnum.isLt
    unfold SeqInRange
    omega
  obtain ⟨empty, first, last⟩ := flush_inRange b seqnum.toNat inRange
  refine ⟨by rw [empty]; exact shows.synced, ?_, ⟨n - 1, ?_, lastOf_moved n⟩,
    fun m _ _ => flush_available b _ _⟩
  · rw [first, wrap_toNat, number]
  · rw [last, wrap_sub, wrap_toNat, wrap_sub, number]

/-- Queueing into a synchronised ring follows the verdict on the number. -/
theorem queue_synced (codec : AudioCodec δ) (shows : RingShows b w) (config : SameConfig base b)
    (known : KnownCn base.cn) {data : Bytes} {datalen : BitVec 16} {n : ℤ} (tag : ℕ)
    (length : LengthOk datalen) (number : be16 data 2 = wrap 16 n)
    (near : |n - w.first| ≤ 2 ^ 15 - 1)
    (whole : w.classify 32 n = .fresh ∨ w.classify 32 n = .restart →
      WritesWhole codec base b.decoder (data, datalen)) :
    let queued := (raopBufferQueue codec b data datalen true).1
    let decoded := decodePacket codec base b.decoder (data, datalen)
    match w.classify 32 n with
    | .late | .duplicate => queued = b
    | .fresh => SameConfig base queued ∧ queued.decoder = decoded.1 ∧
        RingShows queued (w.accept n (tag, decoded.2))
    | .restart => SameConfig base queued ∧ queued.decoder = decoded.1 ∧
        RingShows queued (Window.start n (tag, decoded.2)) := by
  have bounds := abs_le.mp near
  have fits : ¬ (datalen.toNat < 12 ∨ raopPacketLen < datalen.toNat) := by
    unfold LengthOk at length
    omega
  have behind : seqnumCmp (wrap 16 n) b.firstSeqnum = n - w.first := by
    rw [shows.first, seqnumCmp_wrap _ _ (by omega) (by omega)]
  have notBehind : w.first ≤ n →
      seqnumCmp (wrap 16 n) (b.firstSeqnum + BitVec.ofNat 16 raopBufferLength) =
        n - (w.first + 32) := by
    intro lower
    have shifted : b.firstSeqnum + BitVec.ofNat 16 raopBufferLength = wrap 16 (w.first + 32) := by
      rw [shows.first, ← wrap_add]
      rfl
    rw [shifted, seqnumCmp_wrap _ _ (by omega) (by omega)]
  simp only [raopBufferQueue, if_neg fits, if_true, number, behind, shows.synced, true_and]
  unfold Window.classify at whole ⊢
  by_cases late : n < w.first
  · have negative : n - w.first < 0 := by omega
    simp only [if_pos late, if_pos negative]
  · have lower : w.first ≤ n := by omega
    have nonnegative : ¬ n - w.first < 0 := by omega
    simp only [if_neg late, if_neg nonnegative, notBehind lower]
    by_cases ahead : w.first + (32 : ℕ) ≤ n
    · have overrun : 0 ≤ n - (w.first + 32) := by omega
      have flushed := flush_synced shows (wrap 16 n) rfl
      have empty := flush_available b (wrap 16 n).toNat (slotOf (wrap 16 n))
      have stored := storePacket_stored codec base (raopBufferFlush b (wrap 16 n).toNat)
        (flush_config base b _ config) known data datalen (wrap 16 n)
        (by simpa only [flush_decoder, if_neg late, if_pos ahead, reduceCtorEq, false_or,
          true_implies] using whole)
      simp only [if_pos ahead, if_pos overrun, empty, Bool.false_eq_true, false_and, if_false]
      refine ⟨stored.config, ?_, ?_⟩
      · rw [stored.decoder, flush_decoder]
      · have opened := stored_fresh tag stored flushed rfl (le_refl n) (by dsimp only; omega)
        rw [flush_decoder] at opened
        exact opened
    · have inside : ¬ 0 ≤ n - (w.first + 32) := by omega
      have upper : n < w.first + 32 := by omega
      have duplicate := duplicate_iff shows lower upper
      simp only [if_neg ahead, if_neg inside]
      by_cases held : (w.accepted n).isSome = true
      · simp only [held, if_true, if_pos (duplicate.mpr held)]
      · have stored := storePacket_stored codec base b config known data datalen (wrap 16 n)
          (by simpa only [if_neg late, if_neg ahead, if_neg held, reduceCtorEq, or_false,
            true_implies] using whole)
        simp only [held, if_neg (mt duplicate.mp held)]
        exact ⟨stored.config, stored.decoder, stored_fresh tag stored shows rfl lower upper⟩

/-- Queueing into an unsynchronised ring opens a window. -/
theorem queue_unsynced (codec : AudioCodec δ) (empty : b.isEmpty = true)
    (cleared : ∀ i, (b.entries i).available = false) (config : SameConfig base b)
    (known : KnownCn base.cn) {data : Bytes} {datalen : BitVec 16} {n : ℤ} (tag : ℕ)
    (length : LengthOk datalen) (number : be16 data 2 = wrap 16 n)
    (whole : WritesWhole codec base b.decoder (data, datalen)) :
    let queued := (raopBufferQueue codec b data datalen true).1
    let decoded := decodePacket codec base b.decoder (data, datalen)
    SameConfig base queued ∧ queued.decoder = decoded.1 ∧
      RingShows queued (Window.start n (tag, decoded.2)) := by
  have fits : ¬ (datalen.toNat < 12 ∨ raopPacketLen < datalen.toNat) := by
    unfold LengthOk at length
    omega
  have free : ∀ c : RaopBuffer δ, SameConfig base c → c.isEmpty = true →
      (∀ i, (c.entries i).available = false) → c.decoder = b.decoder →
      let queued := (storePacket codec c data datalen.toNat (wrap 16 n)).1
      let decoded := decodePacket codec base b.decoder (data, datalen)
      SameConfig base queued ∧ queued.decoder = decoded.1 ∧
        RingShows queued (Window.start n (tag, decoded.2)) := by
    intro c config empty cleared decoder
    have stored := storePacket_stored codec base c config known data datalen (wrap 16 n)
      (decoder ▸ whole)
    rw [← decoder]
    exact ⟨stored.config, stored.decoder, stored_start tag stored empty cleared rfl⟩
  simp only [raopBufferQueue, if_neg fits, if_true, number, empty, Bool.true_eq_false, false_and,
    if_false]
  by_cases overrun :
      0 ≤ seqnumCmp (wrap 16 n) (b.firstSeqnum + BitVec.ofNat 16 raopBufferLength)
  · have inRange : SeqInRange (wrap 16 n).toNat := by
      have := (wrap 16 n).isLt
      unfold SeqInRange
      omega
    have flushed := flush_available b (wrap 16 n).toNat
    simp only [if_pos overrun, flushed, Bool.false_eq_true, false_and, if_false]
    refine free _ (flush_config base b _ config) ?_ flushed (flush_decoder b _)
    rw [(flush_inRange b _ inRange).1, empty]
  · simp only [if_neg overrun, cleared, Bool.false_eq_true, false_and, if_false]
    exact free b config empty cleared rfl

theorem queue_refines (s : Ideal δ Decoded) (known : KnownCn base.cn) (n : ℤ) (data : Bytes)
    (datalen : BitVec 16) (related : Refines base b s)
    (inRange : InHalfRange s (.queue n data datalen))
    (overwrites : Overwrites codec base s (.queue n data datalen)) :
    Refines base (raopBufferQueue codec b data datalen true).1
      ((idealRing codec base).step s (.queue n data datalen)).1 := by
  simp only [idealRing, Transducer.comap, JitterBuffer.machine, idealOp]
  by_cases length : LengthOk datalen
  · obtain ⟨number, near⟩ := inRange length
    obtain ⟨config, decoder, view⟩ := related
    have whole := overwrites length
    rw [if_pos length]
    rw [← decoder] at whole
    cases hb : s.buffer with
    | none =>
        rw [hb] at view whole
        obtain ⟨sameConfig, sameDecoder, shows⟩ := queue_unsynced codec view.1 view.2 config known
          s.arrivals length number (whole (.inr rfl))
        simp only [JitterBuffer.step, hb, JitterBuffer.verdict, JitterBuffer.place]
        rw [decoder] at sameDecoder shows
        exact ⟨sameConfig, sameDecoder, shows⟩
    | some w =>
        rw [hb] at view whole
        have followed := queue_synced codec view config known s.arrivals length number
          (near w hb) whole
        simp only [JitterBuffer.step, hb, JitterBuffer.verdict, raopBufferLength]
        rw [decoder] at followed
        cases verdict : w.classify 32 n with
        | late =>
            simp only [verdict] at followed ⊢
            rw [followed]
            exact ⟨config, decoder, by simpa only [hb] using view⟩
        | duplicate =>
            simp only [verdict] at followed ⊢
            rw [followed]
            exact ⟨config, decoder, by simpa only [hb] using view⟩
        | fresh =>
            simp only [verdict] at followed ⊢
            obtain ⟨sameConfig, sameDecoder, shows⟩ := followed
            exact ⟨sameConfig, sameDecoder, by
              simp only [JitterBuffer.place, JitterBuffer.verdict, verdict]
              exact shows⟩
        | restart =>
            simp only [verdict] at followed ⊢
            obtain ⟨sameConfig, sameDecoder, shows⟩ := followed
            exact ⟨sameConfig, sameDecoder, by
              simp only [JitterBuffer.place, JitterBuffer.verdict, verdict]
              exact shows⟩
  · rw [if_neg length]
    have rejected : datalen.toNat < 12 ∨ raopPacketLen < datalen.toNat := by
      unfold LengthOk at length
      omega
    simpa only [raopBufferQueue, if_pos rejected, JitterBuffer.step] using related

end Queue

section Dequeue

variable {base b : RaopBuffer δ} {w : Window (ℕ × Decoded)}

theorem pending_iff {last : ℤ} (lastOf : LastOf w last) : w.Pending 32 ↔ w.first ≤ last := by
  constructor
  · rintro ⟨k, -, held⟩
    have := lastOf.greatest _ held
    omega
  · intro nonempty
    have upper := lastOf.upper
    refine ⟨(last - w.first).toNat, by omega, ?_⟩
    have number : w.first + ((last - w.first).toNat : ℤ) = last := by omega
    rw [number]
    exact lastOf.held nonempty

theorem full_iff {last : ℤ} (lastOf : LastOf w last) :
    (w.accepted (w.first + ((32 : ℕ) - 1))).isSome = true ↔ last = w.first + 31 := by
  have upper := lastOf.upper
  constructor
  · intro held
    have := lastOf.greatest _ held
    omega
  · intro full
    have number : w.first + (((32 : ℕ) : ℤ) - 1) = last := by omega
    rw [number]
    exact lastOf.held (by omega)

theorem available_iff (shows : RingShows b w) :
    (b.entries (slotOf b.firstSeqnum)).available = true ↔ (w.accepted w.first).isSome = true := by
  have slot := shows.slots w.first le_rfl (by omega)
  rw [← shows.first] at slot
  cases held : w.accepted w.first with
  | none =>
      rw [held] at slot
      simp only [SlotShows] at slot
      simp [slot]
  | some a =>
      rw [held] at slot
      simp [slot.1]

/-- Handing out the front number frees its slot for the number 32 later. -/
theorem advance_shows (shows : RingShows b w) {last : ℤ} (lastOf : LastOf w last)
    (hlast : b.lastSeqnum = wrap 16 last) (nonempty : w.first ≤ last) (freed : RaopBufferEntry)
    (unavailable : freed.available = false) :
    RingShows { b with
        firstSeqnum := b.firstSeqnum + 1
        entries := Function.update b.entries (slotOf b.firstSeqnum) freed }
      { w with first := w.first + 1 } := by
  have upper := lastOf.upper
  refine ⟨shows.synced, by rw [← wrap_succ, ← shows.first], ⟨last, hlast, ?_⟩, ?_⟩
  · refine ⟨by dsimp only; omega, by dsimp only; omega, ?_, lastOf.greatest⟩
    intro _
    exact lastOf.held nonempty
  · intro m mLower mUpper
    dsimp only at mLower mUpper ⊢
    by_cases edge : m = w.first + 32
    · have vacant : w.accepted m = none := by
        by_contra held
        have := lastOf.greatest m (Option.isSome_iff_ne_none.mpr held)
        omega
      have shared : slotOf (wrap 16 m) = slotOf b.firstSeqnum := by
        apply Fin.ext
        simp only [slotOf, raopBufferLength, shows.first]
        rw [wrap_toNat_mod 16 32 m (by decide), wrap_toNat_mod 16 32 w.first (by decide)]
        omega
      rw [vacant, shared, Function.update_self]
      exact unavailable
    · have apart : slotOf (wrap 16 m) ≠ slotOf b.firstSeqnum := by
        intro shared
        rw [shows.first] at shared
        have := slotOf_wrap_injective w.first m w.first (by omega) (by omega) shared
        omega
      rw [Function.update_of_ne apart]
      exact shows.slots m (by omega) (by omega)

/-- What makes `raop_buffer_dequeue` hand out the front number. -/
def Ready (b : RaopBuffer δ) (noResend : Bool) : Prop :=
  ¬ (b.isEmpty = true ∨ (seqnumCmp b.lastSeqnum b.firstSeqnum + 1).bmod (2 ^ 16) ≤ 0) ∧
    ¬ (noResend = false ∧ (b.entries (slotOf b.firstSeqnum)).available = false ∧
      (seqnumCmp b.lastSeqnum b.firstSeqnum + 1).bmod (2 ^ 16) < raopBufferLength)

theorem dequeue_notReady (noResend : Bool) (blocked : ¬ Ready b noResend) :
    raopBufferDequeue b noResend = (b, none) := by
  simp only [raopBufferDequeue]
  by_cases empty : b.isEmpty = true ∨
      (seqnumCmp b.lastSeqnum b.firstSeqnum + 1).bmod (2 ^ 16) ≤ 0
  · rw [if_pos empty]
  · have stuck := not_not.mp (fun free => blocked ⟨empty, free⟩)
    rw [if_neg empty, if_pos stuck]

theorem dequeue_ready (noResend : Bool) (ready : Ready b noResend) :
    ∃ freed : RaopBufferEntry, freed.available = false ∧
      freed.audioBufferSize = (b.entries (slotOf b.firstSeqnum)).audioBufferSize ∧
      (freed.audioBuffer.length = (b.entries (slotOf b.firstSeqnum)).audioBuffer.length ∨
        freed.audioBuffer.length = freed.audioBufferSize.toNat) ∧
      (raopBufferDequeue b noResend).1 =
        { b with
          firstSeqnum := b.firstSeqnum + 1
          entries := Function.update b.entries (slotOf b.firstSeqnum) freed } := by
  simp only [raopBufferDequeue, if_neg ready.1, if_neg ready.2]
  by_cases vacant : (b.entries (slotOf b.firstSeqnum)).available = false
  · rw [if_pos vacant]
    refine ⟨_, ?_, ?_, ?_, rfl⟩
    · exact vacant
    · rfl
    · exact .inr (List.length_replicate ..)
  · rw [if_neg vacant]
    refine ⟨_, ?_, ?_, ?_, rfl⟩
    · rfl
    · rfl
    · exact .inl rfl

theorem freed_length {freed : RaopBufferEntry} (config : SameConfig base b)
    (size : freed.audioBufferSize = (b.entries (slotOf b.firstSeqnum)).audioBufferSize)
    (length : freed.audioBuffer.length = (b.entries (slotOf b.firstSeqnum)).audioBuffer.length ∨
      freed.audioBuffer.length = freed.audioBufferSize.toNat) :
    freed.audioBuffer.length = (b.entries (slotOf b.firstSeqnum)).audioBuffer.length := by
  rw [config.slots, ← config.sizes (slotOf b.firstSeqnum), ← size] at length ⊢
  exact or_self_iff.mp length

theorem dequeue_answer (noResend : Bool) (ready : Ready b noResend) :
    (raopBufferDequeue b noResend).2 =
      let entry := b.entries (slotOf b.firstSeqnum)
      if entry.available = false then
        some ⟨List.replicate entry.audioBufferSize.toNat 0, entry.audioBufferSize, none⟩
      else
        some ⟨entry.audioBuffer.take entry.audioBufferLen.toNat, entry.audioBufferLen,
          some entry.timestamp⟩ := by
  simp only [raopBufferDequeue, if_neg ready.1, if_neg ready.2]
  split <;> rfl

/-- The ring hands something out exactly when the window does. -/
theorem ready_iff (shows : RingShows b w) {last : ℤ} (lastOf : LastOf w last)
    (hlast : b.lastSeqnum = wrap 16 last) (noResend : Bool) :
    Ready b noResend ↔ w.Emits 32 noResend := by
  have lower := lastOf.lower
  have upper := lastOf.upper
  have buflen : (seqnumCmp b.lastSeqnum b.firstSeqnum + 1).bmod (2 ^ 16) = last - w.first + 1 := by
    rw [hlast, shows.first, seqnumCmp_wrap _ _ (by omega) (by omega)]
    apply Int.bmod_eq_of_le_mul_two <;> norm_num <;> omega
  have front := available_iff shows
  have pending := pending_iff lastOf
  have full := full_iff lastOf
  have waiting : (w.accepted w.first).isSome = true → w.first ≤ last :=
    fun held => lastOf.greatest _ held
  unfold Ready Window.Emits
  rw [buflen, shows.synced, pending, full]
  rw [← front] at waiting ⊢
  simp only [raopBufferLength, Bool.false_eq_true, false_or]
  cases available : (b.entries (slotOf b.firstSeqnum)).available with
  | true =>
      have nonempty := waiting available
      simp only [Bool.true_eq_false, false_and, and_false, not_false_eq_true, true_or, and_true,
        iff_true]
      omega
  | false =>
      cases noResend with
      | true =>
          simp only [Bool.false_eq_true, Bool.true_eq_false, false_and, not_false_eq_true,
            false_or, true_or, and_true]
          omega
      | false =>
          simp only [Bool.false_eq_true, true_and, false_or]
          omega

theorem dequeue_refines (codec : AudioCodec δ) (s : Ideal δ Decoded) (noResend : Bool)
    (related : Refines base b s) :
    Refines base (raopBufferDequeue b noResend).1
        ((idealRing codec base).step s (.dequeue noResend)).1 ∧
      (raopBufferDequeue b noResend).2 =
        render (audioBufferSize base.alacConfig)
          ((idealRing codec base).step s (.dequeue noResend)).2 := by
  obtain ⟨config, decoder, view⟩ := related
  simp only [idealRing, Transducer.comap, JitterBuffer.machine, idealOp, JitterBuffer.step,
    raopBufferLength]
  cases hb : s.buffer with
  | none =>
      rw [hb] at view
      have silent : raopBufferDequeue b noResend = (b, none) :=
        dequeue_notReady noResend fun ready => ready.1 (Or.inl view.1)
      rw [silent]
      exact ⟨⟨config, decoder, view⟩, rfl⟩
  | some w =>
      rw [hb] at view
      obtain ⟨last, hlast, lastOf⟩ := RingShows.last view
      have guard := ready_iff view lastOf hlast noResend
      simp only [JitterBuffer.emit]
      by_cases emits : w.Emits 32 noResend
      · have ready := guard.mpr emits
        have nonempty : w.first ≤ last := by
          rcases emits with held | ⟨pending, -⟩
          · exact lastOf.greatest _ held
          · exact (pending_iff lastOf).mp pending
        obtain ⟨freed, unavailable, size, length, after⟩ := dequeue_ready noResend ready
        have updated := update_slots config _ _ size (freed_length config size length)
        rw [if_pos emits, after, dequeue_answer noResend ready]
        constructor
        · exact ⟨⟨config.aeskey, config.aesiv, config.config, config.et, config.cn,
            fun i => (updated i).1, fun i => (updated i).2⟩, decoder,
            advance_shows view lastOf hlast nonempty freed unavailable⟩
        · have slot := view.slots w.first le_rfl (by omega)
          rw [← view.first] at slot
          cases held : w.accepted w.first with
          | none =>
              rw [held] at slot
              have vacant : (b.entries (slotOf b.firstSeqnum)).available = false := slot
              simp only [vacant, if_true, render, config.sizes]
          | some a =>
              obtain ⟨tag, frame, timestamp⟩ := a
              rw [held] at slot
              obtain ⟨available, -, audio, outputlen, stamp⟩ := slot
              simp only [available, Bool.true_eq_false, if_false, render, audio, stamp]
              rw [outputlen]
      · rw [if_neg emits, dequeue_notReady noResend (mt guard.mp emits)]
        exact ⟨⟨config, decoder, view⟩, rfl⟩

end Dequeue

/-! ## From initialisation -/

theorem init_spec (abi : Abi) (codec : AudioCodec δ) (malloc : Malloc) (fmtp : CString)
    (aeskey aesiv : Bytes) (et cn : ℤ) (b : RaopBuffer δ)
    (success : raopBufferInit abi codec malloc fmtp aeskey aesiv et cn = some b) :
    KnownCn b.cn ∧ Refines b b ⟨b.decoder, 0, none⟩ := by
  unfold raopBufferInit at success
  split at success
  · simp at success
  · dsimp only at success
    split at success
    · rename_i decoder _ opened
      split at success
      · simp at success
      · cases Option.some.inj success
        have known : KnownCn cn := by
          unfold KnownCn
          by_contra unknown
          rw [if_neg (by omega), if_neg (by omega)] at opened
          simp at opened
        exact ⟨known, ⟨⟨rfl, rfl, rfl, rfl, rfl, fun _ => rfl,
          fun _ => by simp [RaopBufferEntry.initial, slotMemory]⟩, rfl, rfl, fun _ => rfl⟩⟩
    · simp at success

/-! ## Whole runs -/

theorem ring_refines (codec : AudioCodec δ) (base : RaopBuffer δ) (known : KnownCn base.cn)
    (b : RaopBuffer δ) (s : Ideal δ Decoded) (op : RingOp) (related : Refines base b s)
    (inRange : InHalfRange s op) (overwrites : Overwrites codec base s op) :
    Refines base ((ring codec).step b op).1 ((idealRing codec base).step s op).1 ∧
      ((ring codec).step b op).2 =
        render (audioBufferSize base.alacConfig) ((idealRing codec base).step s op).2 := by
  cases op with
  | queue n data datalen =>
      refine ⟨queue_refines s known n data datalen related inRange overwrites, ?_⟩
      simp only [idealRing, Transducer.comap, JitterBuffer.machine, idealOp]
      by_cases length : LengthOk datalen
      · rw [if_pos length, JitterBuffer.step]
        cases JitterBuffer.verdict raopBufferLength s.buffer n <;> rfl
      · rw [if_neg length]
        rfl
  | dequeue noResend => exact dequeue_refines codec s noResend related
  | flush n nextSeq => exact ⟨flush_refines base b s n nextSeq related inRange, rfl⟩

/-- From initialisation on, every run of queue, dequeue and flush whose packets are decoded over
their whole slots returns what the ideal buffer returns, and no packet comes out twice. -/
theorem ring_run_refines (abi : Abi) (codec : AudioCodec δ) (malloc : Malloc) (fmtp : CString)
    (aeskey aesiv : Bytes) (et cn : ℤ) (b : RaopBuffer δ)
    (success : raopBufferInit abi codec malloc fmtp aeskey aesiv et cn = some b)
    (ops : List RingOp)
    (admissible : (idealRing codec b).Admissible
      (fun s op => InHalfRange s op ∧ Overwrites codec b s op) ⟨b.decoder, 0, none⟩ ops) :
    ((ring codec).run b ops).2 =
        ((idealRing codec b).run ⟨b.decoder, 0, none⟩ ops).2.map
          (render (audioBufferSize b.alacConfig)) ∧
      (JitterBuffer.tags ((idealRing codec b).run ⟨b.decoder, 0, none⟩ ops).2).Nodup := by
  obtain ⟨known, related⟩ := init_spec abi codec malloc fmtp aeskey aesiv et cn b success
  constructor
  · exact ((ring codec).run_simulates (idealRing codec b) _ _ (Refines b)
      (fun b' s op related good => ring_refines codec b known b' s op related good.1 good.2)
      ops b _ related admissible).2
  · rw [idealRing, Transducer.comap_run]
    exact JitterBuffer.run_emits_once _ _ _ _

def plainPacket (high low tone : UInt8) : Bytes :=
  [0x80, 0x60, high, low, 0, 0, 0, tone, 0, 0, 0, 0, tone, tone, tone, tone]

theorem plainFrame_pcm {packet slot : Bytes} (long : 4 ≤ packet.length) (room : 4 ≤ slot.length) :
    (plainFrame packet slot).pcm = ⟨packet.take 4, 4⟩ := by
  have four : (packet.take 4).length = 4 := by rw [List.length_take]; omega
  simp only [Frame.pcm, plainFrame, four]
  rw [List.take_take, show (4 : ℤ).toNat = 4 from rfl, min_eq_left room, List.take_left' four]

theorem plainCodec_writesWhole {base : RaopBuffer Unit} (alac : base.cn = 1)
    (size : audioBufferSize base.alacConfig = 4) {data : Bytes} (whole : data.length = 16) :
    WritesWhole plainCodec base () (data, 16) := by
  have long : 4 ≤ (packetBuf plainCodec base data (16 : BitVec 16).toNat).length := by
    simp [packetBuf, whole]
  have over_ : ∀ slot, decodeOver plainCodec base () (data, 16) slot =
      ((), plainFrame (packetBuf plainCodec base data (16 : BitVec 16).toNat) slot) := by
    intro slot
    simp [decodeOver, decodeFrame, alac, plainCodec]
  intro slot length
  rw [size] at length
  simp only [decodePacket, over_, size]
  have room : 4 ≤ slot.length := length.ge
  refine ⟨by simpa [plainFrame] using room, by simpa [plainFrame] using room, trivial, ?_⟩
  rw [plainFrame_pcm long room, plainFrame_pcm long (by decide)]

/-- The packet after 65535 is late, so its number 65536 goes out as silence. -/
def wrappingOps : List RingOp :=
  [.queue 65535 (plainPacket 0xff 0xff 1) 16,
    .queue 65537 (plainPacket 0 1 3) 16,
    .dequeue false,
    .dequeue false,
    .dequeue true,
    .queue 65536 (plainPacket 0 0 2) 16,
    .dequeue false,
    .flush 65540 4,
    .queue 65540 (plainPacket 0 4 5) 16,
    .dequeue false]

theorem wrappingOps_overwrite {base : RaopBuffer Unit} (alac : base.cn = 1)
    (size : audioBufferSize base.alacConfig = 4) :
    ∀ op ∈ wrappingOps, ∀ s, Overwrites plainCodec base s op := by
  have packets : ∀ op ∈ wrappingOps, ∀ n data datalen, op = .queue n data datalen →
      data.length = 16 ∧ datalen = 16 := by
    simp [wrappingOps, plainPacket]
  intro op member s
  cases op with
  | queue n data datalen =>
      obtain ⟨whole, rfl⟩ := packets _ member n data datalen rfl
      exact fun _ _ => plainCodec_writesWhole alac size whole
  | dequeue noResend => trivial
  | flush n nextSeq => trivial

theorem ring_run_refines_wrapping :
    ∃ b, raopBufferInit .arm64V8a plainCodec (fun _ => some fun _ => 7)
        (CString.lit "96 1 0 16 40 10 14 2 255 0 0 44100") [] [] 1 1 = some b ∧
      ((ring plainCodec).run b wrappingOps).2 =
        ((idealRing plainCodec b).run ⟨b.decoder, 0, none⟩ wrappingOps).2.map
          (render (audioBufferSize b.alacConfig)) ∧
      (JitterBuffer.tags ((idealRing plainCodec b).run ⟨b.decoder, 0, none⟩ wrappingOps).2).Nodup ∧
      ((ring plainCodec).run b wrappingOps).2 =
        [none, none, some ⟨[1, 1, 1, 1], 4, some 1⟩, none, some ⟨[0, 0, 0, 0], 4, none⟩, none,
          some ⟨[3, 3, 3, 3], 4, some 3⟩, none, none, some ⟨[5, 5, 5, 5], 4, some 5⟩] := by
  obtain ⟨same, once⟩ := ring_run_refines .arm64V8a plainCodec (fun _ => some fun _ => 7)
    (CString.lit "96 1 0 16 40 10 14 2 255 0 0 44100") [] [] 1 1 _ rfl wrappingOps
    (Transducer.admissible_and (by decide) (wrappingOps_overwrite rfl (by decide)))
  exact ⟨_, rfl, same, once, by decide⟩

end AirCast.Raop
