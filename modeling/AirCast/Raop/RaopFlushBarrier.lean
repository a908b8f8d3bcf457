import AirCast.Raop.RaopRingCalls

/-! # Flush as a barrier for late packets

After a flush to `n` every packet carries its unwrapped number.  The flush must find the ring
synchronised: the late test is made only while `is_empty` is 0, and a flush to a number does not
clear `is_empty`.  The audio of the slots stays, so that a packet must be decoded over all of
it. -/

set_option autoImplicit false

namespace AirCast.Raop

open AirCast.SerialNumber

variable {δ : Type}

/-- A call after the flush; `n` is the unwrapped number of the packet. -/
inductive LaterCall where
  | queue (n : ℤ) (data : Bytes) (datalen : BitVec 16)
  | dequeue (noResend : Bool)
  deriving DecidableEq

/-- The packet last stored in a slot: its unwrapped number, and what it sounds like. -/
structure Owner where
  number : ℤ
  pcm : Pcm
  deriving DecidableEq

/-- The unwrapped number behind `first_seqnum`, and the packets in the slots. -/
structure Lineage where
  first : ℤ
  owner : Fin raopBufferLength → Owner

/-- The ring with its lineage.  A dequeue answers what it returns, with the packet whose payload
that should be; silence is nobody's payload. -/
def laterCalls (codec : AudioCodec δ) :
    Transducer (RaopBuffer δ × Lineage) LaterCall (Option (Dequeued × Option Owner)) where
  step s
    | .queue n data datalen =>
        let queued := raopBufferQueue codec s.1 data datalen true
        let pcm := (decodePacket codec s.1 s.1.decoder (data, datalen)).2.1
        ((queued.1,
          { first := s.2.first + seqnumCmp queued.1.firstSeqnum s.1.firstSeqnum
            owner := if queued.2 = 1 then
                Function.update s.2.owner (slotOf (be16 data 2)) ⟨n, pcm⟩
              else s.2.owner }), none)
    | .dequeue noResend =>
        let dequeued := raopBufferDequeue s.1 noResend
        let slot := slotOf s.1.firstSeqnum
        ((dequeued.1,
          { s.2 with first := s.2.first + seqnumCmp dequeued.1.firstSeqnum s.1.firstSeqnum }),
          dequeued.2.map fun out =>
            (out, if (s.1.entries slot).available then some (s.2.owner slot) else none))

/-- The packet's field is its number wrapped, and the number is within half the range of
the next one. -/
def NearFirst (s : RaopBuffer δ × Lineage) : LaterCall → Prop
  | .queue n data _ => be16 data 2 = wrap 16 n ∧ |n - s.2.first| ≤ 2 ^ 15 - 1
  | .dequeue _ => True

instance (s : RaopBuffer δ × Lineage) : ∀ call, Decidable (NearFirst s call)
  | .queue n data _ =>
      inferInstanceAs (Decidable (be16 data 2 = wrap 16 n ∧ |n - s.2.first| ≤ 2 ^ 15 - 1))
  | .dequeue _ => isTrue trivial

/-- A packet that is taken is decoded over its whole slot. -/
def TakenWhole (codec : AudioCodec δ) (s : RaopBuffer δ × Lineage) : LaterCall → Prop
  | .queue _ data datalen =>
      (raopBufferQueue codec s.1 data datalen true).2 = 1 →
        WritesWhole codec s.1 s.1.decoder (data, datalen)
  | .dequeue _ => True

def flushed (b : RaopBuffer δ) (n : ℤ) : RaopBuffer δ × Lineage :=
  (raopBufferFlush b n, { first := n, owner := fun _ => ⟨n, ⟨[], 0⟩⟩ })

/-- What comes out is the payload of its packet, which does not belong before `n`. -/
def NotBefore (n : ℤ) (answer : Option (Dequeued × Option Owner)) : Prop :=
  ∀ out owner, answer = some (out, some owner) →
    n ≤ owner.number ∧ (⟨out.audio, out.length⟩ : Pcm) = owner.pcm

/-- The flush to `n` holds against every later run whose calls are of this kind. -/
def Barrier (codec : AudioCodec δ) (ok : RaopBuffer δ × Lineage → LaterCall → Prop)
    (b : RaopBuffer δ) (n : ℤ) : Prop :=
  ∀ calls, (laterCalls codec).Admissible ok (flushed b n) calls →
    ∀ answer ∈ ((laterCalls codec).run (flushed b n) calls).2, NotBefore n answer

def Sounds (entry : RaopBufferEntry) (owner : Owner) : Prop :=
  (⟨entry.audioBuffer.take entry.audioBufferLen.toNat, entry.audioBufferLen⟩ : Pcm) = owner.pcm

structure Barred (n : ℤ) (s : RaopBuffer δ × Lineage) : Prop where
  known : KnownCn s.1.cn
  config : SameConfig s.1 s.1
  synced : s.1.isEmpty = false
  first : s.1.firstSeqnum = wrap 16 s.2.first
  lower : n ≤ s.2.first
  owners : ∀ i, (s.1.entries i).available = true →
    n ≤ (s.2.owner i).number ∧ Sounds (s.1.entries i) (s.2.owner i)

theorem SameConfig.self {base b : RaopBuffer δ} (config : SameConfig base b) : SameConfig b b :=
  ⟨rfl, rfl, rfl, rfl, rfl, fun i => config.config ▸ config.sizes i,
    fun i => config.config ▸ config.slots i⟩

theorem flushed_barred {b : RaopBuffer δ} (known : KnownCn b.cn) (config : SameConfig b b)
    (synced : b.isEmpty = false) {n : ℤ} (inRange : SeqInRange n) : Barred n (flushed b n) := by
  obtain ⟨empty, first, -⟩ := flush_inRange b n inRange
  refine ⟨?_, (flush_config b b n config).self, empty.trans synced, first, le_rfl,
    fun i available => ?_⟩
  · rw [flushed, flush_cn]
    exact known
  · rw [flushed, flush_available b n i] at available
    exact absurd available Bool.false_ne_true

theorem queue_sounds (codec : AudioCodec δ) {b : RaopBuffer δ} (known : KnownCn b.cn)
    (config : SameConfig b b) {data : Bytes} {datalen : BitVec 16} {m : ℤ}
    (number : be16 data 2 = wrap 16 m)
    (accepted : (raopBufferQueue codec b data datalen true).2 = 1)
    (whole : WritesWhole codec b b.decoder (data, datalen)) :
    Sounds ((raopBufferQueue codec b data datalen true).1.entries (slotOf (be16 data 2)))
      ⟨m, (decodePacket codec b b.decoder (data, datalen)).2.1⟩ := by
  obtain ⟨c, from_, stores⟩ := queue_stores codec accepted
  have same : SameConfig b c ∧ c.decoder = b.decoder := by
    rcases from_ with rfl | ⟨nextSeq, rfl⟩
    · exact ⟨config, rfl⟩
    · exact ⟨flush_config b b nextSeq config, flush_decoder b nextSeq⟩
  have stored := storePacket_stored codec b c same.1 known data datalen (be16 data 2)
    (same.2.symm ▸ whole)
  obtain ⟨-, -, audio, outputlen, -⟩ := stored.slot m 0 number
  rw [stores, Sounds, ← same.2]
  exact congrArg₂ Pcm.mk audio outputlen

theorem takes_owners {after : RaopBuffer δ} {owner : Fin raopBufferLength → Owner} {n : ℤ}
    {taken : Owner} {seqnum : BitVec 16} (lower : n ≤ taken.number)
    (sounds : Sounds (after.entries (slotOf seqnum)) taken)
    (others : ∀ i, i ≠ slotOf seqnum → (after.entries i).available = true →
      n ≤ (owner i).number ∧ Sounds (after.entries i) (owner i))
    (i : Fin raopBufferLength) (available : (after.entries i).available = true) :
    n ≤ (Function.update owner (slotOf seqnum) taken i).number ∧
      Sounds (after.entries i) (Function.update owner (slotOf seqnum) taken i) := by
  by_cases here : i = slotOf seqnum
  · rw [here, Function.update_self]
    exact ⟨lower, sounds⟩
  · rw [Function.update_of_ne here]
    exact others i here available

theorem queue_barred (codec : AudioCodec δ) {n m : ℤ} {s : RaopBuffer δ × Lineage}
    (barred : Barred n s) (data : Bytes) (datalen : BitVec 16)
    (near : NearFirst s (.queue m data datalen))
    (whole : TakenWhole codec s (.queue m data datalen)) :
    Barred n ((laterCalls codec).step s (.queue m data datalen)).1 := by
  obtain ⟨number, near⟩ := near
  have bounds := abs_le.mp near
  obtain ⟨known, config, synced, first, lower, owners⟩ := barred
  have effect := queue_effect codec s.1 known data datalen true
  have sameCn := queue_cn codec s.1 data datalen true
  have after := (queue_config codec config data datalen true).self
  have heard := fun accepted => queue_sounds codec known config number accepted (whole accepted)
  have seqnum : packetSeqnum s.1 data true = wrap 16 m := number
  have distance : seqnumCmp (wrap 16 m) s.1.firstSeqnum = m - s.2.first := by
    rw [first, seqnumCmp_wrap _ _ (by omega) (by omega)]
  have steps := seqnumCmp_distance (wrap 16 m) s.1.firstSeqnum
  simp only [laterCalls, number] at heard ⊢
  rw [seqnum] at effect
  generalize raopBufferQueue codec s.1 data datalen true = queued
    at effect sameCn after heard ⊢
  cases effect with
  | dropped same refused =>
      rw [if_neg refused, same, seqnumCmp_self, add_zero]
      exact ⟨known, config, synced, first, lower, owners⟩
  | fresh accepted _ inside takes others sameFirst last =>
      have timely : s.2.first ≤ m := by
        simp only [InWindow, raopBufferLength] at inside
        rw [if_pos (by omega)] at steps
        omega
      rw [if_pos accepted, sameFirst, seqnumCmp_self, add_zero]
      refine ⟨sameCn ▸ known, after, takes.synced, sameFirst.trans first, lower,
        takes_owners (lower.trans timely) (heard accepted) fun i other available => ?_⟩
      dsimp only at available ⊢
      rw [others i other] at available ⊢
      exact owners i available
  | opened accepted empty takes others moved last =>
      rw [synced] at empty
      exact absurd empty Bool.false_ne_true
  | restarted accepted far upper ahead takes others moved last =>
      have timely : s.2.first ≤ m := by
        rw [if_pos (ahead synced)] at steps
        omega
      rw [if_pos accepted, moved, distance]
      refine ⟨sameCn ▸ known, after, takes.synced, ?_, by dsimp only; omega,
        takes_owners (lower.trans timely) (heard accepted) fun i other available => ?_⟩
      · dsimp only
        rw [moved, add_sub_cancel]
      · dsimp only at available
        rw [(others i other).1] at available
        exact absurd available Bool.false_ne_true

theorem dequeue_barred (codec : AudioCodec δ) {n : ℤ} {s : RaopBuffer δ × Lineage}
    (barred : Barred n s) (noResend : Bool) :
    Barred n ((laterCalls codec).step s (.dequeue noResend)).1 ∧
      NotBefore n ((laterCalls codec).step s (.dequeue noResend)).2 := by
  obtain ⟨known, config, synced, first, lower, owners⟩ := barred
  constructor
  · have kept := (dequeue_config config noResend).self
    simp only [laterCalls]
    rcases dequeue_effect s.1 noResend with same | ⟨freed, ready, vacant, -, after⟩
    · rw [same, seqnumCmp_self, add_zero]
      exact ⟨known, config, synced, first, lower, owners⟩
    · have one : seqnumCmp (s.1.firstSeqnum + 1) s.1.firstSeqnum = 1 :=
        seqnumCmp_add s.1.firstSeqnum 1 (by omega)
      rw [after] at kept ⊢
      dsimp only
      rw [one]
      refine ⟨known, kept, synced, ?_, by dsimp only; omega, fun i available => ?_⟩
      · dsimp only
        rw [first, wrap_succ]
      · dsimp only at available ⊢
        by_cases here : i = slotOf s.1.firstSeqnum
        · rw [here, Function.update_self, vacant] at available
          exact absurd available Bool.false_ne_true
        · rw [Function.update_of_ne here] at available ⊢
          exact owners i available
  · intro out owner answer
    simp only [laterCalls, Option.map_eq_some_iff] at answer
    obtain ⟨dequeued, handed, same⟩ := answer
    obtain ⟨rfl, owned⟩ := Prod.mk.inj same
    split at owned
    · rename_i available
      obtain ⟨after, sounds⟩ := owners _ available
      have ready : Ready s.1 noResend := by
        by_contra blocked
        rw [dequeue_notReady noResend blocked] at handed
        cases handed
      rw [dequeue_answer noResend ready] at handed
      simp only [available, Bool.true_eq_false, if_false, Option.some.injEq] at handed
      rw [← Option.some.inj owned, ← handed]
      exact ⟨after, sounds⟩
    · simp at owned

theorem later_barred (codec : AudioCodec δ) {n : ℤ} {s : RaopBuffer δ × Lineage} (call : LaterCall)
    (barred : Barred n s) (near : NearFirst s call) (whole : TakenWhole codec s call) :
    Barred n ((laterCalls codec).step s call).1 ∧
      NotBefore n ((laterCalls codec).step s call).2 := by
  cases call with
  | queue m data datalen =>
      refine ⟨queue_barred codec barred data datalen near whole, ?_⟩
      intro out owner answer
      simp [laterCalls] at answer
  | dequeue noResend => exact dequeue_barred codec barred noResend

/-- A packet without payload, of the number before `n`. -/
def straggler (n : ℤ) : Bytes :=
  let seqnum := wrap 16 (n - 1)
  [0x80, 0x60, ⟨(seqnum >>> 8).setWidth 8⟩, ⟨seqnum.setWidth 8⟩, 0, 0, 0, 0, 0, 0, 0, 0]

theorem straggler_seqnum (n : ℤ) : be16 (straggler n) 2 = wrap 16 (n - 1) :=
  bytes_append (wrap 16 (n - 1))

def breach (n : ℤ) : List LaterCall := [.queue (n - 1) (straggler n) 12, .dequeue false]

theorem queue_straggler (codec : AudioCodec δ) {b : RaopBuffer δ} (known : KnownCn b.cn)
    (empty : b.isEmpty = true) {n : ℤ} (inRange : SeqInRange n) :
    let queued := raopBufferQueue codec (raopBufferFlush b n) (straggler n) 12 true
    queued.2 = 1 ∧ Takes queued.1 (wrap 16 (n - 1)) ∧
      queued.1.firstSeqnum = wrap 16 (n - 1) ∧ queued.1.lastSeqnum = wrap 16 (n - 1) := by
  obtain ⟨stillEmpty, first, -⟩ := flush_inRange b n inRange
  have knownAfter : KnownCn (raopBufferFlush b n).cn := (flush_cn b n).symm ▸ known
  have room : ¬ 0 ≤ seqnumCmp (wrap 16 (n - 1))
      ((raopBufferFlush b n).firstSeqnum + BitVec.ofNat 16 raopBufferLength) := by
    have shifted : (raopBufferFlush b n).firstSeqnum + BitVec.ofNat 16 raopBufferLength =
        wrap 16 (n + 32) := by
      rw [first, ← wrap_add]
      rfl
    rw [shifted, seqnumCmp_wrap _ _ (by omega) (by omega)]
    omega
  have bad : ¬ ((12 : BitVec 16).toNat < 12 ∨ raopPacketLen < (12 : BitVec 16).toNat) := by decide
  have stored : raopBufferQueue codec (raopBufferFlush b n) (straggler n) 12 true =
      storePacket codec (raopBufferFlush b n) (straggler n) 12 (wrap 16 (n - 1)) := by
    simp only [raopBufferQueue, if_neg bad, if_true, straggler_seqnum, stillEmpty, empty,
      Bool.true_eq_false, false_and, if_false, if_neg room, flush_available b n,
      Bool.false_eq_true]
    rfl
  obtain ⟨takes, -, afterFirst, afterLast⟩ :=
    storePacket_takes codec (raopBufferFlush b n) knownAfter (straggler n) 12 (wrap 16 (n - 1))
  rw [stillEmpty, empty, if_pos rfl] at afterFirst afterLast
  rw [stored]
  exact ⟨storePacket_accepts codec knownAfter _ _ _, takes, afterFirst, afterLast⟩

theorem empty_breaches (codec : AudioCodec δ) {b : RaopBuffer δ} (known : KnownCn b.cn)
    (empty : b.isEmpty = true) {n : ℤ} (inRange : SeqInRange n) : ¬ Barrier codec NearFirst b n := by
  intro barrier
  obtain ⟨accepted, takes, first, last⟩ := queue_straggler codec known empty inRange
  have near : NearFirst (flushed b n) (.queue (n - 1) (straggler n) 12) := by
    refine ⟨straggler_seqnum n, ?_⟩
    have back : n - 1 - (flushed b n).2.first = -1 := by
      simp only [flushed]
      omega
    rw [back]
    norm_num
  have ready : Ready (raopBufferQueue codec (raopBufferFlush b n) (straggler n) 12 true).1
      false := by
    refine ⟨?_, ?_⟩
    · rw [first, last, takes.synced, seqnumCmp_self]
      decide
    · rw [first, takes.available]
      simp
  have answer := barrier (breach n) ⟨near, trivial, trivial⟩
    ((laterCalls codec).step ((laterCalls codec).step (flushed b n)
      (.queue (n - 1) (straggler n) 12)).1 (.dequeue false)).2 (by simp [breach, Transducer.run])
  have out := dequeue_answer false ready
  have handed : ∃ audio pcm, ((laterCalls codec).step ((laterCalls codec).step (flushed b n)
      (.queue (n - 1) (straggler n) 12)).1 (.dequeue false)).2 =
        some (audio, some ⟨n - 1, pcm⟩) := by
    simp only [laterCalls, flushed, out, first, takes.available, accepted, straggler_seqnum,
      Function.update_self, if_true, Bool.true_eq_false, if_false, Option.map_some]
    exact ⟨_, _, rfl⟩
  obtain ⟨audio, pcm, handed⟩ := handed
  have := (answer audio ⟨n - 1, pcm⟩ handed).1
  dsimp only at this
  omega

/-- After any run, a flush to `n` is a barrier for packets that are decoded over their whole slots
if the ring was synchronised, and only then is it one at all. -/
theorem flush_barrier_iff_synced (abi : Abi) (codec : AudioCodec δ) (malloc : Malloc)
    (fmtp : CString) (aeskey aesiv : Bytes) (et cn : ℤ) (b : RaopBuffer δ)
    (success : raopBufferInit abi codec malloc fmtp aeskey aesiv et cn = some b)
    (calls : List RingCall) (n : ℤ) (inRange : SeqInRange n) :
    let reached := ((ringCalls codec).run b calls).1
    (Barrier codec NearFirst reached n → reached.isEmpty = false) ∧
      (reached.isEmpty = false →
        Barrier codec (fun s call => NearFirst s call ∧ TakenWhole codec s call) reached n) := by
  intro reached
  obtain ⟨sound, -, -⟩ := init_windowSound abi codec malloc fmtp aeskey aesiv et cn b success
  have config := (init_spec abi codec malloc fmtp aeskey aesiv et cn b success).2.config
  obtain ⟨invariant, same⟩ := (ringCalls codec).run_invariant
    (fun s => WindowSound s ∧ SameConfig b s)
    (fun s call holds => ⟨ringCalls_windowSound codec holds.1 call,
      ringCalls_config codec holds.2 call⟩) calls b ⟨sound, config⟩
  constructor
  · intro barrier
    by_contra empty
    exact empty_breaches codec invariant.known (by simpa using empty) inRange barrier
  · intro synced later admissible
    exact ((laterCalls codec).run_guarded _ (Barred n) (NotBefore n)
      (fun s call barred good => later_barred codec call barred good.1 good.2) later
      (flushed reached n) (flushed_barred invariant.known same.self synced inRange) admissible).2

def laterPackets : List LaterCall :=
  [.queue 21 (plainPacket 0 21 6) 16, .queue 19 (plainPacket 0 19 5) 16,
    .queue 20 (plainPacket 0 20 4) 16, .dequeue false, .dequeue false, .dequeue false]

/-- A ring that has taken one packet keeps the barrier. -/
theorem flush_barrier_synced :
    ∃ b, raopBufferInit .arm64V8a plainCodec (fun _ => some fun _ => 7)
        (CString.lit "96 1 0 16 40 10 14 2 255 0 0 44100") [] [] 1 1 = some b ∧
      let reached := ((ringCalls plainCodec).run b [.queue (plainPacket 0 10 1) 16 true]).1
      Barrier plainCodec (fun s call => NearFirst s call ∧ TakenWhole plainCodec s call) reached 20 ∧
        ((laterCalls plainCodec).run (flushed reached 20) laterPackets).2 =
          [none, none, none, some (⟨[4, 4, 4, 4], 4, some 4⟩, some ⟨20, [4, 4, 4, 4], 4⟩),
            some (⟨[6, 6, 6, 6], 4, some 6⟩, some ⟨21, [6, 6, 6, 6], 4⟩), none] := by
  refine ⟨_, rfl, ?_, by decide⟩
  exact (flush_barrier_iff_synced .arm64V8a plainCodec (fun _ => some fun _ => 7)
    (CString.lit "96 1 0 16 40 10 14 2 255 0 0 44100") [] [] 1 1 _ rfl
    [.queue (plainPacket 0 10 1) 16 true] 20 (by decide)).2 (by decide)

def straggling : List LaterCall := [.queue 19 (plainPacket 0 19 7) 16, .dequeue false]

/-- A flush to 20 before the first packet lets the packet 19 out. -/
theorem flush_barrier_breached :
    ∃ b, raopBufferInit .arm64V8a plainCodec (fun _ => some fun _ => 7)
        (CString.lit "96 1 0 16 40 10 14 2 255 0 0 44100") [] [] 1 1 = some b ∧
      ((laterCalls plainCodec).run (flushed b 20) straggling).2 =
          [none, some (⟨[7, 7, 7, 7], 4, some 7⟩, some ⟨19, [7, 7, 7, 7], 4⟩)] ∧
        ¬ Barrier plainCodec NearFirst b 20 := by
  refine ⟨_, rfl, by decide, fun barrier => ?_⟩
  have late := barrier straggling (by decide)
    (some (⟨[7, 7, 7, 7], 4, some 7⟩, some ⟨19, [7, 7, 7, 7], 4⟩)) (by decide) _ _ rfl
  exact absurd late.1 (by decide)

end AirCast.Raop
