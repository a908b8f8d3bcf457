import AirCast.Raop.RaopJitter

/-! # The audio ring under any order of calls

Packets of any sequence number, dequeues, resend requests and flushes in any order.  Each
call is described once by what it does to the counters and the slot flags; the window
invariant of every run follows from that. -/

set_option autoImplicit false

namespace AirCast.Raop

open AirCast.SerialNumber

variable {δ : Type}

/-! ## Calls -/

inductive RingCall where
  | queue (data : Bytes) (datalen : BitVec 16) (useSeqnum : Bool)
  | dequeue (noResend : Bool)
  | handleResends
  | flush (nextSeq : ℤ)
  deriving DecidableEq

/-- The ring under its calls; the answer is what the call passes to `resend_cb`. -/
def ringCalls (codec : AudioCodec δ) :
    Transducer (RaopBuffer δ) RingCall (Option (BitVec 16 × ℤ)) where
  step b
    | .queue data datalen useSeqnum => ((raopBufferQueue codec b data datalen useSeqnum).1, none)
    | .dequeue noResend => ((raopBufferDequeue b noResend).1, none)
    | .handleResends => raopBufferHandleResends b
    | .flush nextSeq => (raopBufferFlush b nextSeq, none)

def InWindow (b : RaopBuffer δ) (seqnum : BitVec 16) : Prop :=
  (seqnum - b.firstSeqnum).toNat < raopBufferLength

instance (b : RaopBuffer δ) (seqnum : BitVec 16) : Decidable (InWindow b seqnum) :=
  inferInstanceAs (Decidable (_ < _))

/-- The packet of that number waits in its slot. -/
def Held (b : RaopBuffer δ) (seqnum : BitVec 16) : Prop :=
  (b.entries (slotOf seqnum)).available = true ∧ (b.entries (slotOf seqnum)).seqnum = seqnum

instance (b : RaopBuffer δ) (seqnum : BitVec 16) : Decidable (Held b seqnum) :=
  inferInstanceAs (Decidable (_ ∧ _))

/-! ## Distances between sequence numbers -/

theorem seqnumCmp_distance (a b : BitVec 16) :
    seqnumCmp a b =
      if (a - b).toNat < 32768 then ((a - b).toNat : ℤ) else (a - b).toNat - 65536 := by
  rw [seqnumCmp_eq, signedDiff, BitVec.toInt_eq_toNat_cond]
  split <;> split <;> first | rfl | omega

theorem add_sub_distance (a b : BitVec 16) (k : ℕ) (fits : (a - b).toNat + k < 65536) :
    (a + BitVec.ofNat 16 k - b).toNat = (a - b).toNat + k := by
  simp only [BitVec.toNat_sub, BitVec.toNat_add, BitVec.toNat_ofNat] at *
  omega

theorem eq_of_slotOf_eq (first a b : BitVec 16) (aInside : (a - first).toNat < 32)
    (bInside : (b - first).toNat < 32) (same : slotOf a = slotOf b) : a = b := by
  have values := congrArg Fin.val same
  simp only [slotOf, raopBufferLength] at values
  apply BitVec.eq_of_toNat_eq
  simp only [BitVec.toNat_sub] at aInside bInside
  omega

theorem slotOf_add_length (seqnum : BitVec 16) : slotOf (seqnum + 32) = slotOf seqnum := by
  apply Fin.ext
  have next : (seqnum + 32).toNat = (seqnum.toNat + 32) % 65536 := by
    rw [BitVec.toNat_add]
    rfl
  simp only [slotOf, raopBufferLength, next]
  omega

theorem advanced_window (first n : BitVec 16) (inside : (n - (first + 1)).toNat < 32) :
    n = first + 32 ∨ ((n - first).toNat < 32 ∧ n ≠ first) := by
  have one : (first + 1).toNat = (first.toNat + 1) % 65536 := by
    rw [BitVec.toNat_add]
    rfl
  have far : (first + 32).toNat = (first.toNat + 32) % 65536 := by
    rw [BitVec.toNat_add]
    rfl
  simp only [BitVec.toNat_sub, one] at inside ⊢
  by_cases gained : n.toNat = (first.toNat + 32) % 65536
  · left
    apply BitVec.eq_of_toNat_eq
    rw [gained, far]
  · right
    refine ⟨by omega, ?_⟩
    rintro rfl
    omega

theorem bytes_append (x : BitVec 16) : (x >>> 8).setWidth 8 ++ x.setWidth 8 = x := by
  apply BitVec.eq_of_toNat_eq
  have bound := x.isLt
  rw [BitVec.toNat_append, ← Nat.shiftLeft_add_eq_or_of_lt (BitVec.isLt _)]
  simp only [BitVec.toNat_setWidth, BitVec.toNat_ushiftRight, Nat.shiftLeft_eq,
    Nat.shiftRight_eq_div_pow]
  omega

theorem late_iff (n first : BitVec 16) : seqnumCmp n first < 0 ↔ 32768 ≤ (n - first).toNat := by
  rw [seqnumCmp_distance]
  split <;> omega

theorem overrun_iff (n first : BitVec 16) :
    0 ≤ seqnumCmp n (first + BitVec.ofNat 16 raopBufferLength) ↔
      32 ≤ (n - first).toNat ∧ (n - first).toNat < 32800 := by
  have shifted : (first + BitVec.ofNat 16 raopBufferLength).toNat =
      (first.toNat + 32) % 65536 := by
    rw [BitVec.toNat_add]
    rfl
  rw [seqnumCmp_distance]
  simp only [BitVec.toNat_sub, shifted]
  split <;> omega

/-! ## What each call does to the flags -/

/-- The ring has just stored the packet of that number. -/
structure Takes (after : RaopBuffer δ) (n : BitVec 16) : Prop where
  synced : after.isEmpty = false
  available : (after.entries (slotOf n)).available = true
  unmarked : (after.entries (slotOf n)).resending = false
  seqnum : (after.entries (slotOf n)).seqnum = n

theorem storePacket_takes (codec : AudioCodec δ) (b : RaopBuffer δ) (known : KnownCn b.cn)
    (data : Bytes) (datalen : ℕ) (n : BitVec 16) :
    let after := (storePacket codec b data datalen n).1
    Takes after n ∧ (∀ i, i ≠ slotOf n → after.entries i = b.entries i) ∧
      after.firstSeqnum = (if b.isEmpty then n else b.firstSeqnum) ∧
      after.lastSeqnum =
        if b.isEmpty then n
        else if 0 < seqnumCmp n b.lastSeqnum then n else b.lastSeqnum := by
  obtain ⟨⟨decoder, frame⟩, decodes⟩ := decodeFrame_known codec b.cn known b.decoder
    (packetBuf codec b data datalen) datalen
    (headerEntry (b.entries (slotOf n)) data n).audioBuffer
    (headerEntry (b.entries (slotOf n)) data n).audioBufferSize
  simp only [storePacket, decodes]
  cases empty : b.isEmpty with
  | true =>
      simp only [if_true, seqnumCmp_self, lt_self_iff_false, if_false]
      exact ⟨⟨rfl, by simp [headerEntry], by simp [headerEntry], by simp [headerEntry]⟩,
        fun i other => by simp [other], trivial, trivial⟩
  | false =>
      simp only [Bool.false_eq_true, if_false]
      by_cases ahead : 0 < seqnumCmp n b.lastSeqnum
      · simp only [if_pos ahead]
        exact ⟨⟨rfl, by simp [headerEntry], by simp [headerEntry], by simp [headerEntry]⟩,
          fun i other => by simp [other], trivial, trivial⟩
      · simp only [if_neg ahead]
        exact ⟨⟨rfl, by simp [headerEntry], by simp [headerEntry], by simp [headerEntry]⟩,
          fun i other => by simp [other], trivial, trivial⟩

def packetSeqnum (b : RaopBuffer δ) (data : Bytes) (useSeqnum : Bool) : BitVec 16 :=
  if useSeqnum then be16 data 2 else b.firstSeqnum

/-- The four things `raop_buffer_queue` can do with a packet of number `n`. -/
inductive QueueEffect (b : RaopBuffer δ) (n : BitVec 16) (after : RaopBuffer δ) (ret : ℤ) : Prop
  | dropped (same : after = b) (refused : ret ≠ 1)
  | fresh (accepted : ret = 1) (synced : b.isEmpty = false) (inside : InWindow b n)
      (takes : Takes after n) (others : ∀ i, i ≠ slotOf n → after.entries i = b.entries i)
      (first : after.firstSeqnum = b.firstSeqnum)
      (last : after.lastSeqnum =
        if 0 < seqnumCmp n b.lastSeqnum then n else b.lastSeqnum)
  | opened (accepted : ret = 1) (empty : b.isEmpty = true) (takes : Takes after n)
      (others : ∀ i, i ≠ slotOf n → after.entries i = b.entries i)
      (first : after.firstSeqnum = n) (last : after.lastSeqnum = n)
  | restarted (accepted : ret = 1) (lower : 32 ≤ (n - b.firstSeqnum).toNat)
      (upper : (n - b.firstSeqnum).toNat < 32800)
      (timely : b.isEmpty = false → (n - b.firstSeqnum).toNat < 32768) (takes : Takes after n)
      (others : ∀ i, i ≠ slotOf n →
        (after.entries i).available = false ∧ (after.entries i).resending = false)
      (first : after.firstSeqnum = n) (last : after.lastSeqnum = n)

theorem flush_unmarked (b : RaopBuffer δ) (nextSeq : ℤ) (i : Fin raopBufferLength) :
    ((raopBufferFlush b nextSeq).entries i).resending = false := by
  unfold raopBufferFlush
  split <;> rfl

theorem seqInRange_toNat (seqnum : BitVec 16) : SeqInRange seqnum.toNat := by
  have := seqnum.isLt
  unfold SeqInRange
  omega

theorem queue_effect (codec : AudioCodec δ) (b : RaopBuffer δ) (known : KnownCn b.cn)
    (data : Bytes) (datalen : BitVec 16) (useSeqnum : Bool) :
    QueueEffect b (packetSeqnum b data useSeqnum) (raopBufferQueue codec b data datalen useSeqnum).1
      (raopBufferQueue codec b data datalen useSeqnum).2 := by
  simp only [raopBufferQueue, packetSeqnum]
  generalize (if useSeqnum = true then be16 data 2 else b.firstSeqnum) = n
  by_cases bad : datalen.toNat < 12 ∨ raopPacketLen < datalen.toNat
  · rw [if_pos bad]
    exact .dropped rfl (by norm_num)
  rw [if_neg bad]
  by_cases late : b.isEmpty = false ∧ seqnumCmp n b.firstSeqnum < 0
  · rw [if_pos late]
    exact .dropped rfl (by norm_num)
  rw [if_neg late]
  by_cases overrun : 0 ≤ seqnumCmp n (b.firstSeqnum + BitVec.ofNat 16 raopBufferLength)
  · have distance := (overrun_iff n b.firstSeqnum).mp overrun
    have cleared := flush_available b n.toNat
    obtain ⟨-, first, last⟩ := flush_inRange b n.toNat (seqInRange_toNat n)
    rw [wrap_toNat] at first
    obtain ⟨takes, others, afterFirst, afterLast⟩ := storePacket_takes codec
      (raopBufferFlush b n.toNat) ((flush_cn b _).symm ▸ known) data datalen.toNat n
    have ahead : 0 < seqnumCmp n (wrap 16 ((n.toNat : ℤ) - 1)) := by
      have := seqnumCmp_wrap (n.toNat : ℤ) (n.toNat - 1) (by omega) (by omega)
      rw [wrap_toNat] at this
      omega
    rw [first, ite_self] at afterFirst
    rw [last, if_pos ahead, ite_self] at afterLast
    simp only [if_pos overrun, cleared, Bool.false_eq_true, false_and, if_false]
    refine .restarted (storePacket_accepts codec ((flush_cn b _).symm ▸ known) _ _ _) distance.1
      distance.2 (fun synced => ?_) takes ?_ afterFirst afterLast
    · by_contra behind
      exact late ⟨synced, (late_iff n b.firstSeqnum).mpr (by omega)⟩
    intro i other
    rw [others i other]
    exact ⟨cleared i, flush_unmarked b _ i⟩
  · simp only [if_neg overrun]
    by_cases duplicate : (b.entries (slotOf n)).available = true ∧
        seqnumCmp (b.entries (slotOf n)).seqnum n = 0
    · rw [if_pos duplicate]
      exact .dropped rfl (by norm_num)
    · rw [if_neg duplicate]
      obtain ⟨takes, others, first, last⟩ := storePacket_takes codec b known data datalen.toNat n
      have accepted := storePacket_accepts codec known data datalen.toNat n
      cases empty : b.isEmpty with
      | true =>
          rw [empty] at first last
          exact .opened accepted empty takes others first last
      | false =>
          rw [empty] at first last
          refine .fresh accepted empty ?_ takes others first last
          have timely : ¬ 32768 ≤ (n - b.firstSeqnum).toNat := fun behind =>
            late ⟨empty, (late_iff n b.firstSeqnum).mpr behind⟩
          rw [overrun_iff] at overrun
          simp only [InWindow, raopBufferLength]
          omega

theorem queue_stores (codec : AudioCodec δ) {b : RaopBuffer δ} {data : Bytes} {datalen : BitVec 16}
    {useSeqnum : Bool} (accepted : (raopBufferQueue codec b data datalen useSeqnum).2 = 1) :
    ∃ c, (c = b ∨ ∃ nextSeq, c = raopBufferFlush b nextSeq) ∧
      raopBufferQueue codec b data datalen useSeqnum =
        storePacket codec c data datalen.toNat (packetSeqnum b data useSeqnum) := by
  unfold raopBufferQueue at accepted ⊢
  unfold packetSeqnum
  generalize (if useSeqnum = true then be16 data 2 else b.firstSeqnum) = n at accepted ⊢
  dsimp only at accepted ⊢
  have zero_ : ¬ (0 : ℤ) = 1 := by decide
  split_ifs at accepted ⊢
  · exact absurd accepted (show ¬ (-1 : ℤ) = 1 by decide)
  · exact absurd accepted zero_
  · exact absurd accepted zero_
  · exact ⟨_, .inr ⟨_, rfl⟩, rfl⟩
  · exact absurd accepted zero_
  · exact ⟨_, .inl rfl, rfl⟩

/-! ## Sizes of the slots -/

theorem queue_config (codec : AudioCodec δ) {base b : RaopBuffer δ} (config : SameConfig base b)
    (data : Bytes) (datalen : BitVec 16) (useSeqnum : Bool) :
    SameConfig base (raopBufferQueue codec b data datalen useSeqnum).1 := by
  unfold raopBufferQueue
  generalize (if useSeqnum = true then be16 data 2 else b.firstSeqnum) = n
  dsimp only
  split_ifs
  · exact config
  · exact config
  · exact flush_config base b _ config
  · exact storePacket_config codec (flush_config base b _ config) _ _ _
  · exact config
  · exact storePacket_config codec config _ _ _

theorem dequeue_config {base b : RaopBuffer δ} (config : SameConfig base b) (noResend : Bool) :
    SameConfig base (raopBufferDequeue b noResend).1 := by
  by_cases ready : Ready b noResend
  · obtain ⟨freed, -, size, length, after⟩ := dequeue_ready noResend ready
    have updated := update_slots config _ _ size (freed_length config size length)
    rw [after]
    exact ⟨config.aeskey, config.aesiv, config.config, config.et, config.cn,
      fun i => (updated i).1, fun i => (updated i).2⟩
  · rw [dequeue_notReady noResend ready]
    exact config

theorem markResending_sizes (last : BitVec 16) :
    ∀ (fuel : ℕ) (seqnum : BitVec 16) (entries : Fin raopBufferLength → RaopBufferEntry)
      (i : Fin raopBufferLength),
      ((markResending last fuel seqnum entries).1 i).audioBufferSize =
          (entries i).audioBufferSize ∧
        ((markResending last fuel seqnum entries).1 i).audioBuffer = (entries i).audioBuffer := by
  intro fuel
  induction fuel with
  | zero => intro seqnum entries i; exact ⟨rfl, rfl⟩
  | succ fuel ih =>
      intro seqnum entries i
      rw [markResending]
      split_ifs
      · exact ⟨rfl, rfl⟩
      · obtain ⟨size, audio⟩ := ih (seqnum + 1) (Function.update entries (slotOf seqnum)
          { entries (slotOf seqnum) with resending := true }) i
        rw [size, audio, Function.update_apply]
        split
        · rename_i here
          rw [here]
          exact ⟨rfl, rfl⟩
        · exact ⟨rfl, rfl⟩

theorem ringCalls_config (codec : AudioCodec δ) {base b : RaopBuffer δ}
    (config : SameConfig base b) (call : RingCall) :
    SameConfig base ((ringCalls codec).step b call).1 := by
  cases call with
  | queue data datalen useSeqnum => exact queue_config codec config data datalen useSeqnum
  | dequeue noResend => exact dequeue_config config noResend
  | handleResends =>
      simp only [ringCalls, raopBufferHandleResends]
      split
      · have sizes := markResending_sizes b.lastSeqnum
          (-seqnumCmp b.firstSeqnum b.lastSeqnum).toNat b.firstSeqnum b.entries
        exact ⟨config.aeskey, config.aesiv, config.config, config.et, config.cn,
          fun i => (sizes i).1.trans (config.sizes i),
          fun i => (congrArg List.length (sizes i).2).trans (config.slots i)⟩
      · exact config
  | flush nextSeq => exact flush_config base b nextSeq config

instance (b : RaopBuffer δ) (noResend : Bool) : Decidable (Ready b noResend) :=
  inferInstanceAs (Decidable (_ ∧ _))

theorem dequeue_effect (b : RaopBuffer δ) (noResend : Bool) :
    (raopBufferDequeue b noResend).1 = b ∨
      ∃ freed : RaopBufferEntry, Ready b noResend ∧ freed.available = false ∧
        (freed.resending = true → (b.entries (slotOf b.firstSeqnum)).available = false ∧
          (b.entries (slotOf b.firstSeqnum)).resending = true) ∧
        (raopBufferDequeue b noResend).1 =
          { b with
            firstSeqnum := b.firstSeqnum + 1
            entries := Function.update b.entries (slotOf b.firstSeqnum) freed } := by
  by_cases ready : Ready b noResend
  · right
    simp only [raopBufferDequeue, if_neg ready.1, if_neg ready.2]
    by_cases vacant : (b.entries (slotOf b.firstSeqnum)).available = false
    · rw [if_pos vacant]
      refine ⟨_, ready, ?_, ?_, rfl⟩
      · exact vacant
      · exact fun marked => ⟨vacant, marked⟩
    · rw [if_neg vacant]
      refine ⟨_, ready, rfl, ?_, rfl⟩
      intro marked
      exact absurd marked Bool.false_ne_true
  · left
    rw [dequeue_notReady noResend ready]

/-- The loop has marked `count` missing slots in a row. -/
structure Marks (last seqnum : BitVec 16) (entries : Fin raopBufferLength → RaopBufferEntry)
    (count : ℕ) (out : (Fin raopBufferLength → RaopBufferEntry) × BitVec 16) : Prop where
  stop : out.2 = seqnum + BitVec.ofNat 16 count
  before : ∀ k < count, seqnumCmp (seqnum + BitVec.ofNat 16 k) last < 0
  vacant : ∀ k < count, (entries (slotOf (seqnum + BitVec.ofNat 16 k))).available = false
  unmarked : ∀ k < count, (entries (slotOf (seqnum + BitVec.ofNat 16 k))).resending = false
  marked : ∀ k < count, (out.1 (slotOf (seqnum + BitVec.ofNat 16 k))).resending = true
  others : ∀ i, out.1 i = entries i ∨
    (out.1 i = { entries i with resending := true } ∧
      ∃ k < count, i = slotOf (seqnum + BitVec.ofNat 16 k))

theorem marks_none (last seqnum : BitVec 16)
    (entries : Fin raopBufferLength → RaopBufferEntry) :
    Marks last seqnum entries 0 (entries, seqnum) where
  stop := by simp
  before := by simp
  vacant := by simp
  unmarked := by simp
  marked := by simp
  others := fun _ => Or.inl rfl

/-- One marked slot before a row of marked slots. -/
theorem marks_cons {last seqnum : BitVec 16} {entries : Fin raopBufferLength → RaopBufferEntry}
    {count : ℕ} {out : (Fin raopBufferLength → RaopBufferEntry) × BitVec 16}
    (before : seqnumCmp seqnum last < 0) (vacant : (entries (slotOf seqnum)).available = false)
    (unmarked : (entries (slotOf seqnum)).resending = false)
    (rest : Marks last (seqnum + 1)
      (Function.update entries (slotOf seqnum)
        { entries (slotOf seqnum) with resending := true }) count out) :
    Marks last seqnum entries (count + 1) out := by
  have next : ∀ k, seqnum + 1 + BitVec.ofNat 16 k = seqnum + BitVec.ofNat 16 (k + 1) := by
    intro k
    rw [BitVec.ofNat_add, BitVec.add_assoc, BitVec.add_comm 1]
    rfl
  obtain ⟨stop, restBefore, restVacant, restUnmarked, marked, others⟩ := rest
  simp only [next] at stop restBefore restVacant restUnmarked marked others
  have elsewhere : ∀ k < count, slotOf (seqnum + BitVec.ofNat 16 (k + 1)) ≠ slotOf seqnum := by
    intro k below here
    have clean := restUnmarked k below
    rw [here, Function.update_self] at clean
    exact Bool.true_eq_false.mp clean
  constructor
  case stop => exact stop
  case before =>
      rintro (_ | k) below
      · simpa using before
      · exact restBefore k (by omega)
  case vacant =>
      rintro (_ | k) below
      · simpa using vacant
      · have := restVacant k (by omega)
        rwa [Function.update_of_ne (elsewhere k (by omega))] at this
  case unmarked =>
      rintro (_ | k) below
      · simpa using unmarked
      · have := restUnmarked k (by omega)
        rwa [Function.update_of_ne (elsewhere k (by omega))] at this
  case marked =>
      rintro (_ | k) below
      · rw [BitVec.add_zero]
        rcases others (slotOf seqnum) with same | ⟨same, -⟩
        · rw [same, Function.update_self]
        · rw [same]
      · exact marked k (by omega)
  case others =>
      intro i
      by_cases here : i = slotOf seqnum
      · subst here
        right
        refine ⟨?_, 0, by omega, by simp⟩
        rcases others (slotOf seqnum) with same | ⟨same, -⟩
        · rw [same, Function.update_self]
        · rw [same, Function.update_self]
      · rcases others i with same | ⟨same, k, below, slot⟩
        · left
          rw [same, Function.update_of_ne here]
        · right
          rw [same, Function.update_of_ne here]
          exact ⟨rfl, k + 1, by omega, slot⟩

theorem markResending_marks (last : BitVec 16) :
    ∀ (fuel : ℕ) (seqnum : BitVec 16) (entries : Fin raopBufferLength → RaopBufferEntry),
      ∃ count ≤ fuel, Marks last seqnum entries count (markResending last fuel seqnum entries) ∧
        (0 < fuel → count = 0 → 0 ≤ seqnumCmp seqnum last ∨
          (entries (slotOf seqnum)).available = true ∨
          (entries (slotOf seqnum)).resending = true) := by
  intro fuel
  induction fuel with
  | zero =>
      intro seqnum entries
      exact ⟨0, le_rfl, marks_none last seqnum entries, by omega⟩
  | succ fuel ih =>
      intro seqnum entries
      simp only [markResending]
      by_cases stops : 0 ≤ seqnumCmp seqnum last ∨ (entries (slotOf seqnum)).available = true ∨
          (entries (slotOf seqnum)).resending = true
      · rw [if_pos stops]
        exact ⟨0, Nat.zero_le _, marks_none last seqnum entries, fun _ _ => stops⟩
      · rw [if_neg stops]
        simp only [not_or, not_le, Bool.not_eq_true] at stops
        obtain ⟨count, within, marks, -⟩ := ih (seqnum + 1) (Function.update entries
          (slotOf seqnum) { entries (slotOf seqnum) with resending := true })
        exact ⟨count + 1, by omega, marks_cons stops.1 stops.2.1 stops.2.2 marks, by omega⟩

/-! ## The window over all runs -/

/-- The span of a synchronised ring is at most the window, and every packet held lies in
the window under its own slot. -/
structure WindowSound (b : RaopBuffer δ) : Prop where
  known : KnownCn b.cn
  span : b.isEmpty = false → (b.lastSeqnum - b.firstSeqnum + 1).toNat ≤ 32
  vacant : b.isEmpty = true → ∀ i, (b.entries i).available = false
  owner : ∀ i, (b.entries i).available = true →
    InWindow b (b.entries i).seqnum ∧ slotOf (b.entries i).seqnum = i

theorem span_last {first last n : BitVec 16} (span : (last - first + 1).toNat ≤ 32)
    (inside : (n - first).toNat < 32) :
    ((if 0 < seqnumCmp n last then n else last) - first + 1).toNat ≤ 32 := by
  split
  · have one : (n - first + 1).toNat = ((n - first).toNat + 1) % 65536 := by
      rw [BitVec.toNat_add]
      rfl
    omega
  · exact span

theorem takes_owner {after : RaopBuffer δ} {n : BitVec 16} (takes : Takes after n)
    (inside : InWindow after n)
    (others : ∀ i, i ≠ slotOf n → (after.entries i).available = true →
      InWindow after (after.entries i).seqnum ∧ slotOf (after.entries i).seqnum = i)
    (i : Fin raopBufferLength) (available : (after.entries i).available = true) :
    InWindow after (after.entries i).seqnum ∧ slotOf (after.entries i).seqnum = i := by
  by_cases here : i = slotOf n
  · subst here
    rw [takes.seqnum]
    exact ⟨inside, rfl⟩
  · exact others i here available

theorem inWindow_first {b : RaopBuffer δ} {n : BitVec 16} (first : b.firstSeqnum = n) :
    InWindow b n := by
  simp [InWindow, first, raopBufferLength]

theorem span_one {b : RaopBuffer δ} {n : BitVec 16} (first : b.firstSeqnum = n)
    (last : b.lastSeqnum = n) : (b.lastSeqnum - b.firstSeqnum + 1).toNat ≤ 32 := by
  rw [first, last, BitVec.sub_self, BitVec.zero_add]
  decide

theorem queue_windowSound (codec : AudioCodec δ) {b : RaopBuffer δ} (sound : WindowSound b)
    (data : Bytes) (datalen : BitVec 16) (useSeqnum : Bool) :
    WindowSound (raopBufferQueue codec b data datalen useSeqnum).1 := by
  have effect := queue_effect codec b sound.known data datalen useSeqnum
  have known : KnownCn (raopBufferQueue codec b data datalen useSeqnum).1.cn := by
    rw [queue_cn]
    exact sound.known
  generalize (raopBufferQueue codec b data datalen useSeqnum).1 = after at effect known
  generalize packetSeqnum b data useSeqnum = n at effect
  cases effect with
  | dropped same refused =>
      subst same
      exact sound
  | fresh accepted synced inside takes others first last =>
      refine ⟨known, fun _ => ?_, fun empty => ?_, takes_owner takes ?_ ?_⟩
      · rw [first, last]
        exact span_last (sound.span synced) inside
      · rw [takes.synced] at empty
        exact absurd empty Bool.false_ne_true
      · rw [InWindow, first]
        exact inside
      · intro i other available
        rw [others i other] at available ⊢
        rw [InWindow, first]
        exact sound.owner i available
  | opened accepted empty takes others first last =>
      refine ⟨known, fun _ => span_one first last, fun stillEmpty => ?_,
        takes_owner takes (inWindow_first first) ?_⟩
      · rw [takes.synced] at stillEmpty
        exact absurd stillEmpty Bool.false_ne_true
      · intro i other available
        rw [others i other, sound.vacant empty i] at available
        exact absurd available Bool.false_ne_true
  | restarted accepted lower upper timely takes others first last =>
      refine ⟨known, fun _ => span_one first last, fun stillEmpty => ?_,
        takes_owner takes (inWindow_first first) ?_⟩
      · rw [takes.synced] at stillEmpty
        exact absurd stillEmpty Bool.false_ne_true
      · intro i other available
        rw [(others i other).1] at available
        exact absurd available Bool.false_ne_true

theorem ready_pending {b : RaopBuffer δ} {noResend : Bool} (ready : Ready b noResend)
    (span : (b.lastSeqnum - b.firstSeqnum + 1).toNat ≤ 32) :
    0 < (b.lastSeqnum - b.firstSeqnum + 1).toNat := by
  by_contra none
  have one : (b.lastSeqnum - b.firstSeqnum + 1).toNat =
      ((b.lastSeqnum - b.firstSeqnum).toNat + 1) % 65536 := by
    rw [BitVec.toNat_add]
    rfl
  have distance : seqnumCmp b.lastSeqnum b.firstSeqnum = -1 := by
    rw [seqnumCmp_distance]
    split <;> omega
  refine ready.1 (Or.inr ?_)
  rw [distance]
  decide

theorem dequeue_windowSound {b : RaopBuffer δ} (sound : WindowSound b) (noResend : Bool) :
    WindowSound (raopBufferDequeue b noResend).1 := by
  rcases dequeue_effect b noResend with same | ⟨freed, ready, vacant, -, after⟩
  · rw [same]
    exact sound
  · have synced : b.isEmpty = false := by
      by_contra empty
      exact ready.1 (Or.inl (by simpa using empty))
    have span := sound.span synced
    have pending := ready_pending ready span
    rw [after]
    refine ⟨sound.known, fun _ => ?_, fun empty => ?_, fun i available => ?_⟩
    · have moved : b.lastSeqnum - (b.firstSeqnum + 1) + 1 = b.lastSeqnum - b.firstSeqnum := by
        apply BitVec.eq_of_toNat_eq
        bv_omega
      have one : (b.lastSeqnum - b.firstSeqnum + 1).toNat =
          ((b.lastSeqnum - b.firstSeqnum).toNat + 1) % 65536 := by
        rw [BitVec.toNat_add]
        rfl
      dsimp only
      rw [moved]
      omega
    · rw [synced] at empty
      exact absurd empty Bool.false_ne_true
    · dsimp only at available ⊢
      by_cases here : i = slotOf b.firstSeqnum
      · rw [here, Function.update_self, vacant] at available
        exact absurd available Bool.false_ne_true
      · rw [Function.update_of_ne here] at available ⊢
        obtain ⟨inside, slot⟩ := sound.owner i available
        refine ⟨?_, slot⟩
        have notFront : (b.entries i).seqnum ≠ b.firstSeqnum := by
          intro front
          rw [front] at slot
          exact here slot.symm
        have one : (b.firstSeqnum + 1).toNat = (b.firstSeqnum.toNat + 1) % 65536 := by
          rw [BitVec.toNat_add]
          rfl
        have apart : (b.entries i).seqnum.toNat ≠ b.firstSeqnum.toNat := fun same =>
          notFront (BitVec.eq_of_toNat_eq same)
        simp only [InWindow, raopBufferLength, BitVec.toNat_sub, one] at inside ⊢
        omega

theorem handleResends_effect (b : RaopBuffer δ) :
    ∃ count ≤ (-seqnumCmp b.firstSeqnum b.lastSeqnum).toNat, ∃ stop,
      Marks b.lastSeqnum b.firstSeqnum b.entries count
          ((raopBufferHandleResends b).1.entries, stop) ∧
        (raopBufferHandleResends b).1 = { b with entries := (raopBufferHandleResends b).1.entries } ∧
        (raopBufferHandleResends b).2 =
          (if seqnumCmp stop b.firstSeqnum = 0 then none
            else some (b.firstSeqnum, seqnumCmp stop b.firstSeqnum)) ∧
        (seqnumCmp b.firstSeqnum b.lastSeqnum < 0 → count = 0 →
          (b.entries (slotOf b.firstSeqnum)).available = true ∨
            (b.entries (slotOf b.firstSeqnum)).resending = true) := by
  unfold raopBufferHandleResends
  dsimp only
  by_cases before : seqnumCmp b.firstSeqnum b.lastSeqnum < 0
  · rw [if_pos before]
    obtain ⟨count, within, marks, blocked⟩ := markResending_marks b.lastSeqnum
      (-seqnumCmp b.firstSeqnum b.lastSeqnum).toNat b.firstSeqnum b.entries
    refine ⟨count, within, _, marks, rfl, rfl, fun _ none => ?_⟩
    exact (blocked (by omega) none).resolve_left (not_le.mpr before)
  · rw [if_neg before]
    refine ⟨0, Nat.zero_le _, b.firstSeqnum, marks_none _ _ _, rfl, ?_, ?_⟩
    · rw [if_pos (seqnumCmp_self _)]
    · exact fun earlier => absurd earlier before

theorem seqnumCmp_add (seqnum : BitVec 16) (count : ℕ) (short : count < 32768) :
    seqnumCmp (seqnum + BitVec.ofNat 16 count) seqnum = count := by
  have distance : (seqnum + BitVec.ofNat 16 count - seqnum).toNat = count := by
    rw [add_sub_distance seqnum seqnum count (by simp; omega)]
    simp
  rw [seqnumCmp_distance, distance, if_pos short]

theorem handleResends_windowSound {b : RaopBuffer δ} (sound : WindowSound b) :
    WindowSound (raopBufferHandleResends b).1 := by
  obtain ⟨count, -, stop, marks, after, -, -⟩ := handleResends_effect b
  have kept : ∀ i, ((raopBufferHandleResends b).1.entries i).available =
      (b.entries i).available ∧
        ((raopBufferHandleResends b).1.entries i).seqnum = (b.entries i).seqnum := by
    intro i
    rcases marks.others i with same | ⟨same, -⟩
    · dsimp only at same
      rw [same]
      exact ⟨rfl, rfl⟩
    · dsimp only at same
      rw [same]
      exact ⟨rfl, rfl⟩
  rw [after]
  refine ⟨sound.known, sound.span, fun empty i => ?_, fun i available => ?_⟩
  · exact (kept i).1.trans (sound.vacant empty i)
  · have owned := sound.owner i ((kept i).1.symm.trans available)
    dsimp only
    rw [(kept i).2]
    exact owned

theorem flush_windowSound {b : RaopBuffer δ} (sound : WindowSound b) (nextSeq : ℤ) :
    WindowSound (raopBufferFlush b nextSeq) := by
  have known : KnownCn (raopBufferFlush b nextSeq).cn := by
    rw [flush_cn]
    exact sound.known
  refine ⟨known, fun synced => ?_, fun _ => flush_available b nextSeq, fun i available => ?_⟩
  · by_cases inRange : SeqInRange nextSeq
    · obtain ⟨-, first, last⟩ := flush_inRange b nextSeq inRange
      have closed : wrap 16 (nextSeq - 1) - wrap 16 nextSeq + 1 = 0 := by
        rw [wrap_sub]
        have one : wrap 16 (-1) = -1 := by decide
        rw [one]
        bv_omega
      rw [first, last, closed]
      decide
    · rw [flush_outOfRange b nextSeq inRange] at synced
      exact absurd synced Bool.true_eq_false.mp
  · rw [flush_available b nextSeq i] at available
    exact absurd available Bool.false_ne_true

theorem ringCalls_windowSound (codec : AudioCodec δ) {b : RaopBuffer δ} (sound : WindowSound b)
    (call : RingCall) : WindowSound ((ringCalls codec).step b call).1 := by
  cases call with
  | queue data datalen useSeqnum => exact queue_windowSound codec sound data datalen useSeqnum
  | dequeue noResend => exact dequeue_windowSound sound noResend
  | handleResends => exact handleResends_windowSound sound
  | flush nextSeq => exact flush_windowSound sound nextSeq

theorem init_windowSound (abi : Abi) (codec : AudioCodec δ) (malloc : Malloc) (fmtp : CString)
    (aeskey aesiv : Bytes) (et cn : ℤ) (b : RaopBuffer δ)
    (success : raopBufferInit abi codec malloc fmtp aeskey aesiv et cn = some b) :
    WindowSound b ∧ b.isEmpty = true ∧ ∀ i, (b.entries i).resending = false := by
  obtain ⟨known, related⟩ := init_spec abi codec malloc fmtp aeskey aesiv et cn b success
  have vacant : b.isEmpty = true ∧ ∀ i, (b.entries i).available = false := related.view
  have unmarked : ∀ i, (b.entries i).resending = false := by
    unfold raopBufferInit at success
    split at success
    · simp at success
    · dsimp only at success
      split at success
      · split at success
        · simp at success
        · cases Option.some.inj success
          exact fun _ => rfl
      · simp at success
  refine ⟨⟨known, fun synced => ?_, fun _ => vacant.2, fun i available => ?_⟩, vacant.1, unmarked⟩
  · rw [vacant.1] at synced
    exact absurd synced Bool.true_eq_false.mp
  · rw [vacant.2 i] at available
    exact absurd available Bool.false_ne_true

end AirCast.Raop
