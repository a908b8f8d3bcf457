import AirCast.Raop.RaopRingCalls

/-! # Resend requests of the audio ring

Beside the ring runs a record of the numbers that a resend request has covered since
they entered the window.  A request never names a recorded number again.  A missing
number is left out only where its slot still carries the mark of an earlier number. -/

set_option autoImplicit false

namespace AirCast.Raop

variable {δ : Type}

/-! ## The record of requests -/

def requestedNumbers : Option (BitVec 16 × ℤ) → List (BitVec 16)
  | none => []
  | some (seqnum, count) => (List.range count.toNat).map fun k => seqnum + BitVec.ofNat 16 k

/-- The numbers covered by a request since they entered the window, or since the last
explicit flush. -/
def coverage (codec : AudioCodec δ) (b : RaopBuffer δ) (call : RingCall)
    (covered : List (BitVec 16)) : List (BitVec 16) :=
  let after := (ringCalls codec).step b call
  match call with
  | .flush _ => []
  | _ => (covered ++ requestedNumbers after.2).filter fun seqnum => InWindow after.1 seqnum

def recordedRing (codec : AudioCodec δ) :
    Transducer (RaopBuffer δ × List (BitVec 16)) RingCall
      (List (BitVec 16) × Option (BitVec 16 × ℤ)) :=
  (ringCalls codec).observe (coverage codec)

/-! ## Recorded numbers are marked or held -/

/-- Every recorded number is in the window, and its slot keeps the request from being
made again. -/
def Answered (b : RaopBuffer δ) (covered : List (BitVec 16)) : Prop :=
  ∀ n ∈ covered, InWindow b n ∧
    ((b.entries (slotOf n)).available = true ∨ (b.entries (slotOf n)).resending = true)

theorem takes_answered {b after : RaopBuffer δ} {m : BitVec 16} (takes : Takes after m)
    (others : ∀ i, i ≠ slotOf m → after.entries i = b.entries i) {n : BitVec 16}
    (answered : (b.entries (slotOf n)).available = true ∨
      (b.entries (slotOf n)).resending = true) :
    (after.entries (slotOf n)).available = true ∨ (after.entries (slotOf n)).resending = true := by
  by_cases here : slotOf n = slotOf m
  · rw [here]
    exact Or.inl takes.available
  · rw [others _ here]
    exact answered

theorem queue_answered {b after : RaopBuffer δ} {m : BitVec 16} {ret : ℤ}
    (effect : QueueEffect b m after ret)
    {covered : List (BitVec 16)} (answered : Answered b covered) :
    Answered after (covered.filter fun n => InWindow after n) := by
  intro n member
  obtain ⟨recorded, inside⟩ := List.mem_filter.mp member
  have insideAfter : InWindow after n := of_decide_eq_true inside
  obtain ⟨insideBefore, kept⟩ := answered n recorded
  refine ⟨insideAfter, ?_⟩
  cases effect with
  | dropped same refused =>
      rw [same]
      exact kept
  | fresh accepted synced inside takes others first last => exact takes_answered takes others kept
  | opened accepted empty takes others first last => exact takes_answered takes others kept
  | restarted accepted lower upper timely takes others first last =>
      -- the window has moved by 32 numbers at least, so no recorded number is left
      exfalso
      simp only [InWindow, raopBufferLength, first, BitVec.toNat_sub] at *
      omega

theorem dequeue_answered (b : RaopBuffer δ) (noResend : Bool) {covered : List (BitVec 16)}
    (answered : Answered b covered) :
    Answered (raopBufferDequeue b noResend).1
      (covered.filter fun n => InWindow (raopBufferDequeue b noResend).1 n) := by
  intro n member
  obtain ⟨recorded, inside⟩ := List.mem_filter.mp member
  have insideAfter : InWindow (raopBufferDequeue b noResend).1 n := of_decide_eq_true inside
  obtain ⟨insideBefore, kept⟩ := answered n recorded
  refine ⟨insideAfter, ?_⟩
  rcases dequeue_effect b noResend with same | ⟨freed, -, -, -, after⟩
  · rw [same]
    exact kept
  · rw [after] at insideAfter ⊢
    have notFront : n ≠ b.firstSeqnum := by
      rintro rfl
      have one : (b.firstSeqnum + 1).toNat = (b.firstSeqnum.toNat + 1) % 65536 := by
        rw [BitVec.toNat_add]
        rfl
      simp only [InWindow, raopBufferLength, BitVec.toNat_sub, one] at insideAfter
      omega
    have apart : slotOf n ≠ slotOf b.firstSeqnum := fun same =>
      notFront (eq_of_slotOf_eq b.firstSeqnum n b.firstSeqnum insideBefore (by simp) same)
    dsimp only
    rw [Function.update_of_ne apart]
    exact kept

theorem handleResends_answered (b : RaopBuffer δ) {covered : List (BitVec 16)}
    (answered : Answered b covered) :
    Answered (raopBufferHandleResends b).1
      ((covered ++ requestedNumbers (raopBufferHandleResends b).2).filter
        fun n => InWindow (raopBufferHandleResends b).1 n) := by
  obtain ⟨count, within, stop, marks, after, asked, -⟩ := handleResends_effect b
  intro n member
  obtain ⟨recorded, inside⟩ := List.mem_filter.mp member
  refine ⟨of_decide_eq_true inside, ?_⟩
  rcases List.mem_append.mp recorded with earlier | fresh
  · obtain ⟨-, kept⟩ := answered n earlier
    rcases marks.others (slotOf n) with same | ⟨same, -⟩
    · dsimp only at same
      rw [same]
      exact kept
    · dsimp only at same
      rw [same]
      exact Or.inr rfl
  · rw [asked] at fresh
    split at fresh
    · simp [requestedNumbers] at fresh
    · simp only [requestedNumbers, List.mem_map, List.mem_range] at fresh
      obtain ⟨k, below, rfl⟩ := fresh
      have bound : count < 32768 ∨ count = 32768 := by
        have := seqnumCmp_distance b.firstSeqnum b.lastSeqnum
        split at this <;> omega
      have reached : k < count := by
        have stopped := marks.stop
        dsimp only at stopped
        rcases bound with short | long
        · rw [stopped, seqnumCmp_add _ _ short] at below
          omega
        · rw [long]
          have := seqnumCmp_distance stop b.firstSeqnum
          split at this <;> omega
      exact Or.inr (marks.marked k reached)

theorem coverage_answered (codec : AudioCodec δ) {b : RaopBuffer δ} (known : KnownCn b.cn)
    {covered : List (BitVec 16)} (answered : Answered b covered) (call : RingCall) :
    Answered ((ringCalls codec).step b call).1 (coverage codec b call covered) := by
  cases call with
  | queue data datalen useSeqnum =>
      simp only [coverage, ringCalls, requestedNumbers, List.append_nil]
      exact queue_answered (queue_effect codec b known data datalen useSeqnum) answered
  | dequeue noResend =>
      simp only [coverage, ringCalls, requestedNumbers, List.append_nil]
      exact dequeue_answered b noResend answered
  | handleResends => exact handleResends_answered b answered
  | flush nextSeq =>
      intro n member
      simp [coverage] at member

/-! ## The request on the wire -/

def raopRtpResendCallback (controlSeqnum seqnum count : BitVec 16) : BitVec 16 × Bytes :=
  let byte (x : BitVec 16) : UInt8 := ⟨x.setWidth 8⟩
  (controlSeqnum + 1,
    [0x80, 0x55 ||| 0x80, byte (controlSeqnum >>> 8), byte controlSeqnum,
      byte (seqnum >>> 8), byte seqnum, byte (count >>> 8), byte count])

theorem resendCallback_decodes (controlSeqnum seqnum count : BitVec 16) :
    be16 (raopRtpResendCallback controlSeqnum seqnum count).2 4 = seqnum ∧
      be16 (raopRtpResendCallback controlSeqnum seqnum count).2 6 = count :=
  ⟨bytes_append seqnum, bytes_append count⟩

/-! ## Requests are exact -/

/-- What a request may ask for, given the numbers covered before. -/
structure ExactRequest (b : RaopBuffer δ) (covered : List (BitVec 16)) (seqnum : BitVec 16)
    (count : ℤ) : Prop where
  first : seqnum = b.firstSeqnum
  lower : 1 ≤ count
  upper : count ≤ 31
  before : ∀ k : ℕ, k < count → seqnumCmp (seqnum + BitVec.ofNat 16 k) b.lastSeqnum < 0
  inside : ∀ k : ℕ, k < count → InWindow b (seqnum + BitVec.ofNat 16 k)
  missing : ∀ k : ℕ, k < count →
    (b.entries (slotOf (seqnum + BitVec.ofNat 16 k))).available = false
  uncovered : ∀ k : ℕ, k < count → seqnum + BitVec.ofNat 16 k ∉ covered

theorem span_distance {b : RaopBuffer δ} (sound : WindowSound b) (synced : b.isEmpty = false)
    (before : seqnumCmp b.firstSeqnum b.lastSeqnum < 0) :
    (-seqnumCmp b.firstSeqnum b.lastSeqnum).toNat ≤ 31 := by
  have span := sound.span synced
  have one : (b.lastSeqnum - b.firstSeqnum + 1).toNat =
      ((b.lastSeqnum - b.firstSeqnum).toNat + 1) % 65536 := by
    rw [BitVec.toNat_add]
    rfl
  rw [seqnumCmp_distance] at before ⊢
  simp only [BitVec.toNat_sub] at span one before ⊢
  split at before
  · omega
  · rename_i far
    rw [if_neg far]
    omega

theorem handleResends_exactRequest {b : RaopBuffer δ} {covered : List (BitVec 16)}
    (sound : WindowSound b) (answered : Answered b covered) (synced : b.isEmpty = false)
    {seqnum : BitVec 16} {count : ℤ}
    (asks : (raopBufferHandleResends b).2 = some (seqnum, count)) :
    ExactRequest b covered seqnum count := by
  obtain ⟨steps, within, stop, marks, -, answer, -⟩ := handleResends_effect b
  have before : seqnumCmp b.firstSeqnum b.lastSeqnum < 0 := by
    by_contra later
    have silent : (raopBufferHandleResends b).2 = none := by
      simp only [raopBufferHandleResends, if_neg later]
    rw [silent] at asks
    exact absurd asks (by simp)
  have few : steps ≤ 31 := within.trans (span_distance sound synced before)
  have stopped := marks.stop
  dsimp only at stopped
  rw [answer, stopped, seqnumCmp_add _ _ (by omega)] at asks
  split at asks
  · exact absurd asks (by simp)
  · rename_i some'
    obtain ⟨rfl, rfl⟩ := Prod.mk.inj (Option.some.inj asks)
    refine ⟨rfl, by omega, by omega, fun k below => marks.before k (by omega), ?_,
      fun k below => marks.vacant k (by omega), ?_⟩
    · intro k below
      have distance := add_sub_distance b.firstSeqnum b.firstSeqnum k (by simp; omega)
      simp only [InWindow, raopBufferLength, distance, BitVec.sub_self, BitVec.toNat_zero]
      omega
    · intro k below recorded
      obtain ⟨-, held | marked⟩ := answered _ recorded
      · rw [marks.vacant k (by omega)] at held
        exact absurd held Bool.false_ne_true
      · rw [marks.unmarked k (by omega)] at marked
        exact absurd marked Bool.false_ne_true

/-- After every run, a request of a synchronised ring starts at the next number, names
only missing numbers before the last one that no earlier request covered, and reaches the
sender unchanged. -/
theorem resend_requests_exact (abi : Abi) (codec : AudioCodec δ) (malloc : Malloc)
    (fmtp : CString)
    (aeskey aesiv : Bytes) (et cn : ℤ) (b : RaopBuffer δ)
    (success : raopBufferInit abi codec malloc fmtp aeskey aesiv et cn = some b)
    (calls : List RingCall) :
    let reached := ((recordedRing codec).run (b, []) calls).1
    reached.1.isEmpty = false → ∀ (seqnum : BitVec 16) (count : ℤ),
      (raopBufferHandleResends reached.1).2 = some (seqnum, count) →
        ExactRequest reached.1 reached.2 seqnum count ∧
          ∀ controlSeqnum : BitVec 16,
            let packet := (raopRtpResendCallback controlSeqnum seqnum (BitVec.ofInt 16 count)).2
            be16 packet 4 = seqnum ∧ ((be16 packet 6).toNat : ℤ) = count := by
  intro reached synced seqnum count asks
  obtain ⟨sound, -, -⟩ := init_windowSound abi codec malloc fmtp aeskey aesiv et cn b success
  have invariant : WindowSound reached.1 ∧ Answered reached.1 reached.2 := by
    refine (recordedRing codec).run_invariant
      (fun s => WindowSound s.1 ∧ Answered s.1 s.2) ?_ calls (b, []) ⟨sound, by simp [Answered]⟩
    intro s call holds
    exact ⟨ringCalls_windowSound codec holds.1 call,
      coverage_answered codec holds.1.known holds.2 call⟩
  have exact' := handleResends_exactRequest invariant.1 invariant.2 synced asks
  refine ⟨exact', fun controlSeqnum => ?_⟩
  obtain ⟨first, counted⟩ :=
    resendCallback_decodes controlSeqnum seqnum (BitVec.ofInt 16 count)
  refine ⟨first, ?_⟩
  have lower := exact'.lower
  have upper := exact'.upper
  rw [counted, BitVec.toNat_ofInt]
  omega

def wrappingLosses : List RingCall :=
  [.queue (plainPacket 0xff 0xfe 1) 16 true,
    .queue (plainPacket 0 1 3) 16 true,
    .dequeue false]

/-- The packets 65535 and 0 are asked for by one request. -/
theorem resend_requests_exact_wrapping :
    ∃ b, raopBufferInit .arm64V8a plainCodec (fun _ => some fun _ => 0)
        (CString.lit "96 1 0 16 40 10 14 2 255 0 0 44100") [] [] 1 1 = some b ∧
      let reached := ((recordedRing plainCodec).run (b, []) wrappingLosses).1
      (raopBufferHandleResends reached.1).2 = some (65535, 2) ∧
        ExactRequest reached.1 reached.2 65535 2 ∧
          ∀ controlSeqnum : BitVec 16,
            let packet := (raopRtpResendCallback controlSeqnum 65535 (BitVec.ofInt 16 2)).2
            be16 packet 4 = 65535 ∧ ((be16 packet 6).toNat : ℤ) = 2 := by
  refine ⟨_, rfl, ?_⟩
  exact ⟨by decide, resend_requests_exact .arm64V8a plainCodec (fun _ => some fun _ => 0)
    (CString.lit "96 1 0 16 40 10 14 2 255 0 0 44100") [] [] 1 1 _ rfl wrappingLosses
    (by decide) 65535 2 (by decide)⟩

/-! ## Requests are complete while no mark goes stale -/

/-- The call leaves no mark in a slot that is about to belong to another number: the ring
does not give up on a number it has asked for, and asks for nothing while it is empty. -/
def NoStaleMark (b : RaopBuffer δ) : RingCall → Prop
  | .dequeue noResend => Ready b noResend →
      ¬ ((b.entries (slotOf b.firstSeqnum)).available = false ∧
        (b.entries (slotOf b.firstSeqnum)).resending = true)
  | .handleResends => b.isEmpty = true → 0 ≤ seqnumCmp b.firstSeqnum b.lastSeqnum
  | .queue _ _ _ => True
  | .flush _ => True

instance (b : RaopBuffer δ) : ∀ call, Decidable (NoStaleMark b call)
  | .dequeue noResend => inferInstanceAs (Decidable (Ready b noResend →
      ¬ ((b.entries (slotOf b.firstSeqnum)).available = false ∧
        (b.entries (slotOf b.firstSeqnum)).resending = true)))
  | .handleResends =>
      inferInstanceAs (Decidable (b.isEmpty = true → 0 ≤ seqnumCmp b.firstSeqnum b.lastSeqnum))
  | .queue _ _ _ => isTrue trivial
  | .flush _ => isTrue trivial

/-- Every mark stands for a recorded number of the window. -/
structure Recorded (b : RaopBuffer δ) (covered : List (BitVec 16)) : Prop where
  marked : b.isEmpty = false → ∀ n, InWindow b n →
    (b.entries (slotOf n)).resending = true → n ∈ covered
  empty : b.isEmpty = true → ∀ i, (b.entries i).resending = false

theorem mem_filter_window {after : RaopBuffer δ} {covered : List (BitVec 16)} {n : BitVec 16}
    (inside : InWindow after n) (recorded : n ∈ covered) :
    n ∈ covered.filter fun m => InWindow after m :=
  List.mem_filter.mpr ⟨recorded, decide_eq_true inside⟩

theorem unmarked_recorded {b : RaopBuffer δ} (unmarked : ∀ i, (b.entries i).resending = false)
    (covered : List (BitVec 16)) : Recorded b covered where
  marked := by
    intro _ n _ marked
    rw [unmarked] at marked
    exact absurd marked Bool.false_ne_true
  empty := fun _ => unmarked

theorem takes_unmarked {after : RaopBuffer δ} {m : BitVec 16} (takes : Takes after m)
    (others : ∀ i, i ≠ slotOf m → (after.entries i).resending = false) (i : Fin raopBufferLength) :
    (after.entries i).resending = false := by
  by_cases here : i = slotOf m
  · rw [here]
    exact takes.unmarked
  · exact others i here

theorem queue_recorded {b after : RaopBuffer δ} {m : BitVec 16} {ret : ℤ}
    (effect : QueueEffect b m after ret)
    {covered : List (BitVec 16)} (answered : Answered b covered) (recorded : Recorded b covered) :
    Recorded after (covered.filter fun n => InWindow after n) := by
  cases effect with
  | dropped same refused =>
      subst same
      exact ⟨fun synced n inside marked =>
        mem_filter_window inside (recorded.marked synced n inside marked), recorded.empty⟩
  | fresh accepted synced inside takes others first last =>
      refine ⟨fun _ n insideAfter marked => ?_, fun empty => ?_⟩
      · have apart : slotOf n ≠ slotOf m := by
          intro here
          rw [here, takes.unmarked] at marked
          exact Bool.false_ne_true marked
        rw [others _ apart] at marked
        have insideBefore : InWindow b n := by
          rw [InWindow, first] at insideAfter
          exact insideAfter
        exact mem_filter_window insideAfter (recorded.marked synced n insideBefore marked)
      · rw [takes.synced] at empty
        exact absurd empty Bool.false_ne_true
  | opened accepted empty takes others first last =>
      refine unmarked_recorded (takes_unmarked takes fun i other => ?_) _
      rw [others i other]
      exact recorded.empty empty i
  | restarted accepted lower upper timely takes others first last =>
      exact unmarked_recorded (takes_unmarked takes fun i other => (others i other).2) _

theorem dequeue_recorded {b : RaopBuffer δ} {covered : List (BitVec 16)}
    (recorded : Recorded b covered) (noResend : Bool) (kept : NoStaleMark b (.dequeue noResend)) :
    Recorded (raopBufferDequeue b noResend).1
      (covered.filter fun n => InWindow (raopBufferDequeue b noResend).1 n) := by
  rcases dequeue_effect b noResend with same | ⟨freed, ready, -, gaveUp, after⟩
  · rw [same]
    exact ⟨fun synced n inside marked =>
      mem_filter_window inside (recorded.marked synced n inside marked), recorded.empty⟩
  · have synced : b.isEmpty = false := by
      by_contra empty
      exact ready.1 (Or.inl (by simpa using empty))
    have clean : freed.resending = false := by
      by_contra marked
      exact kept ready (gaveUp (by simpa using marked))
    rw [after]
    refine ⟨fun _ n inside marked => mem_filter_window inside ?_, fun empty => ?_⟩
    · dsimp only at marked
      rcases advanced_window b.firstSeqnum n inside with rfl | ⟨insideBefore, notFront⟩
      · rw [slotOf_add_length, Function.update_self, clean] at marked
        exact absurd marked Bool.false_ne_true
      · have apart : slotOf n ≠ slotOf b.firstSeqnum := fun same =>
          notFront (eq_of_slotOf_eq b.firstSeqnum n b.firstSeqnum insideBefore (by simp) same)
        rw [Function.update_of_ne apart] at marked
        exact recorded.marked synced n insideBefore marked
    · rw [synced] at empty
      exact absurd empty Bool.false_ne_true

theorem handleResends_recorded {b : RaopBuffer δ} {covered : List (BitVec 16)}
    (sound : WindowSound b) (recorded : Recorded b covered)
    (kept : NoStaleMark b .handleResends) :
    Recorded (raopBufferHandleResends b).1
      ((covered ++ requestedNumbers (raopBufferHandleResends b).2).filter
        fun n => InWindow (raopBufferHandleResends b).1 n) := by
  by_cases before : seqnumCmp b.firstSeqnum b.lastSeqnum < 0
  · have synced : b.isEmpty = false := by
      by_contra empty
      exact absurd (kept (by simpa using empty)) (not_le.mpr before)
    obtain ⟨count, within, stop, marks, after, answer, -⟩ := handleResends_effect b
    have few : count ≤ 31 := within.trans (span_distance sound synced before)
    have stopped := marks.stop
    dsimp only at stopped
    rw [stopped, seqnumCmp_add _ _ (by omega)] at answer
    refine ⟨fun _ n inside marked => mem_filter_window inside ?_, fun empty => ?_⟩
    · rw [List.mem_append]
      have insideBefore : InWindow b n := by
        rw [after] at inside
        exact inside
      rcases marks.others (slotOf n) with same | ⟨-, k, below, slot⟩
      · dsimp only at same
        rw [same] at marked
        exact Or.inl (recorded.marked synced n insideBefore marked)
      · right
        have distance := add_sub_distance b.firstSeqnum b.firstSeqnum k (by simp; omega)
        have number : n = b.firstSeqnum + BitVec.ofNat 16 k := by
          refine eq_of_slotOf_eq b.firstSeqnum _ _ insideBefore ?_ slot
          rw [distance, BitVec.sub_self, BitVec.toNat_zero]
          omega
        rw [answer, if_neg (by omega), number]
        exact List.mem_map.mpr ⟨k, List.mem_range.mpr (by omega), rfl⟩
    · rw [after] at empty
      dsimp only at empty
      rw [synced] at empty
      exact absurd empty Bool.false_ne_true
  · have silent : raopBufferHandleResends b = (b, none) := by
      simp only [raopBufferHandleResends, if_neg before]
    rw [silent]
    simp only [requestedNumbers, List.append_nil]
    exact ⟨fun synced n inside marked =>
      mem_filter_window inside (recorded.marked synced n inside marked), recorded.empty⟩

theorem coverage_recorded (codec : AudioCodec δ) {b : RaopBuffer δ} {covered : List (BitVec 16)}
    (sound : WindowSound b) (answered : Answered b covered) (recorded : Recorded b covered)
    (call : RingCall) (kept : NoStaleMark b call) :
    Recorded ((ringCalls codec).step b call).1 (coverage codec b call covered) := by
  cases call with
  | queue data datalen useSeqnum =>
      simp only [coverage, ringCalls, requestedNumbers, List.append_nil]
      exact queue_recorded (queue_effect codec b sound.known data datalen useSeqnum) answered recorded
  | dequeue noResend =>
      simp only [coverage, ringCalls, requestedNumbers, List.append_nil]
      exact dequeue_recorded recorded noResend kept
  | handleResends => exact handleResends_recorded sound recorded kept
  | flush nextSeq => exact unmarked_recorded (flush_unmarked b nextSeq) _

/-- The next packet is asked for by this call, or an earlier request has covered it. -/
def AskedFor (b : RaopBuffer δ) (covered : List (BitVec 16)) : Prop :=
  (∃ count, (raopBufferHandleResends b).2 = some (b.firstSeqnum, count) ∧ 1 ≤ count) ∨
    b.firstSeqnum ∈ covered

theorem handleResends_asks {b : RaopBuffer δ} {covered : List (BitVec 16)} (sound : WindowSound b)
    (recorded : Recorded b covered) (synced : b.isEmpty = false)
    (before : seqnumCmp b.firstSeqnum b.lastSeqnum < 0) (missing : ¬ Held b b.firstSeqnum) :
    AskedFor b covered := by
  have here : InWindow b b.firstSeqnum := inWindow_first rfl
  have vacant : (b.entries (slotOf b.firstSeqnum)).available = false := by
    by_contra available
    have held : (b.entries (slotOf b.firstSeqnum)).available = true := by simpa using available
    obtain ⟨inside, slot⟩ := sound.owner _ held
    exact missing ⟨held, eq_of_slotOf_eq b.firstSeqnum _ _ inside (by simp) slot⟩
  cases marked : (b.entries (slotOf b.firstSeqnum)).resending with
  | true => exact Or.inr (recorded.marked synced _ here marked)
  | false =>
      left
      obtain ⟨count, within, stop, marks, -, answer, blocked⟩ := handleResends_effect b
      have few : count ≤ 31 := within.trans (span_distance sound synced before)
      have some' : count ≠ 0 := by
        intro none
        rcases blocked before none with available | resending
        · rw [vacant] at available
          exact Bool.false_ne_true available
        · rw [marked] at resending
          exact Bool.false_ne_true resending
      have stopped := marks.stop
      dsimp only at stopped
      rw [stopped, seqnumCmp_add _ _ (by omega), if_neg (by omega)] at answer
      exact ⟨count, answer, by omega⟩

/-- In a run that leaves no stale mark, the next packet of a synchronised ring never stays
missing without a request. -/
theorem resend_requests_complete (abi : Abi) (codec : AudioCodec δ) (malloc : Malloc)
    (fmtp : CString)
    (aeskey aesiv : Bytes) (et cn : ℤ) (b : RaopBuffer δ)
    (success : raopBufferInit abi codec malloc fmtp aeskey aesiv et cn = some b)
    (calls : List RingCall)
    (noStaleMark : (recordedRing codec).Admissible (fun s => NoStaleMark s.1) (b, []) calls) :
    let reached := ((recordedRing codec).run (b, []) calls).1
    reached.1.isEmpty = false → seqnumCmp reached.1.firstSeqnum reached.1.lastSeqnum < 0 →
      ¬ Held reached.1 reached.1.firstSeqnum → AskedFor reached.1 reached.2 := by
  intro reached synced before missing
  obtain ⟨sound, -, unmarked⟩ := init_windowSound abi codec malloc fmtp aeskey aesiv et cn b success
  have invariant := ((recordedRing codec).run_guarded (fun s => NoStaleMark s.1)
    (fun s => WindowSound s.1 ∧ Answered s.1 s.2 ∧ Recorded s.1 s.2) (fun _ => True)
    (fun s call holds kept => ⟨⟨ringCalls_windowSound codec holds.1 call,
        coverage_answered codec holds.1.known holds.2.1 call,
        coverage_recorded codec holds.1 holds.2.1 holds.2.2 call kept⟩, trivial⟩)
    calls (b, []) ⟨sound, by simp [Answered], unmarked_recorded unmarked _⟩ noStaleMark).1
  exact handleResends_asks invariant.1 invariant.2.2 synced before missing

theorem resend_requests_complete_wrapping :
    ∃ b, raopBufferInit .arm64V8a plainCodec (fun _ => some fun _ => 0)
        (CString.lit "96 1 0 16 40 10 14 2 255 0 0 44100") [] [] 1 1 = some b ∧
      let reached := ((recordedRing plainCodec).run (b, []) wrappingLosses).1
      AskedFor reached.1 reached.2 := by
  refine ⟨_, rfl, ?_⟩
  exact resend_requests_complete .arm64V8a plainCodec (fun _ => some fun _ => 0)
    (CString.lit "96 1 0 16 40 10 14 2 255 0 0 44100") [] [] 1 1 _ rfl wrappingLosses
    (by decide) (by decide) (by decide) (by decide)

/-- Packet 11 is asked for and never comes, so that 32 packets later it goes out as
silence; then packet 43 is lost. -/
def forgottenLoss : List RingCall :=
  let asked : List RingCall :=
    [.queue (plainPacket 0 10 1) 16 true, .dequeue false, .queue (plainPacket 0 12 1) 16 true,
      .handleResends]
  let later : List RingCall :=
    (List.range 30).map fun k => .queue (plainPacket 0 (13 + UInt8.ofNat k) 1) 16 true
  let played : List RingCall := List.replicate 32 (.dequeue false)
  let lost : List RingCall := [.queue (plainPacket 0 44 1) 16 true]
  asked ++ later ++ played ++ lost

theorem not_askedFor {b : RaopBuffer δ} {covered : List (BitVec 16)}
    (silent : (raopBufferHandleResends b).2 = none) (uncovered : b.firstSeqnum ∉ covered) :
    ¬ AskedFor b covered := by
  rintro (⟨count, asks, -⟩ | recorded)
  · rw [silent] at asks
    exact absurd asks (by simp)
  · exact uncovered recorded

/-- The packet 43 is missing before the last one, and nobody asks for it. -/
theorem resend_request_forgotten :
    ∃ b, raopBufferInit .arm64V8a plainCodec (fun _ => some fun _ => 0)
        (CString.lit "96 1 0 16 40 10 14 2 255 0 0 44100") [] [] 1 1 = some b ∧
      let reached := ((recordedRing plainCodec).run (b, []) forgottenLoss).1
      reached.1.isEmpty = false ∧ reached.1.firstSeqnum = 43 ∧
        seqnumCmp reached.1.firstSeqnum reached.1.lastSeqnum < 0 ∧
        ¬ Held reached.1 reached.1.firstSeqnum ∧ ¬ AskedFor reached.1 reached.2 := by
  refine ⟨_, rfl, ?_⟩
  exact ⟨by decide +kernel, by decide +kernel, by decide +kernel, by decide +kernel,
    not_askedFor (by decide +kernel) (by decide +kernel)⟩

end AirCast.Raop
