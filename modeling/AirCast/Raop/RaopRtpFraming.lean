import AirCast.Raop.RaopRtpAbort

/-! # Frames of the RTP stream

`raop_rtp_thread_tcp` queues a prefix of the frames of its stream, in order and
unchanged, one frame for each `recv`; frames still in its buffer when the peer
closes are lost.  Its buffer shift moves four bytes too many. -/

set_option autoImplicit false

namespace AirCast.Raop

variable {δ : Type}

/-! ## Frames -/

/-- A frame of a length that both the loop and the buffer admit. -/
structure RtpFrame where
  payload : Bytes
  lower : 12 ≤ payload.length
  upper : payload.length ≤ raopPacketLen

namespace RtpFrame

def encode (f : RtpFrame) : Bytes :=
  36 :: 0 :: UInt8.ofNat (f.payload.length / 256) :: UInt8.ofNat (f.payload.length % 256) ::
    f.payload

@[simp] theorem length_encode (f : RtpFrame) : f.encode.length = 4 + f.payload.length := by
  simp only [encode, List.length_cons]
  omega

end RtpFrame

def streamOf (frames : List RtpFrame) : Bytes := frames.flatMap RtpFrame.encode

theorem be16_length (a b : UInt8) (rest : Bytes) {n : ℕ} (small : n < 65536) :
    (be16 (a :: b :: UInt8.ofNat (n / 256) :: UInt8.ofNat (n % 256) :: rest) 2).toNat = n := by
  have high : (byteAt (a :: b :: UInt8.ofNat (n / 256) :: UInt8.ofNat (n % 256) :: rest) 2).toNat =
      n / 256 := by
    simp [byteAt]
    omega
  have low : (byteAt (a :: b :: UInt8.ofNat (n / 256) :: UInt8.ofNat (n % 256) :: rest) 3).toNat =
      n % 256 := by
    simp [byteAt]
  rw [be16, BitVec.toNat_append, high, low,
    ← Nat.shiftLeft_add_eq_or_of_lt (Nat.mod_lt _ (by decide)), Nat.shiftLeft_eq]
  omega

/-! ## The front of the packet buffer -/

theorem getD_take {l : Bytes} {n i : ℕ} (inside : i < n) : (l.take n).getD i 0 = l.getD i 0 := by
  rw [List.getD_eq_getElem?_getD, List.getElem?_take_of_lt inside, ← List.getD_eq_getElem?_getD]

theorem frontFrame_take (packet : Bytes) (packetlen : ℕ) :
    frontFrame (packet.take packetlen) packetlen = frontFrame packet packetlen := by
  by_cases short : packetlen < 4
  · simp only [frontFrame, if_pos short]
  · have header : be16 (packet.take packetlen) 2 = be16 packet 2 := by
      simp only [be16, byteAt]
      rw [getD_take (by omega), getD_take (by omega)]
    simp only [frontFrame, if_neg short, header]
    rw [getD_take (by omega), getD_take (by omega)]

section Pending

variable {f : RtpFrame} {rest : List RtpFrame} {pending behind : Bytes}
  (text : pending ++ behind = streamOf (f :: rest))

include text

theorem frontFrame_stream :
    frontFrame pending pending.length =
      if pending.length < 4 + f.payload.length then .incomplete else .frame f.payload.length := by
  by_cases short : pending.length < 4
  · rw [if_pos (by omega)]
    simp only [frontFrame, if_pos short]
  · obtain ⟨a, b, c, d, tail, rfl⟩ : ∃ a b c d tail, pending = a :: b :: c :: d :: tail := by
      rcases pending with _ | ⟨a, _ | ⟨b, _ | ⟨c, _ | ⟨d, tail⟩⟩⟩⟩
      · simp at short
      · simp at short
      · simp at short
      · simp at short
      · exact ⟨a, b, c, d, tail, rfl⟩
    simp only [streamOf, List.flatMap_cons, RtpFrame.encode, List.cons_append,
      List.cons.injEq] at text
    obtain ⟨rfl, rfl, rfl, rfl, -⟩ := text
    have upper := f.upper
    have small : f.payload.length < 65536 := by
      simp only [raopPacketLen] at upper
      omega
    simp only [frontFrame, if_neg short, be16_length 36 0 tail small, if_neg (not_lt.mpr upper)]
    rfl

theorem pending_split (complete : 4 + f.payload.length ≤ pending.length) :
    ∃ more, pending = f.encode ++ more ∧ more ++ behind = streamOf rest := by
  have whole : pending ++ behind = f.encode ++ streamOf rest := text
  obtain ⟨more, rfl⟩ : f.encode <+: pending :=
    List.prefix_of_prefix_length_le ⟨_, rfl⟩ ⟨_, whole⟩ (by simpa using complete)
  rw [List.append_assoc, List.append_cancel_left_eq] at whole
  exact ⟨more, rfl, whole⟩

end Pending

/-! ## One round -/

/-- The thread has the encoded frames before it: part of them in its buffer, the
rest in the socket. -/
structure InSync (t : TcpThread δ) (frames : List RtpFrame) : Prop where
  text : t.packet.take t.packetlen ++ t.stream.text = streamOf frames
  array : t.packet.length = raopPacketLen
  fits : t.packetlen ≤ raopPacketLen
  known : KnownCn t.buffer.cn

theorem refill_inSync {t : TcpThread δ} {frames : List RtpFrame} (sync : InSync t frames) :
    InSync t.refill frames ∧ t.refill.stream.text.length + t.received.1.length =
      t.stream.text.length := by
  obtain ⟨text, array, fits, known⟩ := sync
  have split := Arrivals.receive_text (raopPacketLen - t.packetlen) t.stream
  have short := Arrivals.receive_length (raopPacketLen - t.packetlen) t.stream
  have got : t.stream.receive (raopPacketLen - t.packetlen) = t.received := rfl
  rw [got] at split short
  have front : (t.packet.take t.packetlen).length = t.packetlen := by
    rw [List.length_take]
    omega
  refine ⟨⟨?_, ?_, ?_, known⟩, ?_⟩
  · have kept : t.refill.packet.take t.refill.packetlen =
        t.packet.take t.packetlen ++ t.received.1 := by
      refine List.take_left' ?_
      rw [List.length_append, front]
      rfl
    rw [kept, List.append_assoc, ← text, ← split]
    rfl
  · simp only [TcpThread.refill, List.length_append, front, List.length_drop]
    omega
  · simp only [TcpThread.refill]
    omega
  · rw [← split, List.length_append, Nat.add_comm]
    rfl

def frameCalls (codec : AudioCodec δ) (b : RaopBuffer δ) (payload : Bytes) (packetlen : ℕ) :
    List RtpCall :=
  let queued := raopBufferQueue codec b payload (BitVec.ofNat 16 payload.length) false
  .queue payload (BitVec.ofNat 16 payload.length) queued.2 ::
    .shift (4 + payload.length) (packetlen - payload.length) packetlen ::
      ((raopBufferDequeue queued.1 true).2.map RtpCall.process).toList

def afterFrame (codec : AudioCodec δ) (b : RaopBuffer δ) (payload : Bytes) : RaopBuffer δ :=
  (raopBufferDequeue
    (raopBufferQueue codec b payload (BitVec.ofNat 16 payload.length) false).1 true).1

theorem take_shiftPacket {packet : Bytes} {packetlen n : ℕ} (fits : packetlen ≤ packet.length)
    (complete : 4 + n ≤ packetlen) :
    (shiftPacket packet (4 + n) (packetlen - n)).take (packetlen - (4 + n)) =
      (packet.take packetlen).drop (4 + n) := by
  have moved : packetlen - (4 + n) ≤ ((packet.drop (4 + n)).take (packetlen - n)).length := by
    rw [List.length_take, List.length_drop]
    omega
  rw [shiftPacket, List.take_append_of_le_length moved, List.take_take,
    Nat.min_eq_left (by omega), List.drop_take]

theorem tcpFrame_inSync (codec : AudioCodec δ) {t : TcpThread δ} {f : RtpFrame}
    {rest : List RtpFrame} (sync : InSync t (f :: rest))
    (complete : 4 + f.payload.length ≤ t.packetlen) :
    ∃ next, tcpFrame codec t f.payload.length =
        (some next, frameCalls codec t.buffer f.payload t.packetlen) ∧
      InSync next rest ∧ next.buffer = afterFrame codec t.buffer f.payload ∧
      next.stream = t.stream := by
  obtain ⟨text, array, fits, known⟩ := sync
  have lower := f.lower
  have upper := f.upper
  have front : (t.packet.take t.packetlen).length = t.packetlen := by
    rw [List.length_take]
    omega
  obtain ⟨more, split, behind⟩ := pending_split text (by rw [front]; exact complete)
  have length : (BitVec.ofNat 16 f.payload.length).toNat = f.payload.length := by
    simp only [BitVec.toNat_ofNat, raopPacketLen] at upper ⊢
    omega
  have payload : (t.packet.drop 4).take f.payload.length = f.payload := by
    have inside : (t.packet.drop 4).take f.payload.length =
        ((t.packet.take t.packetlen).drop 4).take f.payload.length := by
      rw [List.drop_take, List.take_take, Nat.min_eq_left (by omega)]
    rw [inside, split]
    simp [RtpFrame.encode]
  have accepted := (queue_accepts_iff codec known f.payload (BitVec.ofNat 16 f.payload.length)
    false).mpr (by rw [length]; exact ⟨lower, upper⟩)
  refine ⟨{ t with
    buffer := afterFrame codec t.buffer f.payload
    packet := shiftPacket t.packet (4 + f.payload.length) (t.packetlen - f.payload.length)
    packetlen := t.packetlen - (4 + f.payload.length) }, ?_, ⟨?_, ?_, ?_, ?_⟩, rfl, rfl⟩
  · simp only [tcpFrame, queueAsserted, length, payload, if_pos accepted]
    rfl
  · rw [take_shiftPacket (by omega) complete, split, ← f.length_encode, List.drop_left]
    exact behind
  · simp only [shiftPacket, List.length_append, List.length_drop]
    have := List.length_take_le (t.packetlen - f.payload.length)
      (t.packet.drop (4 + f.payload.length))
    simp only [List.length_take, List.length_drop] at this ⊢
    omega
  · dsimp only
    omega
  · simp only [afterFrame, dequeue_cn, queue_cn]
    exact known

/-- A round ends the thread, waits for more of a frame, or handles the next frame. -/
theorem tcpRound_cases (codec : AudioCodec δ) {t : TcpThread δ} {frames : List RtpFrame}
    (sync : InSync t frames) :
    (t.received.1 = [] ∧ tcpRound codec t noFlush = (none, [])) ∨
    (∃ next, tcpRound codec t noFlush = (some next, []) ∧ InSync next frames ∧
      next.buffer = t.buffer ∧ next.stream.text.length < t.stream.text.length) ∨
    (∃ f rest next packetlen, frames = f :: rest ∧ 4 + f.payload.length ≤ packetlen ∧
      tcpRound codec t noFlush = (some next, frameCalls codec t.buffer f.payload packetlen) ∧
      InSync next rest ∧ next.buffer = afterFrame codec t.buffer f.payload ∧
      next.stream.text.length < t.stream.text.length) := by
  have quiet : processEvents t.buffer noFlush = t.buffer := by simp [processEvents]
  by_cases closed : t.received.1 = []
  · exact Or.inl ⟨closed, by simp only [tcpRound, quiet, if_pos closed]⟩
  · obtain ⟨refilled, less⟩ := refill_inSync sync
    have positive := List.length_pos_iff.mpr closed
    have handled : ∀ rtplen, frontFrame t.refill.packet t.refill.packetlen = .frame rtplen →
        tcpRound codec t noFlush = tcpFrame codec t.refill rtplen := by
      intro rtplen found
      rw [tcpRound, quiet, if_neg closed]
      simp only [found]
    have front : (t.refill.packet.take t.refill.packetlen).length = t.refill.packetlen := by
      rw [List.length_take, refilled.array]
      exact Nat.min_eq_left refilled.fits
    have waits : frontFrame t.refill.packet t.refill.packetlen = .incomplete →
        ∃ next, tcpRound codec t noFlush = (some next, []) ∧ InSync next frames ∧
          next.buffer = t.buffer ∧ next.stream.text.length < t.stream.text.length := by
      intro incomplete
      have round : tcpRound codec t noFlush = (some t.refill, []) := by
        rw [tcpRound, quiet, if_neg closed]
        simp only [incomplete]
      exact ⟨t.refill, round, refilled, rfl, by omega⟩
    refine Or.inr ?_
    cases frames with
    | nil =>
        refine Or.inl (waits ?_)
        have empty : t.refill.packet.take t.refill.packetlen = [] := by
          have text := refilled.text
          exact (List.append_eq_nil_iff.mp text).1
        rw [empty, List.length_nil] at front
        simp [frontFrame, ← front]
    | cons f rest =>
        have stream := frontFrame_stream refilled.text
        rw [front, frontFrame_take] at stream
        by_cases short : t.refill.packetlen < 4 + f.payload.length
        · rw [if_pos short] at stream
          exact Or.inl (waits stream)
        · rw [if_neg short] at stream
          have round := handled _ stream
          obtain ⟨next, handles, sync', buffer, same⟩ :=
            tcpFrame_inSync codec refilled (not_lt.mp short)
          refine Or.inr ⟨f, rest, next, t.refill.packetlen, rfl, not_lt.mp short,
            round.trans handles, sync', buffer, ?_⟩
          rw [same]
          omega

/-! ## Whole runs -/

/-- The packet passed to `raop_buffer_queue`. -/
def RtpCall.queued : RtpCall → Option Bytes
  | .queue data _ _ => some data
  | _ => none

def RtpCall.processed : RtpCall → Option Dequeued
  | .process audio => some audio
  | _ => none

/-- The buffer shift reads inside `packet[0..packetlen)`. -/
def RtpCall.ShiftsInside : RtpCall → Prop
  | .shift offset length packetlen => offset + length ≤ packetlen
  | _ => True

def playFrames (codec : AudioCodec δ) : RaopBuffer δ → List RtpFrame → List Dequeued
  | _, [] => []
  | b, f :: rest =>
      let queued := raopBufferQueue codec b f.payload (BitVec.ofNat 16 f.payload.length) false
      (raopBufferDequeue queued.1 true).2.toList ++
        playFrames codec (afterFrame codec b f.payload) rest

theorem frameCalls_queued (codec : AudioCodec δ) (b : RaopBuffer δ) (payload : Bytes)
    (packetlen : ℕ) : (frameCalls codec b payload packetlen).filterMap RtpCall.queued = [payload] := by
  unfold frameCalls
  dsimp only
  cases (raopBufferDequeue (raopBufferQueue codec b payload
    (BitVec.ofNat 16 payload.length) false).1 true).2 <;> rfl

theorem frameCalls_processed (codec : AudioCodec δ) (b : RaopBuffer δ) (payload : Bytes)
    (packetlen : ℕ) : (frameCalls codec b payload packetlen).filterMap RtpCall.processed =
      (raopBufferDequeue (raopBufferQueue codec b payload
        (BitVec.ofNat 16 payload.length) false).1 true).2.toList := by
  unfold frameCalls
  dsimp only
  cases (raopBufferDequeue (raopBufferQueue codec b payload
    (BitVec.ofNat 16 payload.length) false).1 true).2 <;> rfl

theorem frameCalls_overread (codec : AudioCodec δ) (b : RaopBuffer δ) {payload : Bytes}
    {packetlen : ℕ} (complete : 4 + payload.length ≤ packetlen) :
    ∃ call ∈ frameCalls codec b payload packetlen, ¬ call.ShiftsInside := by
  refine ⟨.shift (4 + payload.length) (packetlen - payload.length) packetlen,
    List.mem_cons_of_mem _ List.mem_cons_self, ?_⟩
  simp only [RtpCall.ShiftsInside]
  omega

section Runs

variable (codec : AudioCodec δ)

theorem run_ended (flushes : List ℤ) : (tcpMachine codec).run none flushes =
    (none, List.replicate flushes.length []) := by
  induction flushes with
  | nil => rfl
  | cons flush rest ih =>
      rw [Transducer.run_cons]
      simp only [tcpMachine] at ih ⊢
      rw [ih]
      rfl

/-- The thread queues some of the frames before it, from the first one on. -/
theorem tcp_run_prefix (rounds : ℕ) :
    ∀ (t : TcpThread δ) (frames : List RtpFrame), InSync t frames →
      ∃ done left, frames = done ++ left ∧
        ((tcpMachine codec).run (some t) (List.replicate rounds noFlush)).2.flatten.filterMap
          RtpCall.queued = done.map RtpFrame.payload ∧
        ((tcpMachine codec).run (some t) (List.replicate rounds noFlush)).2.flatten.filterMap
          RtpCall.processed = playFrames codec t.buffer done ∧
        ((∀ call ∈ ((tcpMachine codec).run (some t) (List.replicate rounds noFlush)).2.flatten,
          call.ShiftsInside) ↔ done = []) := by
  induction rounds with
  | zero => intro t frames _; exact ⟨[], frames, rfl, rfl, rfl, by simp⟩
  | succ rounds ih =>
      intro t frames sync
      rw [List.replicate_succ, Transducer.run_cons]
      have step : (tcpMachine codec).step (some t) noFlush = tcpRound codec t noFlush := rfl
      rw [step]
      rcases tcpRound_cases codec sync with ⟨-, round⟩ | ⟨next, round, sync', same, -⟩ |
        ⟨f, rest, next, packetlen, rfl, complete, round, sync', same, -⟩
      · rw [round, run_ended]
        exact ⟨[], frames, rfl, by simp, by simp [playFrames], by simp⟩
      · rw [round]
        obtain ⟨done, left, split, queued, processed, shifts⟩ := ih next frames sync'
        refine ⟨done, left, split, ?_, ?_, ?_⟩
        · simpa using queued
        · rw [← same]
          simpa using processed
        · simpa using shifts
      · rw [round]
        obtain ⟨done, left, rfl, queued, processed, -⟩ := ih next rest sync'
        refine ⟨f :: done, left, rfl, ?_, ?_, ?_⟩
        · rw [List.flatten_cons, List.filterMap_append, frameCalls_queued, queued]
          rfl
        · rw [List.flatten_cons, List.filterMap_append, frameCalls_processed, processed, same]
          rfl
        · obtain ⟨call, member, overread⟩ := frameCalls_overread codec t.buffer complete
          refine iff_of_false (fun inside => overread (inside call ?_)) (List.cons_ne_nil _ _)
          exact List.mem_append_left _ member

theorem tcp_run_ends (rounds : ℕ) :
    ∀ (t : TcpThread δ) (frames : List RtpFrame), InSync t frames →
      t.stream.text.length < rounds →
        ((tcpMachine codec).run (some t) (List.replicate rounds noFlush)).1 = none := by
  induction rounds with
  | zero => intro t frames _ short; simp at short
  | succ rounds ih =>
      intro t frames sync short
      rw [List.replicate_succ, Transducer.run_cons]
      have step : (tcpMachine codec).step (some t) noFlush = tcpRound codec t noFlush := rfl
      rw [step]
      rcases tcpRound_cases codec sync with ⟨-, round⟩ | ⟨next, round, sync', -, less⟩ |
        ⟨f, rest, next, packetlen, rfl, -, round, sync', -, less⟩
      · rw [round, run_ended]
      · rw [round]
        exact ih next frames sync' (by omega)
      · rw [round]
        exact ih next rest sync' (by omega)

end Runs

/-! ## Reassembly -/

def tcpConnection (codec : AudioCodec δ) (b : RaopBuffer δ) (packet : Bytes)
    {frames : List RtpFrame} (segments : Segmentation (streamOf frames)) :
    Option (TcpThread δ) × List (List RtpCall) :=
  (tcpMachine codec).run (some ⟨b, packet, 0, segments.toArrivals⟩)
    (List.replicate ((streamOf frames).length + 1) noFlush)

def tcpCalls (codec : AudioCodec δ) (b : RaopBuffer δ) (packet : Bytes) {frames : List RtpFrame}
    (segments : Segmentation (streamOf frames)) : List RtpCall :=
  (tcpConnection codec b packet segments).2.flatten

/-- The frames reach the buffer, each once and in order, what is played depends on
them alone, and the shift stays among the bytes received. -/
structure Reassembles (codec : AudioCodec δ) (b : RaopBuffer δ) (frames : List RtpFrame)
    (calls : List RtpCall) : Prop where
  delivered : calls.filterMap RtpCall.queued = frames.map RtpFrame.payload
  played : calls.filterMap RtpCall.processed = playFrames codec b frames
  inside : ∀ call ∈ calls, call.ShiftsInside

/-- Frames from the first one on reach the buffer, and what is played depends on them alone. -/
def ReachesWith (codec : AudioCodec δ) (b : RaopBuffer δ) (frames : List RtpFrame)
    (calls : List RtpCall) : Prop :=
  ∃ done left, frames = done ++ left ∧ calls.filterMap RtpCall.queued = done.map RtpFrame.payload ∧
    calls.filterMap RtpCall.processed = playFrames codec b done

theorem start_inSync {b : RaopBuffer δ} (known : KnownCn b.cn) {packet : Bytes}
    (array : packet.length = raopPacketLen) {frames : List RtpFrame}
    (segments : Segmentation (streamOf frames)) :
    InSync ⟨b, packet, 0, segments.toArrivals⟩ frames where
  text := by
    rw [List.take_zero, List.nil_append]
    exact segments.whole
  array := array
  fits := Nat.zero_le _
  known := known

/-- No stream with a frame in it is reassembled as it should be.  The thread ends behind every
stream, and what it has passed on are the first frames. -/
theorem reassembles_iff_no_frames (codec : AudioCodec δ) (b : RaopBuffer δ) (known : KnownCn b.cn)
    (packet : Bytes) (array : packet.length = raopPacketLen) (frames : List RtpFrame)
    (segments : Segmentation (streamOf frames)) :
    (Reassembles codec b frames (tcpCalls codec b packet segments) ↔ frames = []) ∧
      ReachesWith codec b frames (tcpCalls codec b packet segments) ∧
      (tcpConnection codec b packet segments).1 = none := by
  have sync := start_inSync known array segments
  obtain ⟨done, left, split, queued, processed, shifts⟩ := tcp_run_prefix codec
    ((streamOf frames).length + 1) _ frames sync
  have text : segments.toArrivals.text = streamOf frames := segments.whole
  have ends := tcp_run_ends codec ((streamOf frames).length + 1) _ frames sync (by
    rw [text]
    exact Nat.lt_succ_self _)
  refine ⟨?_, ⟨done, left, split, queued, processed⟩, ends⟩
  constructor
  · rintro ⟨delivered, -, inside⟩
    obtain rfl := shifts.mp inside
    exact List.map_eq_nil_iff.mp (delivered.symm.trans queued)
  · rintro rfl
    obtain ⟨rfl, -⟩ := List.append_eq_nil_iff.mp split.symm
    exact ⟨queued, processed, shifts.mpr rfl⟩

def toneFrame (tone : UInt8) : RtpFrame :=
  ⟨plainPacket 0 1 tone, by simp [plainPacket], by simp [plainPacket, raopPacketLen]⟩

def burst : Segmentation (streamOf [toneFrame 1, toneFrame 2]) where
  parts := [streamOf [toneFrame 1, toneFrame 2]]
  nonempty := by decide
  whole := by rw [List.flatten_singleton]

theorem reassembles_iff_no_frames_burst :
    ¬ Reassembles plainCodec plainBuffer [toneFrame 1, toneFrame 2]
      (tcpCalls plainCodec plainBuffer (List.replicate raopPacketLen 0) burst) := by
  intro reassembles
  have none_ := (reassembles_iff_no_frames plainCodec plainBuffer (Or.inl rfl) _
    List.length_replicate _ burst).1.mp reassembles
  exact absurd none_ (List.cons_ne_nil _ _)

/-- The second frame is still in the packet buffer when the peer closes. -/
theorem burst_loses_frame :
    ¬ Reassembles plainCodec plainBuffer [toneFrame 1, toneFrame 2]
      (tcpCalls plainCodec plainBuffer (List.replicate raopPacketLen 0) burst) := by
  intro reassembles
  have one : (tcpCalls plainCodec plainBuffer (List.replicate raopPacketLen 0) burst).filterMap
      RtpCall.queued = [(toneFrame 1).payload] := by
    decide
  exact absurd (one.symm.trans reassembles.delivered) (by decide)

end AirCast.Raop
