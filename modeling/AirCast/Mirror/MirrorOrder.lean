import AirCast.Mirror.MirrorServer

/-! # Frames before the first codec frame

A connection has no AES context, and the native layer no `mirrbuff`, until a first
codec frame brings them.  `httpd_thread` asks for neither, so that no frame meets a
NULL pointer exactly if the senders keep to an order. -/

set_option autoImplicit false

namespace AirCast.Mirror

/-- What has been received: a SETUP of a mirror stream, a first codec frame, and the
descriptors whose first codec frame came behind a SETUP. -/
structure FrameHistory where
  setupSeen : Bool
  codecSeen : Bool
  keyed : List ℕ
  deriving DecidableEq

def FrameHistory.start : FrameHistory := ⟨false, false, []⟩

/-- A frame of type 1 that its connection takes for the first. -/
def MirrorServer.FirstCodec (s : MirrorServer) (fd : ℕ) (visit : Visit) : Prop :=
  visit.dType = 1 ∧ visit.payload.isSome ∧
    ∃ c ∈ s.connections.find? (·.fd = fd), c.setCodecFlag = false

instance (s : MirrorServer) (fd : ℕ) (visit : Visit) : Decidable (s.FirstCodec fd visit) :=
  inferInstanceAs (Decidable (_ ∧ _ ∧ _))

def FrameHistory.receive (s : MirrorServer) (h : FrameHistory) : MirrorEvent → FrameHistory
  | .setup _ _ _ => { h with setupSeen := true }
  | .accept fd _ _ =>
      if fd ∈ s.connections.map MirrorConnection.fd then h
      else { h with keyed := h.keyed.filter (· ≠ fd) }
  | .frame fd visit =>
      if s.FirstCodec fd visit then
        { h with codecSeen := true, keyed := if h.setupSeen then fd :: h.keyed else h.keyed }
      else h
  | .close _ | .stop => h

def FrameHistory.watch (state : Option MirrorServer) (event : MirrorEvent) (h : FrameHistory) :
    FrameHistory :=
  match state with
  | none => h
  | some s => h.receive s event

/-- A picture comes behind a first codec frame, and that behind a SETUP; what is only
copied comes behind the first codec frame of any connection. -/
def InOrder (h : FrameHistory) (s : MirrorServer) : MirrorEvent → Prop
  | .frame fd visit =>
      visit.payload.isSome → fd ∈ s.connections.map MirrorConnection.fd →
        (visit.dType = 0 → fd ∈ h.keyed) ∧ (visit.dType = 9 → h.codecSeen = true)
  | _ => True

instance (h : FrameHistory) (s : MirrorServer) : ∀ event, Decidable (InOrder h s event)
  | .frame _ _ => inferInstanceAs (Decidable (_ → _ → _ ∧ _))
  | .setup _ _ _ | .accept _ _ _ | .close _ | .stop => isTrue trivial

/-- The pointers are there, and `mirrbuff` is. -/
def MirrorCall.Valid : MirrorCall → Prop
  | .nullContext | .nullBuffer => False
  | _ => True

instance : (call : MirrorCall) → Decidable call.Valid
  | .nullContext | .nullBuffer => isFalse id
  | .play _ _ _ _ | .process _ _ _ _ | .stop | .decrypt _ _ _ | .free _ _ => isTrue trivial

structure FramesOrdered (h : FrameHistory) (s : MirrorServer) : Prop where
  distinct : s.Distinct
  setup : s.gAesKeyCtx.isSome = h.setupSeen
  buffer : s.mirrBuff = h.codecSeen
  keyed : ∀ c ∈ s.connections, c.aesKeyContext.isSome ↔ c.fd ∈ h.keyed
  opened : ∀ c ∈ s.connections, c.aesKeyContext.isSome → h.codecSeen = true
  unstarted : ∀ c ∈ s.connections, c.setCodecFlag = false → c.aesKeyContext = none

section Kept

variable {h : FrameHistory} {s : MirrorServer}

theorem start_ordered (maxConnections : ℕ) : FramesOrdered .start (mirrorStart maxConnections) :=
  ⟨List.nodup_nil, rfl, rfl, by simp [mirrorStart], by simp [mirrorStart], by simp [mirrorStart]⟩

theorem stop_ordered (ordered : FramesOrdered h s) : FramesOrdered h s.mirroringStop :=
  ⟨ordered.distinct, ordered.setup, ordered.buffer, ordered.keyed, ordered.opened,
    ordered.unstarted⟩

theorem freeContext_valid (ctx : Option ℕ) : ∀ call ∈ (s.freeContext ctx).2, call.Valid := by
  cases ctx with
  | none => simp [MirrorServer.freeContext]
  | some ctx => simp [MirrorServer.freeContext, MirrorCall.Valid]

theorem remove_ordered (ordered : FramesOrdered h s) (c : MirrorConnection) :
    FramesOrdered h (s.httpdRemoveConnection c).1 := by
  refine ⟨ordered.distinct.remove c, ?_, ?_,
    fun other member => ordered.keyed other (s.mem_of_remove member).1,
    fun other member => ordered.opened other (s.mem_of_remove member).1,
    fun other member => ordered.unstarted other (s.mem_of_remove member).1⟩
  · rw [MirrorServer.httpdRemoveConnection, MirrorServer.freeContext_gAesKeyCtx]
    exact ordered.setup
  · rw [MirrorServer.httpdRemoveConnection, MirrorServer.freeContext_mirrBuff]
    exact ordered.buffer

theorem add_ordered (ordered : FramesOrdered h s) {fd : ℕ} (remote : Remote)
    (fresh : fd ∉ s.connections.map MirrorConnection.fd) (unkeyed : fd ∉ h.keyed) :
    FramesOrdered h { s with connections := s.connections ++ [⟨fd, remote, false, none⟩] } := by
  refine ⟨ordered.distinct.add remote fresh, ordered.setup, ordered.buffer, ?_, ?_, ?_⟩
  · intro c member
    rcases List.mem_append.mp member with member | member
    · exact ordered.keyed c member
    · cases List.mem_singleton.mp member
      simpa using unkeyed
  · intro c member
    rcases List.mem_append.mp member with member | member
    · exact ordered.opened c member
    · cases List.mem_singleton.mp member
      simp
  · intro c member
    rcases List.mem_append.mp member with member | member
    · exact ordered.unstarted c member
    · cases List.mem_singleton.mp member
      simp

theorem forget_ordered (ordered : FramesOrdered h s) {fd : ℕ}
    (fresh : fd ∉ s.connections.map MirrorConnection.fd) :
    FramesOrdered { h with keyed := h.keyed.filter (· ≠ fd) } s := by
  refine ⟨ordered.distinct, ordered.setup, ordered.buffer, fun c member => ?_, ordered.opened,
    ordered.unstarted⟩
  have unlike : c.fd ≠ fd := fun same => fresh (same ▸ List.mem_map_of_mem member)
  simp [ordered.keyed c member, unlike]

theorem accept_ordered (ordered : FramesOrdered h s) (fd : ℕ) (remote : Remote) (connInit : Bool) :
    FramesOrdered (h.receive s (.accept fd remote connInit))
        (s.httpdAcceptConnection fd remote connInit).1 ∧
      ∀ call ∈ (s.httpdAcceptConnection fd remote connInit).2, call.Valid := by
  by_cases used : fd ∈ s.connections.map MirrorConnection.fd
  · simp only [FrameHistory.receive, if_pos used, MirrorServer.httpdAcceptConnection,
      if_pos (Or.inr used : _ ∨ _)]
    exact ⟨ordered, by simp⟩
  · simp only [FrameHistory.receive, if_neg used]
    refine MirrorServer.accept_invariant s (FramesOrdered _) MirrorCall.Valid fd remote connInit
      (fun _ kept => kept.distinct) (fun _ kept => ⟨stop_ordered kept, trivial⟩)
      (fun _ c kept _ => ⟨remove_ordered kept c, freeContext_valid _⟩)
      (fun _ kept fresh => add_ordered kept remote fresh (by simp)) used
      (forget_ordered ordered used)

theorem play_ordered (ordered : FramesOrdered h s) {c : MirrorConnection}
    (member : c ∈ s.connections) (first : c.setCodecFlag = false) (payload : Bytes)
    (timestamp : ℕ) :
    FramesOrdered
      { h with codecSeen := true, keyed := if h.setupSeen then c.fd :: h.keyed else h.keyed }
      (s.mirroringPlay c payload timestamp).1 := by
  refine ⟨ordered.distinct.play c payload timestamp, ordered.setup, rfl, ?_, fun _ _ _ => rfl, ?_⟩
  · intro after present
    rcases s.mem_of_play present with ⟨there, other⟩ | ⟨_, _, same, rfl⟩
    · cases seen : h.setupSeen <;> simp [other, ordered.keyed after there]
    · have unkeyed : c.fd ∉ h.keyed := by
        rw [← ordered.keyed c member, ordered.unstarted c member first]
        simp
      cases seen : h.setupSeen <;> simp [same, ordered.setup, seen, unkeyed]
  · intro after present
    rcases s.mem_of_play present with ⟨there, -⟩ | ⟨_, _, -, rfl⟩
    · exact ordered.unstarted after there
    · simp

theorem process_ordered (ordered : FramesOrdered h s) {payload : Bytes} {payloadtype : UInt8}
    {timestamp : ℕ} {remote : Remote} {after : MirrorServer}
    (next : (s.mirroringProcess payload payloadtype timestamp remote).1 = some after) :
    FramesOrdered h after := by
  unfold MirrorServer.mirroringProcess at next
  split at next
  · simp at next
  · exact Option.some.inj next ▸ ordered

theorem process_valid (ordered : FramesOrdered h s) (payload : Bytes) (payloadtype : UInt8)
    (timestamp : ℕ) (remote : Remote) :
    (∀ call ∈ (s.mirroringProcess payload payloadtype timestamp remote).2, call.Valid) ↔
      (payloadtype = 0 → h.codecSeen = true) := by
  rw [← ordered.buffer]
  unfold MirrorServer.mirroringProcess
  split
  · rename_i early
    simp [MirrorCall.Valid, early.1, early.2]
  · rename_i timely
    refine iff_of_true (by simp [MirrorCall.Valid]) fun picture => ?_
    simpa [picture] using timely

theorem decrypted_ordered (ordered : FramesOrdered h s) (cipher : CtrCipher) (ctx : ℕ)
    (payload : Bytes) : FramesOrdered h (MirrorServer.decrypted cipher s ctx payload).1 := by
  obtain ⟨_, same, -⟩ := MirrorServer.decrypted_spec s cipher ctx payload
  rw [same]
  exact ⟨ordered.distinct, ordered.setup, ordered.buffer, ordered.keyed, ordered.opened,
    ordered.unstarted⟩

end Kept

section Step

variable (cipher : CtrCipher) {h : FrameHistory} {s : MirrorServer}

theorem picture_ordered (ordered : FramesOrdered h s) {c : MirrorConnection} {payload : Bytes}
    {timestamp : ℕ} {after : MirrorServer}
    (next : (s.pictureFrame cipher c payload timestamp).1 = some after) : FramesOrdered h after := by
  unfold MirrorServer.pictureFrame at next
  split at next
  · simp at next
  · exact process_ordered (decrypted_ordered ordered cipher _ payload) next

theorem picture_valid (ordered : FramesOrdered h s) {c : MirrorConnection}
    (member : c ∈ s.connections) (payload : Bytes) (timestamp : ℕ) :
    (∀ call ∈ (s.pictureFrame cipher c payload timestamp).2, call.Valid) ↔ c.fd ∈ h.keyed := by
  rw [← ordered.keyed c member]
  unfold MirrorServer.pictureFrame
  cases context : c.aesKeyContext with
  | none => simp [MirrorCall.Valid]
  | some ctx =>
      refine iff_of_true ?_ rfl
      rw [List.forall_mem_cons]
      refine ⟨trivial, ?_⟩
      rw [process_valid (decrypted_ordered ordered cipher ctx payload)]
      exact fun _ => ordered.opened c member (by simp [context])

theorem firstCodec_iff {fd : ℕ} {c : MirrorConnection} {visit : Visit} {payload : Bytes}
    (found : s.connections.find? (·.fd = fd) = some c) (delivered : visit.payload = some payload) :
    s.FirstCodec fd visit ↔ visit.dType = 1 ∧ c.setCodecFlag = false := by
  simp [MirrorServer.FirstCodec, found, delivered]

theorem dispatch_ordered (ordered : FramesOrdered h s) {fd : ℕ} {c : MirrorConnection}
    {visit : Visit} {payload : Bytes} {after : MirrorServer}
    (found : s.connections.find? (·.fd = fd) = some c) (delivered : visit.payload = some payload)
    (next : (s.dispatch cipher c visit.dType payload visit.timestamp).1 = some after) :
    FramesOrdered (h.receive s (.frame fd visit)) after := by
  obtain ⟨member, rfl⟩ := s.mem_of_find found
  simp only [FrameHistory.receive, firstCodec_iff found delivered]
  unfold MirrorServer.dispatch at next
  by_cases codec : visit.dType = 1
  · rw [if_pos codec] at next
    cases flag : c.setCodecFlag with
    | true =>
        simp only [flag, if_true] at next
        simpa [flag] using process_ordered ordered next
    | false =>
        simp only [flag, Bool.false_eq_true, if_false, Prod.map_fst, Option.some.injEq] at next
        simpa [codec, flag] using next ▸ play_ordered ordered member flag payload visit.timestamp
  · rw [if_neg codec] at next
    rw [if_neg (fun first => codec first.1)]
    split at next
    · exact picture_ordered cipher ordered next
    · split at next
      · exact process_ordered ordered next
      · split at next
        · exact Option.some.inj next ▸ stop_ordered ordered
        · exact Option.some.inj next ▸ ordered

theorem dispatch_valid (ordered : FramesOrdered h s) {c : MirrorConnection}
    (member : c ∈ s.connections) (dType : UInt8) (payload : Bytes) (timestamp : ℕ) :
    (∀ call ∈ (s.dispatch cipher c dType payload timestamp).2, call.Valid) ↔
      (dType = 0 → c.fd ∈ h.keyed) ∧ (dType = 9 → h.codecSeen = true) := by
  unfold MirrorServer.dispatch
  by_cases codec : dType = 1
  · subst codec
    rw [if_pos rfl]
    refine iff_of_true ?_ ⟨by simp, by simp⟩
    split
    · rw [process_valid ordered]
      simp
    · simp [MirrorServer.mirroringPlay, MirrorCall.Valid]
  · rw [if_neg codec]
    by_cases picture : dType = 0
    · subst picture
      rw [if_pos rfl, picture_valid cipher ordered member]
      simp
    · rw [if_neg picture]
      by_cases heartbeat : dType = 9
      · subst heartbeat
        rw [if_pos rfl, process_valid ordered]
        simp
      · rw [if_neg heartbeat]
        refine iff_of_true ?_ ⟨fun same => absurd same picture, fun same => absurd same heartbeat⟩
        split <;> simp [MirrorCall.Valid]

/-- One step of the server keeps the history in agreement with the pointers. -/
theorem step_ordered (ordered : FramesOrdered h s) (event : MirrorEvent) {after : MirrorServer}
    (next : (mirrorStep cipher s event).1 = some after) : FramesOrdered (h.receive s event) after := by
  cases event with
  | setup remote key iv =>
      cases Option.some.inj next
      exact ⟨ordered.distinct, rfl, ordered.buffer, ordered.keyed, ordered.opened,
        ordered.unstarted⟩
  | accept fd remote connInit =>
      cases Option.some.inj next
      exact (accept_ordered ordered fd remote connInit).1
  | frame fd visit =>
      simp only [mirrorStep] at next
      split at next
      · rename_i found delivered
        exact dispatch_ordered cipher ordered found delivered next
      · rename_i other
        have early : ¬ s.FirstCodec fd visit := by
          rintro ⟨-, delivered, c, found, -⟩
          obtain ⟨payload, delivered⟩ := Option.isSome_iff_exists.mp delivered
          exact other c payload found delivered
        simp only [FrameHistory.receive, if_neg early]
        exact Option.some.inj next ▸ ordered
  | close fd =>
      simp only [mirrorStep] at next
      split at next
      · exact Option.some.inj next ▸ ordered
      · exact Option.some.inj next ▸ remove_ordered ordered _
  | stop => exact Option.some.inj next ▸ stop_ordered ordered

theorem step_valid (ordered : FramesOrdered h s) (event : MirrorEvent) :
    (∀ call ∈ (mirrorStep cipher s event).2, call.Valid) ↔ InOrder h s event := by
  cases event with
  | setup remote key iv => exact iff_of_true (by simp [mirrorStep]) trivial
  | accept fd remote connInit =>
      exact iff_of_true (accept_ordered ordered fd remote connInit).2 trivial
  | frame fd visit =>
      simp only [mirrorStep, InOrder]
      cases found : s.connections.find? (·.fd = fd) with
      | none =>
          refine iff_of_true (by simp) fun _ used => ?_
          exact absurd used (s.find_eq_none.mp found)
      | some c =>
          obtain ⟨member, rfl⟩ := s.mem_of_find found
          cases delivered : visit.payload with
          | none => simp
          | some payload =>
              rw [dispatch_valid cipher ordered member]
              simp [List.mem_map_of_mem (f := MirrorConnection.fd) member]
  | close fd =>
      refine iff_of_true ?_ trivial
      simp only [mirrorStep]
      split
      · simp
      · exact freeContext_valid _
  | stop => exact iff_of_true (by simp [mirrorStep, MirrorCall.Valid]) trivial

end Step

def orderedMachine (cipher : CtrCipher) :
    Transducer (Option MirrorServer × FrameHistory) MirrorEvent
      (FrameHistory × List MirrorCall) :=
  (mirrorMachine cipher).observe FrameHistory.watch

/-- In every run no pointer is missing exactly if every frame is in order. -/
theorem keepsOrder_iff (cipher : CtrCipher) (maxConnections : ℕ) (events : List MirrorEvent) :
    (∀ calls ∈ ((mirrorMachine cipher).run (some (mirrorStart maxConnections)) events).2,
      ∀ call ∈ calls, call.Valid) ↔
      (orderedMachine cipher).Admissible (fun state => Alive (InOrder state.2) state.1)
        (some (mirrorStart maxConnections), .start) events := by
  have answers := ((mirrorMachine cipher).observe_run FrameHistory.watch events
    (some (mirrorStart maxConnections)) .start).2
  rw [← answers, List.forall_mem_map]
  refine (orderedMachine cipher).run_answers_iff (fun state => Alive (InOrder state.2) state.1)
    (fun state => ∀ s, state.1 = some s → FramesOrdered state.2 s)
    (fun answer => ∀ call ∈ answer.2, call.Valid) ?_ ?_ events _ ?_
  · rintro ⟨_ | s, h⟩ event ordered after next
    · simp [orderedMachine, Transducer.observe, mirrorMachine] at next
    · exact step_ordered cipher (ordered s rfl) event next
  · rintro ⟨_ | s, h⟩ event ordered
    · exact iff_of_true (by simp [orderedMachine, Transducer.observe, mirrorMachine]) trivial
    · exact step_valid cipher (ordered s rfl) event
  · rintro _ ⟨rfl⟩
    exact start_ordered maxConnections

def onePicture : MirrorFrame where
  header := [1, 0, 0, 0] ++ List.replicate 124 0
  payload := [0]
  headerLength := by simp [headerSize]
  size := by decide

/-- The first frame of a connection is a picture. -/
theorem earlyPicture_meets_null :
    ¬ ∀ calls ∈ ((mirrorMachine plainCipher).run (some (mirrorStart 10))
        [.accept 5 ⟨192, 168, 0, 2⟩ true, .frame 5 onePicture.visit]).2,
      ∀ call ∈ calls, call.Valid := by
  decide

end AirCast.Mirror
