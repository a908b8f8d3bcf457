import AirCast.Mirror.MirrorServer

/-! # Who owns an AES context

A SETUP leaves its context in one global, where the next first codec frame of any
connection finds it.  A connection owns the context of its own client as long as
nobody else sets up a stream or opens one in between. -/

set_option autoImplicit false

namespace AirCast.Mirror

/-! ## The ledger -/

/-- The SETUPs received, the newest first; whether a connection took over the context
of the newest; and the connections whose context is not of their client's newest SETUP. -/
structure KeyLedger where
  setups : List Remote
  taken : Bool
  stale : List ℕ
  deriving DecidableEq

namespace KeyLedger

def start : KeyLedger := ⟨[], false, []⟩

def latestSetup (remote : Remote) : List Remote → Option ℕ
  | [] => none
  | newest :: older => if newest = remote then some older.length else latestSetup remote older

def latest (ledger : KeyLedger) (remote : Remote) : Option ℕ := latestSetup remote ledger.setups

def opened (s : MirrorServer) (remote : Remote) : List ℕ :=
  (s.connections.filter fun c => c.remote = remote ∧ c.setCodecFlag).map MirrorConnection.fd

/-- The ledger after a first codec frame of `c`. -/
def take (ledger : KeyLedger) (c : MirrorConnection) : KeyLedger :=
  { ledger with
    taken := true
    stale := if ledger.setups.head? = some c.remote then ledger.stale else c.fd :: ledger.stale }

def receive (s : MirrorServer) (ledger : KeyLedger) : MirrorEvent → KeyLedger
  | .setup remote _ _ =>
      ⟨remote :: ledger.setups, false, ledger.stale ++ opened s remote⟩
  | .accept fd _ _ =>
      if fd ∈ s.connections.map MirrorConnection.fd then ledger
      else { ledger with stale := ledger.stale.filter (· ≠ fd) }
  | .frame fd visit =>
      match s.connections.find? (·.fd = fd) with
      | none => ledger
      | some c =>
          if visit.dType = 1 ∧ visit.payload.isSome ∧ c.setCodecFlag = false then ledger.take c
          else ledger
  | .close _ | .stop => ledger

def watch (state : Option MirrorServer) (event : MirrorEvent) (ledger : KeyLedger) : KeyLedger :=
  match state with
  | none => ledger
  | some s => receive s ledger event

end KeyLedger

/-- A stream is opened with a context that nobody took before, if there is one, and a
picture comes while the connection has the context of its client's newest SETUP. -/
def InTurn (ledger : KeyLedger) (s : MirrorServer) : MirrorEvent → Prop
  | .frame fd visit =>
      visit.payload.isSome → ∀ c ∈ s.connections.find? (·.fd = fd),
        (visit.dType = 1 → c.setCodecFlag = false → ledger.setups = [] ∨ ledger.taken = false) ∧
          (visit.dType = 0 → c.setCodecFlag = true ∧ fd ∉ ledger.stale)
  | _ => True

instance (ledger : KeyLedger) (s : MirrorServer) : ∀ event, Decidable (InTurn ledger s event)
  | .frame _ _ => inferInstanceAs (Decidable (_ → ∀ _ ∈ _, _ ∧ _))
  | .setup _ _ _ | .accept _ _ _ | .close _ | .stop => isTrue trivial

/-- A picture is decrypted with the context of its client's newest SETUP, and no context
is used or freed after it was freed. -/
def MirrorCall.Owned (ledger : KeyLedger) : MirrorCall → Prop
  | .decrypt remote ctx freed => ledger.latest remote = some ctx ∧ freed = false
  | .free _ again => again = false
  | .nullContext => False
  | _ => True

instance (ledger : KeyLedger) : (call : MirrorCall) → Decidable (call.Owned ledger)
  | .decrypt _ _ _ => inferInstanceAs (Decidable (_ ∧ _))
  | .free _ _ => inferInstanceAs (Decidable (_ = _))
  | .nullContext => isFalse id
  | .play _ _ _ _ | .process _ _ _ _ | .stop | .nullBuffer => isTrue trivial

/-- No context has two owners, and none that has an owner was freed. -/
def ExclusiveKeys (s : MirrorServer) : Prop :=
  (∀ c ∈ s.connections, ∀ other ∈ s.connections, ∀ ctx,
      c.aesKeyContext = some ctx → other.aesKeyContext = some ctx → c = other) ∧
    ∀ c ∈ s.connections, ∀ ctx, c.aesKeyContext = some ctx → s.isFreed ctx = false

/-! ## The ledger tells who owns a context -/

structure KeysOwned (ledger : KeyLedger) (s : MirrorServer) : Prop where
  distinct : s.Distinct
  allocated : s.contexts.length = ledger.setups.length
  newest : ∀ ctx, s.gAesKeyCtx = some ctx → ctx + 1 = s.contexts.length
  unset : s.gAesKeyCtx = none → ledger.setups = []
  live : ∀ c ∈ s.connections, ∀ ctx, c.aesKeyContext = some ctx →
    ctx < s.contexts.length ∧ s.isFreed ctx = false
  exclusive : ∀ c ∈ s.connections, ∀ other ∈ s.connections, ∀ ctx,
    c.aesKeyContext = some ctx → other.aesKeyContext = some ctx → c.fd = other.fd
  untaken : ledger.taken = false → ∀ ctx, ctx + 1 = s.contexts.length →
    s.isFreed ctx = false ∧ ∀ c ∈ s.connections, c.aesKeyContext ≠ some ctx
  current : ∀ c ∈ s.connections, c.setCodecFlag = true → c.fd ∉ ledger.stale →
    ∃ ctx, c.aesKeyContext = some ctx ∧ ledger.latest c.remote = some ctx

section Kept

variable {ledger : KeyLedger} {s : MirrorServer}

theorem start_owned (maxConnections : ℕ) : KeysOwned .start (mirrorStart maxConnections) where
  distinct := List.nodup_nil
  allocated := rfl
  newest := by simp [mirrorStart]
  unset := fun _ => rfl
  live := by simp [mirrorStart]
  exclusive := by simp [mirrorStart]
  untaken := by simp [mirrorStart]
  current := by simp [mirrorStart]

theorem stop_owned (owned : KeysOwned ledger s) : KeysOwned ledger s.mirroringStop :=
  ⟨owned.distinct, owned.allocated, owned.newest, owned.unset, owned.live, owned.exclusive,
    owned.untaken, owned.current⟩

theorem setup_owned (owned : KeysOwned ledger s) (remote : Remote) (key iv : Bytes) :
    KeysOwned (ledger.receive s (.setup remote key iv)) (s.gAesCrtSetkey key iv) := by
  have length : (s.gAesCrtSetkey key iv).contexts.length = s.contexts.length + 1 := by
    simp [MirrorServer.gAesCrtSetkey]
  have older : ∀ ctx < s.contexts.length,
      (s.gAesCrtSetkey key iv).isFreed ctx = s.isFreed ctx := fun ctx bound => by
    simp [MirrorServer.isFreed, MirrorServer.gAesCrtSetkey, List.getElem?_append_left bound]
  refine ⟨owned.distinct, ?_, ?_, by simp [MirrorServer.gAesCrtSetkey], ?_, owned.exclusive, ?_, ?_⟩
  · rw [length, owned.allocated]
    rfl
  · rintro _ ⟨rfl⟩
    exact length.symm
  · intro c member ctx own
    obtain ⟨bound, unfreed⟩ := owned.live c member ctx own
    exact ⟨length ▸ Nat.lt_succ_of_lt bound, (older ctx bound).trans unfreed⟩
  · intro _ ctx last
    obtain rfl : ctx = s.contexts.length := by omega
    refine ⟨by simp [MirrorServer.isFreed, MirrorServer.gAesCrtSetkey], fun c member own => ?_⟩
    exact absurd (owned.live c member _ own).1 (Nat.lt_irrefl _)
  · intro c member flag fresh
    simp only [KeyLedger.receive, List.mem_append, not_or] at fresh
    have unlike : remote ≠ c.remote := fun same => fresh.2
      (List.mem_map_of_mem (List.mem_filter.mpr ⟨member, by simp [same, flag]⟩))
    obtain ⟨ctx, own, latest⟩ := owned.current c member flag fresh.1
    refine ⟨ctx, own, ?_⟩
    simpa [KeyLedger.receive, KeyLedger.latest, KeyLedger.latestSetup, unlike] using latest

/-- A context that is freed had one owner, which goes with it. -/
theorem remove_owned (owned : KeysOwned ledger s) {c : MirrorConnection}
    (member : c ∈ s.connections) :
    KeysOwned ledger (s.httpdRemoveConnection c).1 := by
  have length : (s.httpdRemoveConnection c).1.contexts.length = s.contexts.length := by
    rw [MirrorServer.httpdRemoveConnection, MirrorServer.freeContext_length]
  have global : (s.httpdRemoveConnection c).1.gAesKeyCtx = s.gAesKeyCtx := by
    rw [MirrorServer.httpdRemoveConnection, MirrorServer.freeContext_gAesKeyCtx]
  have unfreed : ∀ ctx, c.aesKeyContext ≠ some ctx →
      (s.httpdRemoveConnection c).1.isFreed ctx = s.isFreed ctx := fun ctx other =>
    MirrorServer.isFreed_freeContext _ other
  refine ⟨owned.distinct.remove c, by rw [length, owned.allocated], ?_, ?_, ?_, ?_, ?_, ?_⟩
  · rw [length, global]
    exact owned.newest
  · rw [global]
    exact owned.unset
  · intro other present ctx own
    obtain ⟨there, unlike⟩ := s.mem_of_remove present
    obtain ⟨bound, live⟩ := owned.live other there ctx own
    refine ⟨length.symm ▸ bound, (unfreed ctx fun both => unlike ?_).trans live⟩
    exact owned.exclusive other there c member ctx own both
  · intro first presentFirst second presentSecond
    exact owned.exclusive first (s.mem_of_remove presentFirst).1 second
      (s.mem_of_remove presentSecond).1
  · intro untaken ctx last
    rw [length] at last
    obtain ⟨live, unowned⟩ := owned.untaken untaken ctx last
    exact ⟨(unfreed ctx (unowned c member)).trans live,
      fun other present => unowned other (s.mem_of_remove present).1⟩
  · intro other present
    exact owned.current other (s.mem_of_remove present).1

theorem remove_once (owned : KeysOwned ledger s) {c : MirrorConnection}
    (member : c ∈ s.connections) (before : KeyLedger) :
    ∀ call ∈ (s.httpdRemoveConnection c).2, call.Owned before := by
  intro call freed
  unfold MirrorServer.httpdRemoveConnection at freed
  cases own : c.aesKeyContext with
  | none => simp [own, MirrorServer.freeContext] at freed
  | some ctx =>
      rw [own] at freed
      cases List.mem_singleton.mp freed
      exact (owned.live c member ctx own).2

theorem add_owned (owned : KeysOwned ledger s) {fd : ℕ} (remote : Remote)
    (fresh : fd ∉ s.connections.map MirrorConnection.fd) :
    KeysOwned ledger { s with connections := s.connections ++ [⟨fd, remote, false, none⟩] } := by
  have old : ∀ c ∈ s.connections ++ [⟨fd, remote, false, none⟩], ∀ ctx,
      c.aesKeyContext = some ctx → c ∈ s.connections := by
    intro c present ctx own
    rcases List.mem_append.mp present with there | added
    · exact there
    · cases List.mem_singleton.mp added
      simp at own
  refine ⟨owned.distinct.add remote fresh, owned.allocated, owned.newest, owned.unset, ?_, ?_, ?_,
    ?_⟩
  · intro c present ctx own
    exact owned.live c (old c present ctx own) ctx own
  · intro c present other presentOther ctx own ownOther
    exact owned.exclusive c (old c present ctx own) other (old other presentOther ctx ownOther) ctx
      own ownOther
  · intro untaken ctx last
    obtain ⟨live, unowned⟩ := owned.untaken untaken ctx last
    exact ⟨live, fun c present own => unowned c (old c present ctx own) own⟩
  · intro c present flag
    rcases List.mem_append.mp present with there | added
    · exact owned.current c there flag
    · cases List.mem_singleton.mp added
      simp at flag

theorem forget_owned (owned : KeysOwned ledger s) {fd : ℕ}
    (fresh : fd ∉ s.connections.map MirrorConnection.fd) :
    KeysOwned { ledger with stale := ledger.stale.filter (· ≠ fd) } s := by
  refine ⟨owned.distinct, owned.allocated, owned.newest, owned.unset, owned.live, owned.exclusive,
    owned.untaken, fun c member flag current => owned.current c member flag fun stale => ?_⟩
  have unlike : c.fd ≠ fd := fun same => fresh (same ▸ List.mem_map_of_mem member)
  exact current (List.mem_filter.mpr ⟨stale, by simpa using unlike⟩)

theorem accept_owned (owned : KeysOwned ledger s) (fd : ℕ) (remote : Remote) (connInit : Bool) :
    KeysOwned (ledger.receive s (.accept fd remote connInit))
        (s.httpdAcceptConnection fd remote connInit).1 ∧
      ∀ call ∈ (s.httpdAcceptConnection fd remote connInit).2, call.Owned ledger := by
  by_cases used : fd ∈ s.connections.map MirrorConnection.fd
  · simp only [KeyLedger.receive, if_pos used, MirrorServer.httpdAcceptConnection,
      if_pos (Or.inr used : _ ∨ _)]
    exact ⟨owned, by simp⟩
  · simp only [KeyLedger.receive, if_neg used]
    exact MirrorServer.accept_invariant s (KeysOwned _) (MirrorCall.Owned ledger) fd remote connInit
      (fun _ kept => kept.distinct) (fun _ kept => ⟨stop_owned kept, trivial⟩)
      (fun _ c kept member => ⟨remove_owned kept member, remove_once kept member ledger⟩)
      (fun _ kept fresh => add_owned kept remote fresh) used (forget_owned owned used)

/-- The first codec frame gives the context nobody took to one connection. -/
theorem play_owned (owned : KeysOwned ledger s) {c : MirrorConnection} (member : c ∈ s.connections)
    (inTurn : ledger.setups = [] ∨ ledger.taken = false) (payload : Bytes) (timestamp : ℕ) :
    KeysOwned (ledger.take c) (s.mirroringPlay c payload timestamp).1 := by
  have untaken : ∀ ctx, s.gAesKeyCtx = some ctx →
      s.isFreed ctx = false ∧ ∀ other ∈ s.connections, other.aesKeyContext ≠ some ctx := by
    intro ctx global
    have last := owned.newest ctx global
    rcases inTurn with empty | untaken
    · have length := owned.allocated
      rw [empty, List.length_nil] at length
      omega
    · exact owned.untaken untaken ctx last
  refine ⟨owned.distinct.play c payload timestamp, owned.allocated, owned.newest, owned.unset, ?_,
    ?_, by simp [KeyLedger.take], ?_⟩
  · intro after present ctx own
    rcases s.mem_of_play present with ⟨there, -⟩ | ⟨_, _, -, rfl⟩
    · exact owned.live after there ctx own
    · have last := owned.newest ctx own
      exact ⟨last ▸ Nat.lt_succ_self ctx, (untaken ctx own).1⟩
  · intro first presentFirst second presentSecond ctx ownFirst ownSecond
    rcases s.mem_of_play presentFirst with ⟨there, -⟩ | ⟨_, _, same, rfl⟩ <;>
      rcases s.mem_of_play presentSecond with ⟨thereToo, -⟩ | ⟨_, _, sameToo, rfl⟩
    · exact owned.exclusive first there second thereToo ctx ownFirst ownSecond
    · exact absurd ownFirst ((untaken ctx ownSecond).2 first there)
    · exact absurd ownSecond ((untaken ctx ownFirst).2 second thereToo)
    · exact same.trans sameToo.symm
  · intro after present flag fresh
    have kept : after.fd ∉ ledger.stale := by
      simp only [KeyLedger.take] at fresh
      split at fresh
      · exact fresh
      · exact fun stale => fresh (List.mem_cons_of_mem _ stale)
    rcases s.mem_of_play present with ⟨there, -⟩ | ⟨other, there, same, rfl⟩
    · exact owned.current after there flag kept
    · obtain rfl := owned.distinct.eq there member same
      have newest : ledger.setups.head? = some other.remote := by
        by_contra foreign
        simp [KeyLedger.take, foreign] at fresh
      obtain ⟨older, setups⟩ := List.head?_eq_some_iff.mp newest
      cases global : s.gAesKeyCtx with
      | none => simp [owned.unset global] at setups
      | some ctx =>
          have last := owned.newest ctx global
          rw [owned.allocated, setups, List.length_cons] at last
          refine ⟨ctx, rfl, ?_⟩
          simp [KeyLedger.take, KeyLedger.latest, setups, KeyLedger.latestSetup,
            Nat.succ.inj last]

theorem decrypted_owned (owned : KeysOwned ledger s) (cipher : CtrCipher) (ctx : ℕ)
    (payload : Bytes) : KeysOwned ledger (MirrorServer.decrypted cipher s ctx payload).1 := by
  obtain ⟨contexts, same, freed⟩ := MirrorServer.decrypted_spec s cipher ctx payload
  have length : contexts.length = s.contexts.length := by
    simpa using congrArg List.length freed
  have unchanged : ∀ i, MirrorServer.isFreed { s with contexts } i = s.isFreed i := fun i => by
    rw [MirrorServer.isFreed_eq, MirrorServer.isFreed_eq, freed]
  rw [same]
  refine ⟨owned.distinct, length.trans owned.allocated, ?_, owned.unset, ?_, owned.exclusive, ?_,
    owned.current⟩
  · simpa only [length] using owned.newest
  · simpa only [length, unchanged] using owned.live
  · simpa only [length, unchanged] using owned.untaken

theorem process_owned (owned : KeysOwned ledger s) (payload : Bytes) (payloadtype : UInt8)
    (timestamp : ℕ) (remote : Remote) :
    (∀ after, (s.mirroringProcess payload payloadtype timestamp remote).1 = some after →
        KeysOwned ledger after) ∧
      ∀ call ∈ (s.mirroringProcess payload payloadtype timestamp remote).2, call.Owned ledger := by
  unfold MirrorServer.mirroringProcess
  split
  · exact ⟨by simp, by simp [MirrorCall.Owned]⟩
  · refine ⟨?_, by simp [MirrorCall.Owned]⟩
    rintro _ ⟨rfl⟩
    exact owned

end Kept

section Step

variable (cipher : CtrCipher) {ledger : KeyLedger} {s : MirrorServer}

theorem picture_owned (owned : KeysOwned ledger s) {c : MirrorConnection}
    (member : c ∈ s.connections) (flag : c.setCodecFlag = true) (fresh : c.fd ∉ ledger.stale)
    (payload : Bytes) (timestamp : ℕ) :
    (∀ after, (s.pictureFrame cipher c payload timestamp).1 = some after →
        KeysOwned ledger after) ∧
      ∀ call ∈ (s.pictureFrame cipher c payload timestamp).2, call.Owned ledger := by
  obtain ⟨ctx, own, latest⟩ := owned.current c member flag fresh
  obtain ⟨after, calls⟩ := process_owned (decrypted_owned owned cipher ctx payload)
    (MirrorServer.decrypted cipher s ctx payload).2 0 timestamp c.remote
  simp only [MirrorServer.pictureFrame, own]
  exact ⟨after, List.forall_mem_cons.mpr ⟨⟨latest, (owned.live c member ctx own).2⟩, calls⟩⟩

theorem dispatch_owned (owned : KeysOwned ledger s) {c : MirrorConnection}
    (member : c ∈ s.connections) (dType : UInt8) (payload : Bytes) (timestamp : ℕ)
    (codecTurn : dType = 1 → c.setCodecFlag = false → ledger.setups = [] ∨ ledger.taken = false)
    (pictureTurn : dType = 0 → c.setCodecFlag = true ∧ c.fd ∉ ledger.stale) :
    (∀ after, (s.dispatch cipher c dType payload timestamp).1 = some after →
        KeysOwned (if dType = 1 ∧ c.setCodecFlag = false then ledger.take c else ledger) after) ∧
      ∀ call ∈ (s.dispatch cipher c dType payload timestamp).2, call.Owned ledger := by
  unfold MirrorServer.dispatch
  by_cases codec : dType = 1
  · rw [if_pos codec]
    cases flag : c.setCodecFlag with
    | true =>
        rw [if_pos rfl, if_neg (by simp)]
        exact process_owned owned payload 1 timestamp c.remote
    | false =>
        rw [if_neg (by simp), if_pos ⟨codec, rfl⟩]
        refine ⟨?_, by simp [MirrorServer.mirroringPlay, MirrorCall.Owned]⟩
        rintro _ ⟨rfl⟩
        exact play_owned owned member (codecTurn codec flag) payload timestamp
  · rw [if_neg codec, if_neg (fun first : dType = 1 ∧ _ => codec first.1)]
    split
    · rename_i picture
      obtain ⟨flag, fresh⟩ := pictureTurn picture
      exact picture_owned cipher owned member flag fresh payload timestamp
    · split
      · exact process_owned owned payload 0 timestamp c.remote
      · split
        · refine ⟨?_, by simp [MirrorCall.Owned]⟩
          rintro _ ⟨rfl⟩
          exact stop_owned owned
        · refine ⟨?_, by simp⟩
          rintro _ ⟨rfl⟩
          exact owned

theorem frame_owned (owned : KeysOwned ledger s) (fd : ℕ) (visit : Visit)
    (inTurn : InTurn ledger s (.frame fd visit)) :
    (∀ after, (mirrorStep cipher s (.frame fd visit)).1 = some after →
        KeysOwned (ledger.receive s (.frame fd visit)) after) ∧
      ∀ call ∈ (mirrorStep cipher s (.frame fd visit)).2, call.Owned ledger := by
  simp only [mirrorStep, KeyLedger.receive]
  simp only [InTurn] at inTurn
  have passedOver : (∀ after, some s = some after → KeysOwned ledger after) ∧
      ∀ call ∈ ([] : List MirrorCall), call.Owned ledger := by
    refine ⟨?_, by simp⟩
    rintro _ ⟨rfl⟩
    exact owned
  cases found : s.connections.find? (·.fd = fd) with
  | none => exact passedOver
  | some c =>
      obtain ⟨member, rfl⟩ := s.mem_of_find found
      cases delivered : visit.payload with
      | none => simpa using passedOver
      | some payload =>
          obtain ⟨codecTurn, pictureTurn⟩ := inTurn (by simp [delivered]) c (by simp [found])
          simpa using dispatch_owned cipher owned member visit.dType payload visit.timestamp
            codecTurn pictureTurn

/-- An event in its turn keeps the ledger in agreement with the contexts. -/
theorem step_owned (owned : KeysOwned ledger s) (event : MirrorEvent)
    (inTurn : InTurn ledger s event) :
    (∀ after, (mirrorStep cipher s event).1 = some after →
        KeysOwned (ledger.receive s event) after) ∧
      ∀ call ∈ (mirrorStep cipher s event).2, call.Owned ledger := by
  cases event with
  | setup remote key iv =>
      refine ⟨?_, by simp [mirrorStep]⟩
      rintro _ ⟨rfl⟩
      exact setup_owned owned remote key iv
  | accept fd remote connInit =>
      obtain ⟨kept, calls⟩ := accept_owned owned fd remote connInit
      refine ⟨?_, calls⟩
      rintro _ ⟨rfl⟩
      exact kept
  | frame fd visit => exact frame_owned cipher owned fd visit inTurn
  | close fd =>
      simp only [mirrorStep, KeyLedger.receive]
      cases found : s.connections.find? (·.fd = fd) with
      | none =>
          refine ⟨?_, by simp⟩
          rintro _ ⟨rfl⟩
          exact owned
      | some c =>
          obtain ⟨member, -⟩ := s.mem_of_find found
          refine ⟨?_, remove_once owned member ledger⟩
          rintro _ ⟨rfl⟩
          exact remove_owned owned member
  | stop =>
      refine ⟨?_, by simp [mirrorStep, MirrorCall.Owned]⟩
      rintro _ ⟨rfl⟩
      exact stop_owned owned

end Step

/-! ## Whole runs -/

def keyMachine (cipher : CtrCipher) :
    Transducer (Option MirrorServer × KeyLedger) MirrorEvent (KeyLedger × List MirrorCall) :=
  (mirrorMachine cipher).observe KeyLedger.watch

/-- Where every event is in its turn, pictures are decrypted with the keys of their own
client, and every context has one owner until it is freed. -/
theorem keys_owned (cipher : CtrCipher) (maxConnections : ℕ) (events : List MirrorEvent)
    (inTurn : (keyMachine cipher).Admissible (fun state => Alive (InTurn state.2) state.1)
      (some (mirrorStart maxConnections), .start) events) :
    (∀ answer ∈ ((keyMachine cipher).run (some (mirrorStart maxConnections), .start) events).2,
        ∀ call ∈ answer.2, call.Owned answer.1) ∧
      ∀ s, ((mirrorMachine cipher).run (some (mirrorStart maxConnections)) events).1 = some s →
        ExclusiveKeys s := by
  have same := ((mirrorMachine cipher).observe_run KeyLedger.watch events
    (some (mirrorStart maxConnections)) .start).1
  let Inv : Option MirrorServer × KeyLedger → Prop := fun state =>
    ∀ s, state.1 = some s → KeysOwned state.2 s
  have kept : ∀ state event, Inv state → Alive (InTurn state.2) state.1 event →
      Inv ((keyMachine cipher).step state event).1 ∧
        ∀ call ∈ ((keyMachine cipher).step state event).2.2,
          call.Owned ((keyMachine cipher).step state event).2.1 := by
    rintro ⟨_ | s, ledger⟩ event owned turn
    · refine ⟨fun s reached => ?_, by simp [keyMachine, Transducer.observe, mirrorMachine]⟩
      simp [keyMachine, Transducer.observe, mirrorMachine] at reached
    · exact step_owned cipher (owned s rfl) event turn
  have start : Inv (some (mirrorStart maxConnections), .start) := by
    rintro _ ⟨rfl⟩
    exact start_owned maxConnections
  obtain ⟨final, answers⟩ := (keyMachine cipher).run_guarded
    (fun state => Alive (InTurn state.2) state.1) Inv
    (fun answer => ∀ call ∈ answer.2, call.Owned answer.1) kept events _ start inTurn
  refine ⟨answers, fun s reached => ?_⟩
  have owned := final s (same.trans reached)
  refine ⟨fun c member other there ctx own ownToo => ?_, fun c member ctx own =>
    (owned.live c member ctx own).2⟩
  exact owned.distinct.eq member there (owned.exclusive c member other there ctx own ownToo)

def oneByte (dType : UInt8) : MirrorFrame where
  header := [1, 0, 0, 0, dType] ++ List.replicate 123 0
  payload := [0]
  headerLength := by simp [headerSize]
  size := rfl

def oneAfterAnother : List MirrorEvent :=
  [.setup ⟨192, 168, 0, 2⟩ [] [], .accept 5 ⟨192, 168, 0, 2⟩ true, .frame 5 (oneByte 1).visit,
    .frame 5 (oneByte 0).visit, .close 5,
    .setup ⟨192, 168, 0, 3⟩ [] [], .accept 5 ⟨192, 168, 0, 3⟩ true, .frame 5 (oneByte 1).visit,
    .frame 5 (oneByte 0).visit, .close 5]

theorem keys_owned_oneAfterAnother :
    (∀ answer ∈ ((keyMachine plainCipher).run (some (mirrorStart 10), .start) oneAfterAnother).2,
        ∀ call ∈ answer.2, call.Owned answer.1) ∧
      ∀ s, ((mirrorMachine plainCipher).run (some (mirrorStart 10)) oneAfterAnother).1 = some s →
        ExclusiveKeys s :=
  keys_owned plainCipher 10 oneAfterAnother (by decide)

/-- Two clients set up a stream before the first opens its own. -/
theorem twoSetups_cross_keys :
    ¬ ∀ answer ∈ ((keyMachine plainCipher).run (some (mirrorStart 10), .start)
        [.setup ⟨192, 168, 0, 2⟩ [1] [1], .setup ⟨192, 168, 0, 3⟩ [2] [2],
          .accept 5 ⟨192, 168, 0, 2⟩ true, .frame 5 (oneByte 1).visit,
          .frame 5 (oneByte 0).visit]).2,
      ∀ call ∈ answer.2, call.Owned answer.1 := by
  decide

end AirCast.Mirror
