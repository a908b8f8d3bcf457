import AirCast.Lib.Transducer
import AirCast.Mirror.MirrorStream

/-! # The mirror server

The connections of the `httpd_t` on the mirror port, the global `g_aes_key_ctx` that
brings an AES-CTR context from a SETUP on the RTSP server, and the globals of the
native layer.  One event is one handler or frame.  Use of a NULL pointer ends the
process; a context that was freed can still be reached, and is shown as such. -/

set_option autoImplicit false

namespace AirCast.Mirror

/-- The four bytes of an IPv4 address. -/
structure Remote where
  a : UInt8
  b : UInt8
  c : UInt8
  d : UInt8
  deriving DecidableEq

def Remote.zero : Remote := ⟨0, 0, 0, 0⟩

structure AesKeyContext where
  ctrKey : Bytes
  ctrIv : Bytes
  ctrEc : Bytes
  ctrNum : ℕ
  deriving DecidableEq

abbrev CtrCipher := AesKeyContext → Bytes → AesKeyContext × Bytes

def plainCipher : CtrCipher := fun context bytes => (context, bytes)

/-- A context on the heap; its address is its place in the order of allocation. -/
structure HeapContext where
  content : AesKeyContext
  freed : Bool
  deriving DecidableEq

/-- A connected `http_connection_t`, known by its descriptor. -/
structure MirrorConnection where
  fd : ℕ
  remote : Remote
  setCodecFlag : Bool
  aesKeyContext : Option ℕ
  deriving DecidableEq

structure MirrorServer where
  maxConnections : ℕ
  connections : List MirrorConnection
  gAesKeyCtx : Option ℕ
  contexts : List HeapContext
  currentRemote : Remote
  /-- `mirrbuff` is allocated -/
  mirrBuff : Bool
  deriving DecidableEq

def mirrorStart (maxConnections : ℕ) : MirrorServer :=
  { maxConnections := maxConnections
    connections := []
    gAesKeyCtx := none
    contexts := []
    currentRemote := .zero
    mirrBuff := false }

inductive MirrorCall where
  /-- `mirroring_play` with the payload in a buffer of `buflen` bytes -/
  | play (payload : Bytes) (buflen timestamp : ℕ) (remote : Remote)
  | process (payload : Bytes) (payloadtype : UInt8) (timestamp : ℕ) (remote : Remote)
  | stop
  /-- `g_aes_ctr_encrypt` for a connection from `remote` -/
  | decrypt (remote : Remote) (ctx : ℕ) (freed : Bool)
  /-- `free`, of memory that may have been freed before -/
  | free (ctx : ℕ) (again : Bool)
  | nullContext
  | nullBuffer
  deriving DecidableEq

namespace MirrorServer

def isFreed (s : MirrorServer) (ctx : ℕ) : Bool := (s.contexts[ctx]?).any HeapContext.freed

def gAesCrtSetkey (s : MirrorServer) (key iv : Bytes) : MirrorServer :=
  { s with
    contexts := s.contexts ++
      [⟨⟨key.take 16, iv.take 16, List.replicate 16 0, 0⟩, false⟩]
    gAesKeyCtx := some s.contexts.length }

/-- `free (aes_key_context)`. -/
def freeContext (s : MirrorServer) : Option ℕ → MirrorServer × List MirrorCall
  | none => (s, [])
  | some ctx =>
      ({ s with contexts := s.contexts.modify ctx fun cell => { cell with freed := true } },
        [.free ctx (s.isFreed ctx)])

def httpdRemoveConnection (s : MirrorServer) (c : MirrorConnection) :
    MirrorServer × List MirrorCall :=
  freeContext { s with connections := s.connections.filter (·.fd ≠ c.fd) } c.aesKeyContext

def removeAll : List MirrorConnection → MirrorServer → MirrorServer × List MirrorCall
  | [], s => (s, [])
  | c :: rest, s =>
      let removed := s.httpdRemoveConnection c
      let others := removeAll rest removed.1
      (others.1, removed.2 ++ others.2)

def forceStopAirplay (s : MirrorServer) : MirrorServer × List MirrorCall := removeAll s.connections s

def mirroringRunning (s : MirrorServer) (remote : Remote) : Bool :=
  s.currentRemote.a ≠ 0 && s.currentRemote ≠ remote

def mirroringStop (s : MirrorServer) : MirrorServer := { s with currentRemote := .zero }

def preempt (s : MirrorServer) (remote : Remote) : MirrorServer × List MirrorCall :=
  if s.mirroringRunning remote then
    let stopped := s.mirroringStop.forceStopAirplay
    (stopped.1, .stop :: stopped.2)
  else (s, [])

/-- `httpd_accept_connection`; `connInit` tells whether `conn_init` succeeds.  A full
server does not select its port, and `accept` returns no descriptor that is in use. -/
def httpdAcceptConnection (s : MirrorServer) (fd : ℕ) (remote : Remote) (connInit : Bool) :
    MirrorServer × List MirrorCall :=
  if s.maxConnections ≤ s.connections.length ∨ fd ∈ s.connections.map MirrorConnection.fd then
    (s, [])
  else
    let ready := s.preempt remote
    (if connInit then
        { ready.1 with connections := ready.1.connections ++ [⟨fd, remote, false, none⟩] }
      else ready.1,
      ready.2)

/-- The first codec frame of a connection: `mirroring_play`, then the connection takes
over the context that is there. -/
def mirroringPlay (s : MirrorServer) (c : MirrorConnection) (payload : Bytes) (timestamp : ℕ) :
    MirrorServer × List MirrorCall :=
  ({ s with
      currentRemote := c.remote
      mirrBuff := true
      connections := s.connections.map fun other =>
        if other.fd = c.fd then
          { other with setCodecFlag := true, aesKeyContext := s.gAesKeyCtx }
        else other },
    [.play payload (payload.length + 1) timestamp c.remote])

def mirroringProcess (s : MirrorServer) (payload : Bytes) (payloadtype : UInt8) (timestamp : ℕ)
    (remote : Remote) : Option MirrorServer × List MirrorCall :=
  if payloadtype = 0 ∧ s.mirrBuff = false then (none, [.nullBuffer])
  else (some s, [.process payload payloadtype timestamp remote])

/-- The context and the payload after `g_aes_ctr_encrypt`. -/
def decrypted (cipher : CtrCipher) (s : MirrorServer) (ctx : ℕ) (payload : Bytes) :
    MirrorServer × Bytes :=
  match s.contexts[ctx]? with
  | none => (s, payload)
  | some cell =>
      let out := cipher cell.content payload
      ({ s with contexts := s.contexts.modify ctx fun cell => { cell with content := out.1 } },
        out.2)

/-- A picture is decrypted and processed. -/
def pictureFrame (cipher : CtrCipher) (s : MirrorServer) (c : MirrorConnection) (payload : Bytes)
    (timestamp : ℕ) : Option MirrorServer × List MirrorCall :=
  match c.aesKeyContext with
  | none => (none, [.nullContext])
  | some ctx =>
      let out := decrypted cipher s ctx payload
      let processed := out.1.mirroringProcess out.2 0 timestamp c.remote
      (processed.1, .decrypt c.remote ctx (s.isFreed ctx) :: processed.2)

/-- The dispatch on `d_type`, for a payload that was read. -/
def dispatch (cipher : CtrCipher) (s : MirrorServer) (c : MirrorConnection) (dType : UInt8)
    (payload : Bytes) (timestamp : ℕ) : Option MirrorServer × List MirrorCall :=
  if dType = 1 then
    if c.setCodecFlag then s.mirroringProcess payload 1 timestamp c.remote
    else ((s.mirroringPlay c payload timestamp).map some id)
  else if dType = 0 then pictureFrame cipher s c payload timestamp
  else if dType = 9 then s.mirroringProcess payload 0 timestamp c.remote
  else if dType = 102 then (some s.mirroringStop, [.stop])
  else (some s, [])

end MirrorServer

inductive MirrorEvent where
  /-- a stream of type 110 in a SETUP of the client -/
  | setup (remote : Remote) (key iv : Bytes)
  | accept (fd : ℕ) (remote : Remote) (connInit : Bool)
  | frame (fd : ℕ) (visit : Visit)
  | close (fd : ℕ)
  /-- by the RTSP server: TEARDOWN, or another client -/
  | stop
  deriving DecidableEq

def mirrorStep (cipher : CtrCipher) (s : MirrorServer) :
    MirrorEvent → Option MirrorServer × List MirrorCall
  | .setup _ key iv => (some (s.gAesCrtSetkey key iv), [])
  | .accept fd remote connInit => (s.httpdAcceptConnection fd remote connInit).map some id
  | .frame fd visit =>
      match s.connections.find? (·.fd = fd), visit.payload with
      | some c, some payload => s.dispatch cipher c visit.dType payload visit.timestamp
      | _, _ => (some s, [])
  | .close fd =>
      match s.connections.find? (·.fd = fd) with
      | none => (some s, [])
      | some c => (s.httpdRemoveConnection c).map some id
  | .stop => (some s.mirroringStop, [.stop])

def mirrorMachine (cipher : CtrCipher) :
    Transducer (Option MirrorServer) MirrorEvent (List MirrorCall) where
  step state event :=
    match state with
    | none => (none, [])
    | some s => mirrorStep cipher s event

namespace MirrorServer

variable (s : MirrorServer)

@[simp] theorem freeContext_connections (ctx : Option ℕ) :
    (s.freeContext ctx).1.connections = s.connections := by
  cases ctx <;> rfl

@[simp] theorem freeContext_gAesKeyCtx (ctx : Option ℕ) :
    (s.freeContext ctx).1.gAesKeyCtx = s.gAesKeyCtx := by
  cases ctx <;> rfl

@[simp] theorem freeContext_mirrBuff (ctx : Option ℕ) :
    (s.freeContext ctx).1.mirrBuff = s.mirrBuff := by
  cases ctx <;> rfl

@[simp] theorem freeContext_length (ctx : Option ℕ) :
    (s.freeContext ctx).1.contexts.length = s.contexts.length := by
  cases ctx <;> simp [freeContext]

theorem isFreed_eq (i : ℕ) :
    s.isFreed i = ((s.contexts.map HeapContext.freed)[i]?).getD false := by
  rw [isFreed, List.getElem?_map]
  cases s.contexts[i]? <;> rfl

theorem isFreed_freeContext {ctx : Option ℕ} {i : ℕ} (other : ctx ≠ some i) :
    (s.freeContext ctx).1.isFreed i = s.isFreed i := by
  cases ctx with
  | none => rfl
  | some ctx =>
      have unlike : ctx ≠ i := fun same => other (congrArg some same)
      simp [freeContext, isFreed, unlike]

section Decrypted

variable (cipher : CtrCipher) (ctx : ℕ) (payload : Bytes)

theorem decrypted_spec :
    ∃ contexts : List HeapContext, (decrypted cipher s ctx payload).1 = { s with contexts } ∧
      contexts.map HeapContext.freed = s.contexts.map HeapContext.freed := by
  unfold decrypted
  cases s.contexts[ctx]? with
  | none => exact ⟨s.contexts, rfl, rfl⟩
  | some cell =>
      refine ⟨_, rfl, List.ext_getElem? fun i => ?_⟩
      rw [List.getElem?_map, List.getElem?_map, List.getElem?_modify]
      cases s.contexts[i]? with
      | none => rfl
      | some other => simp only [Option.map_eq_map, Option.map_some]; split <;> rfl

@[simp] theorem decrypted_connections :
    (decrypted cipher s ctx payload).1.connections = s.connections := by
  obtain ⟨_, same, -⟩ := decrypted_spec s cipher ctx payload
  rw [same]

@[simp] theorem decrypted_gAesKeyCtx :
    (decrypted cipher s ctx payload).1.gAesKeyCtx = s.gAesKeyCtx := by
  obtain ⟨_, same, -⟩ := decrypted_spec s cipher ctx payload
  rw [same]

@[simp] theorem decrypted_mirrBuff :
    (decrypted cipher s ctx payload).1.mirrBuff = s.mirrBuff := by
  obtain ⟨_, same, -⟩ := decrypted_spec s cipher ctx payload
  rw [same]

end Decrypted

def Distinct : Prop := (s.connections.map MirrorConnection.fd).Nodup

theorem mem_of_remove {c other : MirrorConnection}
    (member : other ∈ (s.httpdRemoveConnection c).1.connections) :
    other ∈ s.connections ∧ other.fd ≠ c.fd := by
  rw [httpdRemoveConnection, freeContext_connections] at member
  simpa using member

theorem mem_of_play {c after : MirrorConnection} {payload : Bytes} {timestamp : ℕ}
    (member : after ∈ (s.mirroringPlay c payload timestamp).1.connections) :
    after ∈ s.connections ∧ after.fd ≠ c.fd ∨ ∃ other ∈ s.connections, other.fd = c.fd ∧
      after = { other with setCodecFlag := true, aesKeyContext := s.gAesKeyCtx } := by
  obtain ⟨other, there, rfl⟩ := List.mem_map.mp member
  by_cases same : other.fd = c.fd
  · exact Or.inr ⟨other, there, same, if_pos same⟩
  · rw [if_neg same]
    exact Or.inl ⟨there, same⟩

section Distinct

variable {s}

theorem Distinct.eq (distinct : s.Distinct) {c other : MirrorConnection}
    (member : c ∈ s.connections) (there : other ∈ s.connections) (same : c.fd = other.fd) :
    c = other :=
  List.inj_on_of_nodup_map distinct member there same

theorem Distinct.remove (distinct : s.Distinct) (c : MirrorConnection) :
    (s.httpdRemoveConnection c).1.Distinct := by
  rw [Distinct, httpdRemoveConnection, freeContext_connections]
  exact distinct.sublist (List.filter_sublist.map _)

theorem Distinct.add (distinct : s.Distinct) {fd : ℕ} (remote : Remote)
    (fresh : fd ∉ s.connections.map MirrorConnection.fd) :
    Distinct { s with connections := s.connections ++ [⟨fd, remote, false, none⟩] } := by
  rw [Distinct, List.map_append, List.nodup_append]
  refine ⟨distinct, by simp, fun used member other added => ?_⟩
  cases List.mem_singleton.mp added
  exact fun same => fresh ((show used = fd from same) ▸ member)

theorem Distinct.play (distinct : s.Distinct) (c : MirrorConnection) (payload : Bytes)
    (timestamp : ℕ) : (s.mirroringPlay c payload timestamp).1.Distinct := by
  have fds : (s.mirroringPlay c payload timestamp).1.connections.map MirrorConnection.fd =
      s.connections.map MirrorConnection.fd := by
    simp only [mirroringPlay, List.map_map]
    exact List.map_congr_left fun other _ => by simp only [Function.comp_apply]; split <;> rfl
  rw [Distinct, fds]
  exact distinct

end Distinct

theorem mem_of_find {fd : ℕ} {c : MirrorConnection}
    (found : s.connections.find? (·.fd = fd) = some c) : c ∈ s.connections ∧ c.fd = fd :=
  ⟨List.mem_of_find?_eq_some found, by simpa using List.find?_some found⟩

theorem find_eq_none {fd : ℕ} :
    s.connections.find? (·.fd = fd) = none ↔ fd ∉ s.connections.map MirrorConnection.fd := by
  simp [List.find?_eq_none]

theorem removeAll_invariant (P : MirrorServer → Prop) (good : MirrorCall → Prop)
    (removed : ∀ s c, P s → c ∈ s.connections →
      P (s.httpdRemoveConnection c).1 ∧ ∀ call ∈ (s.httpdRemoveConnection c).2, good call) :
    ∀ (all : List MirrorConnection) (s : MirrorServer), (all.map MirrorConnection.fd).Nodup →
      (∀ c ∈ all, c ∈ s.connections) → P s →
      P (removeAll all s).1 ∧ ∀ call ∈ (removeAll all s).2, good call := by
  intro all
  induction all with
  | nil => intro s _ _ holds; exact ⟨holds, by simp [removeAll]⟩
  | cons c rest ih =>
      intro s distinct present holds
      rw [List.map_cons, List.nodup_cons] at distinct
      rw [List.forall_mem_cons] at present
      obtain ⟨next, calls⟩ := removed s c holds present.1
      have left : ∀ other ∈ rest, other ∈ (s.httpdRemoveConnection c).1.connections := by
        intro other member
        have unlike : other.fd ≠ c.fd := fun same =>
          distinct.1 (same ▸ List.mem_map_of_mem member)
        simpa [httpdRemoveConnection, unlike] using present.2 other member
      obtain ⟨final, others⟩ := ih _ distinct.2 left next
      refine ⟨final, fun call member => ?_⟩
      rcases List.mem_append.mp member with member | member
      · exact calls call member
      · exact others call member

/-- What `mirroring_stop`, the removals and a new connection keep is kept by an accept. -/
theorem accept_invariant (P : MirrorServer → Prop) (good : MirrorCall → Prop) (fd : ℕ)
    (remote : Remote) (connInit : Bool) (distinct : ∀ s, P s → s.Distinct)
    (stopped : ∀ s, P s → P s.mirroringStop ∧ good .stop)
    (removed : ∀ s c, P s → c ∈ s.connections →
      P (s.httpdRemoveConnection c).1 ∧ ∀ call ∈ (s.httpdRemoveConnection c).2, good call)
    (added : ∀ s, P s → fd ∉ s.connections.map MirrorConnection.fd →
      P { s with connections := s.connections ++ [⟨fd, remote, false, none⟩] })
    (fresh : fd ∉ s.connections.map MirrorConnection.fd) (holds : P s) :
    P (s.httpdAcceptConnection fd remote connInit).1 ∧
      ∀ call ∈ (s.httpdAcceptConnection fd remote connInit).2, good call := by
  -- the descriptor stays free while others are removed
  let Free : MirrorServer → Prop := fun s => P s ∧ fd ∉ s.connections.map MirrorConnection.fd
  have removedFree : ∀ s c, Free s → c ∈ s.connections → Free (s.httpdRemoveConnection c).1 ∧
      ∀ call ∈ (s.httpdRemoveConnection c).2, good call := by
    intro s c both member
    obtain ⟨kept, calls⟩ := removed s c both.1 member
    refine ⟨⟨kept, fun again => both.2 ?_⟩, calls⟩
    obtain ⟨other, left, same⟩ := List.mem_map.mp again
    rw [httpdRemoveConnection, freeContext_connections] at left
    exact List.mem_map.mpr ⟨other, (List.mem_filter.mp left).1, same⟩
  have preempted : Free (s.preempt remote).1 ∧ ∀ call ∈ (s.preempt remote).2, good call := by
    unfold preempt
    split
    · obtain ⟨stop, goodStop⟩ := stopped s holds
      obtain ⟨after, calls⟩ := removeAll_invariant Free good removedFree
        s.mirroringStop.connections s.mirroringStop (distinct _ stop) (fun _ member => member)
        ⟨stop, fresh⟩
      exact ⟨after, List.forall_mem_cons.mpr ⟨goodStop, calls⟩⟩
    · exact ⟨⟨holds, fresh⟩, by simp⟩
  unfold httpdAcceptConnection
  split
  · exact ⟨holds, by simp⟩
  · refine ⟨?_, preempted.2⟩
    dsimp only
    split
    · exact added _ preempted.1.1 preempted.1.2
    · exact preempted.1.1

end MirrorServer

end AirCast.Mirror
