import AirCast.Crypt.CtrMode
import AirCast.Mirror.MirrorKeyOwnership

/-! # The pictures a client shows

A client encrypts its pictures with the key of its newest SETUP, each where the one before it
ended.  The server has one context for every SETUP, and goes on with it in every picture of the
connection that owns it.  Where every event is in its turn, it does what a server would do that
received all pictures in the clear. -/

set_option autoImplicit false

namespace AirCast.Mirror

open AirCast.Crypt

namespace AesKeyContext

def fresh (key iv : Bytes) : AesKeyContext := ⟨key.take 16, iv.take 16, List.replicate 16 0, 0⟩

def ctrHandle (context : AesKeyContext) : AesKey :=
  (aesSetEncryptKey context.ctrKey 128 ⟨Vector.replicate 60 0, 0⟩).2

def ctrState (context : AesKeyContext) : CtrState :=
  ⟨context.ctrIv, context.ctrEc, context.ctrNum⟩

end AesKeyContext

/-- `g_aes_ctr_encrypt`; `aligned` tells which path of `CRYPTO_ctr128_encrypt` it takes. -/
def gAesCtrEncrypt (aligned : AesKeyContext → Bytes → Bool) : CtrCipher := fun context data =>
  let out := newAesCtr128Encrypt context.ctrHandle (aligned context data) context.ctrState data
  ({ context with ctrIv := out.1.ivec, ctrEc := out.1.ecountBuf, ctrNum := out.1.num }, out.2)

theorem gAesCtrEncrypt_stream (aligned : AesKeyContext → Bytes → Bool) {context : AesKeyContext}
    {iv : Bytes} {place : ℕ}
    (here : AtPlace (newAesEncrypt context.ctrHandle) iv place context.ctrState) (data : Bytes) :
    (gAesCtrEncrypt aligned context data).2 =
        StreamCipher.xorStream (keyByte (newAesEncrypt context.ctrHandle) iv) place data ∧
      AtPlace (newAesEncrypt context.ctrHandle) iv (place + data.length)
        (gAesCtrEncrypt aligned context data).1.ctrState :=
  (newAesCtr128Encrypt_stream (aligned context data) here data).symm

theorem gAesCtrEncrypt_length (aligned : AesKeyContext → Bytes → Bool) (context : AesKeyContext)
    (data : Bytes) : (gAesCtrEncrypt aligned context data).2.length = data.length :=
  cryptoCtr128Encrypt_length (newAesEncrypt_length context.ctrHandle) _ _ data

def SamePlace (context own : AesKeyContext) : Prop :=
  context.ctrHandle = own.ctrHandle ∧ ∃ iv place,
    AtPlace (newAesEncrypt own.ctrHandle) iv place context.ctrState ∧
      AtPlace (newAesEncrypt own.ctrHandle) iv place own.ctrState

theorem fresh_samePlace (key : Bytes) {iv : Bytes} (enough : 16 ≤ iv.length) :
    SamePlace (.fresh key iv) (.fresh key iv) := by
  have start : AtPlace (newAesEncrypt (AesKeyContext.fresh key iv).ctrHandle) (iv.take 16) 0
      (AesKeyContext.fresh key iv).ctrState :=
    atPlace_start (by rw [List.length_take, min_eq_left enough]) _
  exact ⟨rfl, iv.take 16, 0, start, start⟩

theorem SamePlace.decrypts {context own : AesKeyContext} (same : SamePlace context own)
    (aligned aligned' : AesKeyContext → Bytes → Bool) (data : Bytes) :
    (gAesCtrEncrypt aligned' context (gAesCtrEncrypt aligned own data).2).2 = data ∧
      SamePlace (gAesCtrEncrypt aligned' context (gAesCtrEncrypt aligned own data).2).1
        (gAesCtrEncrypt aligned own data).1 := by
  obtain ⟨handle, iv, place, there, here⟩ := same
  obtain ⟨written, moved⟩ := gAesCtrEncrypt_stream aligned here data
  rw [← handle] at there
  obtain ⟨read, follows⟩ :=
    gAesCtrEncrypt_stream aligned' there (gAesCtrEncrypt aligned own data).2
  refine ⟨by rw [read, handle, written, StreamCipher.xorStream_twice], handle, iv,
    place + data.length, ?_, moved⟩
  have length : (gAesCtrEncrypt aligned own data).2.length = data.length := by
    rw [written, StreamCipher.xorStream_length]
  rw [length, handle] at follows
  exact follows

/-! ## The clients -/

/-- The key stream of every client. -/
abbrev Clients := Remote → AesKeyContext

/-- What is on the wire for what a client shows: its SETUP starts its stream, and its pictures
are encrypted. -/
def Clients.send (cipher : CtrCipher) (s : MirrorServer) (clients : Clients) :
    MirrorEvent → Clients × MirrorEvent
  | .setup remote key iv =>
      (Function.update clients remote (.fresh key iv), .setup remote key iv)
  | .frame fd visit =>
      match s.connections.find? (·.fd = fd), visit.payload with
      | some c, some payload =>
          if visit.dType = 0 then
            let out := cipher (clients c.remote) payload
            (Function.update clients c.remote out.1,
              .frame fd { visit with payload := some out.2 })
          else (clients, .frame fd visit)
      | _, _ => (clients, .frame fd visit)
  | event => (clients, event)

/-- The server behind clients that encrypt what they show; the answers begin with what is on the
wire. -/
def mirrorSystem (client server : CtrCipher) :
    Transducer (Option MirrorServer × Clients) MirrorEvent (MirrorEvent × List MirrorCall) where
  step state event :=
    match state.1 with
    | none => (state, (event, []))
    | some s =>
        let sent := state.2.send client s event
        let answer := mirrorStep server s sent.2
        ((answer.1, sent.1), (sent.2, answer.2))

/-- A key is set with a whole initial vector, and frames have no more payload than the thread
reads behind their header. -/
def MirrorEvent.Whole : MirrorEvent → Prop
  | .setup _ _ iv => 16 ≤ iv.length
  | .frame _ visit => ∃ f : MirrorFrame, f.payload.length ≤ maxBufSize ∧ f.visit = visit
  | _ => True

/-- So have the frames that the clients make of them. -/
theorem Clients.send_whole (aligned : AesKeyContext → Bytes → Bool) (s : MirrorServer)
    (clients : Clients) {event : MirrorEvent} (whole : event.Whole) :
    (clients.send (gAesCtrEncrypt aligned) s event).2.Whole := by
  cases event with
  | setup remote key iv => exact whole
  | accept fd remote connInit => trivial
  | close fd => trivial
  | stop => trivial
  | frame fd visit =>
      obtain ⟨f, fits, rfl⟩ := whole
      rw [send]
      split
      · rename_i c payload found delivered
        split
        · rename_i picture
          have buffered : Buffered f.payload.length := by
            by_contra unread
            rw [MirrorFrame.visit, Visit.of, if_neg unread] at delivered
            cases delivered
          have sent : payload = f.payload := by
            rw [MirrorFrame.visit, Visit.of, if_pos buffered] at delivered
            exact (Option.some.inj delivered).symm
          have length := gAesCtrEncrypt_length aligned (clients c.remote) payload
          rw [sent] at length ⊢
          refine ⟨⟨f.header, _, f.headerLength, f.size.trans length.symm⟩, ?_, ?_⟩
          · exact length.trans_le fits
          · have all : Buffered (gAesCtrEncrypt aligned (clients c.remote) f.payload).2.length :=
              length.symm ▸ buffered
            rw [MirrorFrame.visit, MirrorFrame.visit, if_pos all, if_pos buffered]
            rfl
        · exact ⟨f, fits, rfl⟩
      · exact ⟨f, fits, rfl⟩

namespace MirrorServer

def shell (s : MirrorServer) : MirrorServer :=
  { s with contexts := s.contexts.map fun cell => { cell with content := ⟨[], [], [], 0⟩ } }

def contents (s : MirrorServer) : List AesKeyContext := s.contexts.map HeapContext.content

section

variable (s : MirrorServer)

theorem shell_setup (key iv : Bytes) :
    (s.gAesCrtSetkey key iv).shell =
      { s.shell with
        contexts := s.shell.contexts ++ [⟨⟨[], [], [], 0⟩, false⟩]
        gAesKeyCtx := some s.shell.contexts.length } := by
  simp [shell, gAesCrtSetkey]

theorem contents_setup (key iv : Bytes) :
    (s.gAesCrtSetkey key iv).contents = s.contents ++ [.fresh key iv] := by
  simp [contents, gAesCrtSetkey, AesKeyContext.fresh]

@[simp] theorem shell_connections : s.shell.connections = s.connections := rfl

@[simp] theorem shell_contexts_length : s.shell.contexts.length = s.contexts.length :=
  List.length_map _

@[simp] theorem shell_isFreed (ctx : ℕ) : s.shell.isFreed ctx = s.isFreed ctx := by
  rw [isFreed, shell, List.getElem?_map, Option.any_map, isFreed]

theorem shell_freeContext (ctx : Option ℕ) :
    s.shell.freeContext ctx = (s.freeContext ctx).map shell id := by
  cases ctx with
  | none => rfl
  | some ctx =>
      simp only [freeContext, shell_isFreed, Prod.map, id_eq]
      congr 1
      simp only [shell, MirrorServer.mk.injEq, true_and, and_true]
      refine List.ext_getElem? fun i => ?_
      simp only [List.getElem?_modify, List.getElem?_map]
      cases s.contexts[i]? with
      | none => rfl
      | some cell => simp only [Option.map_eq_map, Option.map_some]; split <;> rfl

theorem contents_freeContext (ctx : Option ℕ) : (s.freeContext ctx).1.contents = s.contents := by
  cases ctx with
  | none => rfl
  | some ctx =>
      simp only [freeContext, contents]
      refine List.ext_getElem? fun i => ?_
      simp only [List.getElem?_modify, List.getElem?_map]
      cases s.contexts[i]? with
      | none => rfl
      | some cell => simp only [Option.map_eq_map, Option.map_some]; split <;> rfl

theorem shell_remove (c : MirrorConnection) :
    s.shell.httpdRemoveConnection c = (s.httpdRemoveConnection c).map shell id :=
  shell_freeContext { s with connections := s.connections.filter (·.fd ≠ c.fd) } c.aesKeyContext

theorem contents_remove (c : MirrorConnection) :
    (s.httpdRemoveConnection c).1.contents = s.contents :=
  contents_freeContext _ _

end

theorem shell_removeAll (all : List MirrorConnection) : ∀ s : MirrorServer,
    removeAll all s.shell = (removeAll all s).map shell id := by
  induction all with
  | nil => intro s; rfl
  | cons c rest ih =>
      intro s
      simp only [removeAll, shell_remove, Prod.map, id_eq, ih]

theorem contents_removeAll (all : List MirrorConnection) : ∀ s : MirrorServer,
    (removeAll all s).1.contents = s.contents := by
  induction all with
  | nil => intro s; rfl
  | cons c rest ih => intro s; simp only [removeAll, ih, contents_remove]

section

variable (s : MirrorServer)

theorem shell_preempt (remote : Remote) :
    s.shell.preempt remote = (s.preempt remote).map shell id := by
  have stopped : s.shell.mirroringStop = s.mirroringStop.shell := rfl
  have running : s.shell.mirroringRunning remote = s.mirroringRunning remote := rfl
  simp only [preempt, running]
  split
  · rw [stopped, forceStopAirplay, shell_connections, shell_removeAll]
    rfl
  · rfl

theorem contents_preempt (remote : Remote) : (s.preempt remote).1.contents = s.contents := by
  unfold preempt
  split
  · exact contents_removeAll _ _
  · rfl

theorem shell_accept (fd : ℕ) (remote : Remote) (connInit : Bool) :
    s.shell.httpdAcceptConnection fd remote connInit =
      (s.httpdAcceptConnection fd remote connInit).map shell id := by
  have limit : s.shell.maxConnections = s.maxConnections := rfl
  simp only [httpdAcceptConnection, shell_preempt, limit, shell_connections]
  split
  · rfl
  · cases connInit <;> rfl

theorem contents_accept (fd : ℕ) (remote : Remote) (connInit : Bool) :
    (s.httpdAcceptConnection fd remote connInit).1.contents = s.contents := by
  unfold httpdAcceptConnection
  split
  · rfl
  · cases connInit with
    | false => exact contents_preempt s remote
    | true => exact contents_preempt s remote

theorem shell_process (payload : Bytes) (payloadtype : UInt8) (timestamp : ℕ) (remote : Remote) :
    s.shell.mirroringProcess payload payloadtype timestamp remote =
      (s.mirroringProcess payload payloadtype timestamp remote).map (Option.map shell) id := by
  have buffer : s.shell.mirrBuff = s.mirrBuff := rfl
  simp only [mirroringProcess, buffer]
  split <;> rfl

theorem shell_dispatch (cipher cipher' : CtrCipher) (c : MirrorConnection) {dType : UInt8}
    (clear : dType ≠ 0) (payload : Bytes) (timestamp : ℕ) :
    s.shell.dispatch cipher c dType payload timestamp =
      (s.dispatch cipher' c dType payload timestamp).map (Option.map shell) id := by
  simp only [dispatch, if_neg clear, shell_process]
  split
  · split <;> rfl
  · split
    · rfl
    · split <;> rfl

theorem contents_dispatch (cipher : CtrCipher) (c : MirrorConnection) {dType : UInt8}
    (clear : dType ≠ 0) (payload : Bytes) (timestamp : ℕ) :
    ∀ after ∈ (s.dispatch cipher c dType payload timestamp).1, after.contents = s.contents := by
  have processed : ∀ (payloadtype : UInt8),
      ∀ after ∈ (s.mirroringProcess payload payloadtype timestamp c.remote).1,
        after.contents = s.contents := by
    intro payloadtype after member
    rw [mirroringProcess] at member
    split at member
    · exact absurd member (Option.not_mem_none _)
    · cases member
      rfl
  intro after member
  rw [dispatch, if_neg clear] at member
  split at member
  · split at member
    · exact processed 1 after member
    · cases member
      rfl
  · split at member
    · exact processed 0 after member
    · split at member
      · cases member
        rfl
      · cases member
        rfl

end

section Decrypted

variable (s : MirrorServer) (cipher : CtrCipher) (ctx : ℕ) (payload : Bytes)

theorem shell_decrypted : (decrypted cipher s ctx payload).1.shell = s.shell := by
  unfold decrypted
  cases s.contexts[ctx]? with
  | none => rfl
  | some cell =>
      simp only [shell, MirrorServer.mk.injEq, true_and, and_true]
      refine List.ext_getElem? fun i => ?_
      simp only [List.getElem?_modify, List.getElem?_map]
      cases s.contexts[i]? with
      | none => rfl
      | some other => simp only [Option.map_eq_map, Option.map_some]; split <;> rfl

theorem decrypted_plain : (decrypted plainCipher s ctx payload).2 = payload := by
  unfold decrypted
  cases s.contexts[ctx]? <;> rfl

variable {s ctx}

theorem decrypted_context {context : AesKeyContext} (there : s.contents[ctx]? = some context) :
    (decrypted cipher s ctx payload).2 = (cipher context payload).2 ∧
      (decrypted cipher s ctx payload).1.contents =
        s.contents.set ctx (cipher context payload).1 := by
  rw [contents, List.getElem?_map, Option.map_eq_some_iff] at there
  obtain ⟨cell, present, rfl⟩ := there
  simp only [decrypted, present, true_and, contents]
  refine List.ext_getElem? fun i => ?_
  rw [List.getElem?_map, List.getElem?_modify, List.getElem?_set, List.getElem?_map,
    List.length_map]
  by_cases same : ctx = i
  · subst same
    have inside : ctx < s.contexts.length := (List.getElem?_eq_some_iff.mp present).1
    simp [inside]
  · simp [same]

end Decrypted

end MirrorServer

namespace KeyLedger

theorem latestSetup_lt {remote : Remote} {ctx : ℕ} : ∀ setups : List Remote,
    latestSetup remote setups = some ctx → ctx < setups.length := by
  intro setups
  induction setups with
  | nil => intro found; exact absurd found (by simp [latestSetup])
  | cons newest older ih =>
      intro found
      rw [latestSetup] at found
      split at found
      · cases found
        exact Nat.lt_succ_self _
      · exact Nat.lt_succ_of_lt (ih found)

theorem latestSetup_inj {remote other : Remote} {ctx : ℕ} : ∀ setups : List Remote,
    latestSetup remote setups = some ctx → latestSetup other setups = some ctx →
      remote = other := by
  intro setups
  induction setups with
  | nil => intro found; exact absurd found (by simp [latestSetup])
  | cons newest older ih =>
      intro found too
      rw [latestSetup] at found too
      by_cases first : newest = remote
      · by_cases second : newest = other
        · exact first.symm.trans second
        · rw [if_pos first] at found
          rw [if_neg second] at too
          cases found
          exact absurd (latestSetup_lt older too) (lt_irrefl _)
      · rw [if_neg first] at found
        by_cases second : newest = other
        · rw [if_pos second] at too
          cases too
          exact absurd (latestSetup_lt older found) (lt_irrefl _)
        · rw [if_neg second] at too
          exact ih found too

theorem receive_frame_setups (s : MirrorServer) (ledger : KeyLedger) (fd : ℕ) (visit : Visit) :
    (ledger.receive s (.frame fd visit)).setups = ledger.setups := by
  rw [receive]
  split
  · rfl
  · split <;> rfl

theorem receive_accept_setups (s : MirrorServer) (ledger : KeyLedger) (fd : ℕ) (remote : Remote)
    (connInit : Bool) : (ledger.receive s (.accept fd remote connInit)).setups = ledger.setups := by
  rw [receive]
  split <;> rfl

end KeyLedger

def Keyed (setups : List Remote) (contents : List AesKeyContext) (clients : Clients) : Prop :=
  ∀ remote ctx, KeyLedger.latestSetup remote setups = some ctx →
    ∃ context, contents[ctx]? = some context ∧ SamePlace context (clients remote)

section Keyed

variable {setups : List Remote} {contents : List AesKeyContext} {clients : Clients}

theorem Keyed.setup (keyed : Keyed setups contents clients)
    (allocated : contents.length = setups.length) (remote : Remote) (key : Bytes) {iv : Bytes}
    (whole : 16 ≤ iv.length) :
    Keyed (remote :: setups) (contents ++ [.fresh key iv])
      (Function.update clients remote (.fresh key iv)) := by
  intro other ctx latest
  rw [KeyLedger.latestSetup] at latest
  by_cases same : remote = other
  · subst same
    rw [if_pos rfl] at latest
    cases latest
    refine ⟨.fresh key iv, ?_, ?_⟩
    · rw [← allocated, List.getElem?_concat_length]
    · rw [Function.update_self]
      exact fresh_samePlace key whole
  · rw [if_neg same] at latest
    obtain ⟨context, there, place⟩ := keyed other ctx latest
    have inside := KeyLedger.latestSetup_lt setups latest
    refine ⟨context, ?_, ?_⟩
    · rw [List.getElem?_append_left (allocated ▸ inside), there]
    · rw [Function.update_of_ne (Ne.symm same)]
      exact place

theorem Keyed.picture (keyed : Keyed setups contents clients) {remote : Remote} {ctx : ℕ}
    (latest : KeyLedger.latestSetup remote setups = some ctx) {context own : AesKeyContext}
    (place : SamePlace context own) :
    Keyed setups (contents.set ctx context) (Function.update clients remote own) := by
  intro other i found
  obtain ⟨old, there, before⟩ := keyed other i found
  by_cases same : other = remote
  · subst same
    rw [latest] at found
    cases found
    refine ⟨context, ?_, ?_⟩
    · rw [List.getElem?_set_self (List.getElem?_eq_some_iff.mp there).1]
    · rw [Function.update_self]
      exact place
  · have apart : ctx ≠ i := fun equal =>
      same (KeyLedger.latestSetup_inj setups found (equal ▸ latest))
    refine ⟨old, ?_, ?_⟩
    · rw [List.getElem?_set_ne apart, there]
    · rw [Function.update_of_ne same]
      exact before

end Keyed

/-! ## One event -/

/-- What a step leaves does not tell the servers apart, and the clients are where their contexts
are. -/
def Faithful (setups : List Remote) (clients : Clients)
    (answer plain : Option MirrorServer × List MirrorCall) : Prop :=
  answer.1.map MirrorServer.shell = plain.1.map MirrorServer.shell ∧ answer.2 = plain.2 ∧
    ∀ after ∈ answer.1, Keyed setups after.contents clients

section Step

variable {setups : List Remote} {clients : Clients} {s t : MirrorServer}

theorem faithful_of_shell {answer plain : Option MirrorServer × List MirrorCall}
    (keyed : Keyed setups s.contents clients)
    (kept : ∀ after ∈ answer.1, after.contents = s.contents)
    (same : answer.map (Option.map MirrorServer.shell) id =
      plain.map (Option.map MirrorServer.shell) id) : Faithful setups clients answer plain := by
  obtain ⟨states, calls⟩ := Prod.ext_iff.mp same
  refine ⟨states, calls, fun after member => ?_⟩
  rw [kept after member]
  exact keyed

variable (keyed : Keyed setups s.contents clients) (alike : s.shell = t.shell)

include keyed alike

theorem accept_faithful (cipher : CtrCipher) (fd : ℕ) (remote : Remote) (connInit : Bool) :
    Faithful setups clients (mirrorStep cipher s (.accept fd remote connInit))
      (mirrorStep plainCipher t (.accept fd remote connInit)) := by
  refine faithful_of_shell keyed ?_ ?_
  · rintro after ⟨rfl⟩
    exact s.contents_accept fd remote connInit
  · have same := (s.shell_accept fd remote connInit).symm.trans
      ((congrArg (·.httpdAcceptConnection fd remote connInit) alike).trans
        (t.shell_accept fd remote connInit))
    exact congrArg (Prod.map some id) same

theorem close_faithful (cipher : CtrCipher) (fd : ℕ) :
    Faithful setups clients (mirrorStep cipher s (.close fd))
      (mirrorStep plainCipher t (.close fd)) := by
  have connections : s.connections = t.connections := by
    rw [← s.shell_connections, alike, t.shell_connections]
  simp only [mirrorStep, connections]
  cases t.connections.find? (·.fd = fd) with
  | none =>
      refine faithful_of_shell keyed ?_ (congrArg (fun u => (some u, [])) alike)
      rintro after ⟨rfl⟩
      rfl
  | some c =>
      refine faithful_of_shell keyed ?_ ?_
      · rintro after ⟨rfl⟩
        exact s.contents_remove c
      · have same := (s.shell_remove c).symm.trans
          ((congrArg (·.httpdRemoveConnection c) alike).trans (t.shell_remove c))
        exact congrArg (Prod.map some id) same

theorem stop_faithful (cipher : CtrCipher) :
    Faithful setups clients (mirrorStep cipher s .stop) (mirrorStep plainCipher t .stop) := by
  refine faithful_of_shell keyed ?_
    (congrArg (fun u => (some u.mirroringStop, [MirrorCall.stop])) alike)
  rintro after ⟨rfl⟩
  rfl

theorem clear_faithful (cipher : CtrCipher) (c : MirrorConnection) {dType : UInt8}
    (clear : dType ≠ 0) (payload : Bytes) (timestamp : ℕ) :
    Faithful setups clients (s.dispatch cipher c dType payload timestamp)
      (t.dispatch plainCipher c dType payload timestamp) := by
  refine faithful_of_shell keyed (s.contents_dispatch cipher c clear payload timestamp) ?_
  exact (s.shell_dispatch cipher cipher c clear payload timestamp).symm.trans
    ((congrArg (·.dispatch cipher c dType payload timestamp) alike).trans
      (t.shell_dispatch cipher plainCipher c clear payload timestamp))

omit keyed in
theorem process_shell (payload : Bytes) (payloadtype : UInt8) (timestamp : ℕ) (remote : Remote) :
    (s.mirroringProcess payload payloadtype timestamp remote).map
        (Option.map MirrorServer.shell) id =
      (t.mirroringProcess payload payloadtype timestamp remote).map
        (Option.map MirrorServer.shell) id :=
  (s.shell_process payload payloadtype timestamp remote).symm.trans
    ((congrArg (·.mirroringProcess payload payloadtype timestamp remote) alike).trans
      (t.shell_process payload payloadtype timestamp remote))

/-- A picture of the owner of a context is processed as its client shows it. -/
theorem picture_faithful (aligned aligned' : AesKeyContext → Bytes → Bool) {c : MirrorConnection}
    {ctx : ℕ} (own : c.aesKeyContext = some ctx)
    (latest : KeyLedger.latestSetup c.remote setups = some ctx) (payload : Bytes)
    (timestamp : ℕ) :
    Faithful setups
      (Function.update clients c.remote (gAesCtrEncrypt aligned (clients c.remote) payload).1)
      (s.pictureFrame (gAesCtrEncrypt aligned') c
        (gAesCtrEncrypt aligned (clients c.remote) payload).2 timestamp)
      (t.pictureFrame plainCipher c payload timestamp) := by
  obtain ⟨context, there, place⟩ := keyed c.remote ctx latest
  obtain ⟨plain, follows⟩ := place.decrypts aligned aligned' payload
  set sent := (gAesCtrEncrypt aligned (clients c.remote) payload).2
  obtain ⟨read, contents⟩ :=
    MirrorServer.decrypted_context (gAesCtrEncrypt aligned') sent there
  have after : (MirrorServer.decrypted (gAesCtrEncrypt aligned') s ctx sent).1.shell =
      (MirrorServer.decrypted plainCipher t ctx payload).1.shell := by
    rw [MirrorServer.shell_decrypted, MirrorServer.shell_decrypted, alike]
  have freed : s.isFreed ctx = t.isFreed ctx := by
    rw [← s.shell_isFreed, alike, t.shell_isFreed]
  obtain ⟨states, calls⟩ := Prod.ext_iff.mp (process_shell after payload 0 timestamp c.remote)
  simp only [MirrorServer.pictureFrame, own, read, plain, MirrorServer.decrypted_plain, freed]
  refine ⟨states, congrArg (MirrorCall.decrypt c.remote ctx (t.isFreed ctx) :: ·) calls,
    fun next member => ?_⟩
  rw [MirrorServer.mirroringProcess] at member
  split at member
  · exact absurd member (Option.not_mem_none _)
  · cases member
    rw [contents]
    exact keyed.picture latest follows

end Step

section System

variable (aligned aligned' : AesKeyContext → Bytes → Bool) {ledger : KeyLedger}
  {clients : Clients} {s t : MirrorServer}

theorem frame_faithful (owned : KeysOwned ledger t)
    (keyed : Keyed ledger.setups s.contents clients) (alike : s.shell = t.shell) (fd : ℕ)
    (visit : Visit) (inTurn : InTurn ledger t (.frame fd visit)) :
    Faithful ledger.setups (clients.send (gAesCtrEncrypt aligned) s (.frame fd visit)).1
      (mirrorStep (gAesCtrEncrypt aligned') s
        (clients.send (gAesCtrEncrypt aligned) s (.frame fd visit)).2)
      (mirrorStep plainCipher t (.frame fd visit)) := by
  have connections : s.connections = t.connections := by
    rw [← s.shell_connections, alike, t.shell_connections]
  have passedOver : Faithful ledger.setups clients (some s, []) (some t, []) := by
    refine faithful_of_shell keyed ?_ (congrArg (fun u => (some u, [])) alike)
    rintro after ⟨rfl⟩
    rfl
  simp only [Clients.send, connections]
  cases found : t.connections.find? (·.fd = fd) with
  | none =>
      simp only [mirrorStep, connections, found]
      exact passedOver
  | some c =>
      obtain ⟨member, rfl⟩ := t.mem_of_find found
      cases delivered : visit.payload with
      | none =>
          simp only [mirrorStep, connections, found, delivered]
          exact passedOver
      | some payload =>
          dsimp only
          by_cases picture : visit.dType = 0
          · obtain ⟨-, turn⟩ := inTurn (by rw [delivered]; rfl) c found
            obtain ⟨flag, fresh⟩ := turn picture
            obtain ⟨ctx, own, latest⟩ := owned.current c member flag fresh
            rw [if_pos picture]
            simp only [mirrorStep, connections, found, delivered, MirrorServer.dispatch, picture]
            exact picture_faithful keyed alike aligned aligned' own latest payload visit.timestamp
          · rw [if_neg picture]
            simp only [mirrorStep, connections, found, delivered]
            exact clear_faithful keyed alike _ c picture payload visit.timestamp

theorem step_faithful (owned : KeysOwned ledger t)
    (keyed : Keyed ledger.setups s.contents clients) (alike : s.shell = t.shell)
    (event : MirrorEvent) (inTurn : InTurn ledger t event) (whole : event.Whole) :
    Faithful (ledger.receive t event).setups (clients.send (gAesCtrEncrypt aligned) s event).1
      (mirrorStep (gAesCtrEncrypt aligned') s (clients.send (gAesCtrEncrypt aligned) s event).2)
      (mirrorStep plainCipher t event) := by
  cases event with
  | setup remote key iv =>
      have allocated : s.contents.length = ledger.setups.length := by
        rw [← owned.allocated, MirrorServer.contents, List.length_map,
          ← s.shell_contexts_length, alike, t.shell_contexts_length]
      refine ⟨congrArg some ?_, rfl, ?_⟩
      · rw [MirrorServer.shell_setup, alike, ← MirrorServer.shell_setup]
      · rintro after ⟨rfl⟩
        rw [MirrorServer.contents_setup]
        exact keyed.setup allocated remote key whole
  | accept fd remote connInit =>
      rw [KeyLedger.receive_accept_setups]
      exact accept_faithful keyed alike _ fd remote connInit
  | frame fd visit =>
      rw [KeyLedger.receive_frame_setups]
      exact frame_faithful aligned aligned' owned keyed alike fd visit inTurn
  | close fd => exact close_faithful keyed alike _ fd
  | stop => exact stop_faithful keyed alike _

/-! ## Whole runs -/

theorem mirrorSystem_whole (server : CtrCipher) (state : Option MirrorServer × Clients)
    {events : List MirrorEvent} (whole : ∀ event ∈ events, event.Whole) :
    ∀ answer ∈ ((mirrorSystem (gAesCtrEncrypt aligned) server).run state events).2,
      answer.1.Whole := by
  refine (Transducer.run_guarded (mirrorSystem (gAesCtrEncrypt aligned) server)
    (fun _ event => event.Whole) (fun _ => True) (fun answer => answer.1.Whole) ?_ events state
    trivial (Transducer.admissible_of_forall _ _ _ _ fun event member _ => whole event member)).2
  rintro ⟨state, clients⟩ event - whole
  cases state with
  | none => exact ⟨trivial, whole⟩
  | some s => exact ⟨trivial, clients.send_whole aligned s whole⟩

/-- Whatever clients come and go, where every event is in its turn the server does with their
encrypted pictures what it would do with the pictures in the clear, and each of these is a frame
that it reads to its end. -/
theorem mirrorSystem_shows_pictures (maxConnections : ℕ) (clients : Clients)
    (events : List MirrorEvent) (whole : ∀ event ∈ events, event.Whole)
    (inTurn : (keyMachine plainCipher).Admissible (fun state => Alive (InTurn state.2) state.1)
      (some (mirrorStart maxConnections), .start) events) :
    let answers := ((mirrorSystem (gAesCtrEncrypt aligned) (gAesCtrEncrypt aligned')).run
      (some (mirrorStart maxConnections), clients) events).2
    answers.map Prod.snd =
        ((mirrorMachine plainCipher).run (some (mirrorStart maxConnections)) events).2 ∧
      ∀ answer ∈ answers, answer.1.Whole := by
  intro answers
  refine ⟨?_, mirrorSystem_whole aligned _ _ whole⟩
  let system := (mirrorSystem (gAesCtrEncrypt aligned) (gAesCtrEncrypt aligned')).answering Prod.snd
  let R : Option MirrorServer × Clients → Option MirrorServer × KeyLedger → Prop :=
    fun state plain => state.1.map MirrorServer.shell = plain.1.map MirrorServer.shell ∧
      (∀ t ∈ plain.1, KeysOwned plain.2 t) ∧
        ∀ s ∈ state.1, Keyed plain.2.setups s.contents state.2
  have simulates : ∀ state plain event, R state plain →
      Alive (InTurn plain.2) plain.1 event ∧ event.Whole →
        R (system.step state event).1 ((keyMachine plainCipher).step plain event).1 ∧
          (system.step state event).2 = ((keyMachine plainCipher).step plain event).2.2 := by
    rintro ⟨state, clients⟩ ⟨plain, ledger⟩ event ⟨alike, owned, keyed⟩ ⟨turn, whole⟩
    cases state with
    | none =>
        cases plain with
        | none => exact ⟨⟨rfl, by rintro _ ⟨⟩, by rintro _ ⟨⟩⟩, rfl⟩
        | some t => exact absurd alike (by simp)
    | some s =>
        cases plain with
        | none => exact absurd alike (by simp)
        | some t =>
            obtain ⟨shells, calls, kept⟩ := step_faithful aligned aligned' (owned t rfl)
              (keyed s rfl) (Option.some.inj alike) event turn whole
            exact ⟨⟨shells, (step_owned plainCipher (owned t rfl) event turn).1, kept⟩, calls⟩
  have start : R (some (mirrorStart maxConnections), clients)
      (some (mirrorStart maxConnections), .start) := by
    refine ⟨rfl, ?_, ?_⟩
    · rintro _ ⟨rfl⟩
      exact start_owned maxConnections
    · rintro _ ⟨rfl⟩ remote ctx latest
      exact absurd latest (by simp [KeyLedger.start, KeyLedger.latestSetup])
  obtain ⟨-, same⟩ := Transducer.run_simulates system (keyMachine plainCipher) Prod.snd
    (fun plain event => Alive (InTurn plain.2) plain.1 event ∧ event.Whole) R simulates events
    _ _ start (Transducer.admissible_and inTurn fun i member _ => whole i member)
  rw [Transducer.answering_run] at same
  refine same.trans ?_
  exact ((mirrorMachine plainCipher).observe_run KeyLedger.watch events _ .start).2

end System

/-- A client sets up a stream, opens it and shows two pictures; another takes its place. -/
def twoClients : List MirrorEvent :=
  [.setup ⟨192, 168, 0, 2⟩ (List.replicate 16 1) (List.replicate 16 255),
    .accept 5 ⟨192, 168, 0, 2⟩ true, .frame 5 (oneByte 1).visit, .frame 5 (oneByte 0).visit,
    .frame 5 (oneByte 0).visit,
    .setup ⟨192, 168, 0, 3⟩ (List.replicate 16 2) (List.replicate 16 0),
    .accept 6 ⟨192, 168, 0, 3⟩ true, .frame 6 (oneByte 1).visit, .frame 6 (oneByte 0).visit]

theorem oneByte_whole (fd : ℕ) (dType : UInt8) :
    (MirrorEvent.frame fd (oneByte dType).visit).Whole :=
  ⟨oneByte dType, by change 1 ≤ 4 * 1024 * 1024; omega, rfl⟩

theorem twoClients_whole : ∀ event ∈ twoClients, event.Whole := by
  have iv (b : UInt8) : 16 ≤ (List.replicate 16 b).length := by simp
  simp only [twoClients, List.forall_mem_cons, List.not_mem_nil, false_imp_iff, implies_true,
    and_true]
  exact ⟨iv _, trivial, oneByte_whole _ _, oneByte_whole _ _, oneByte_whole _ _, iv _, trivial,
    oneByte_whole _ _, oneByte_whole _ _⟩

theorem mirrorSystem_shows_twoClients :
    let answers := ((mirrorSystem (gAesCtrEncrypt fun _ _ => true)
      (gAesCtrEncrypt fun _ _ => false)).run
        (some (mirrorStart 10), fun _ => .fresh [] []) twoClients).2
    answers.map Prod.snd =
        ((mirrorMachine plainCipher).run (some (mirrorStart 10)) twoClients).2 ∧
      ∀ answer ∈ answers, answer.1.Whole :=
  mirrorSystem_shows_pictures _ _ 10 _ twoClients twoClients_whole (by decide)

end AirCast.Mirror
