import AirCast.Lib.Isolation
import AirCast.Raop.RaopConn

/-! # Handshakes side by side

Pairing data and FairPlay message are kept once for all connections.  The handshake of
a connection is as if it were alone exactly while what it reads was last written by
itself, which the history of writers tells. -/

set_option autoImplicit false

namespace AirCast.Raop

open AirCast.Http

inductive HandshakeRequest where
  | pairSetup (body : Option Bytes)
  /-- with the seed that is drawn if this is the first message -/
  | pairVerify (body : Option Bytes) (seed : Bytes)
  | fpSetup (body : Option Bytes)
  | setup (eiv : Option Bytes) (ekey : Bytes)
  deriving DecidableEq

structure Handshakes (ρ : Type) where
  server : RaopServer
  conns : ℕ → RaopConn ρ

/-- The reply, which also tells whether the signature was verified, and the keys of the
connection behind it. -/
structure HandshakeAnswer where
  headers : List (CString × CString)
  responseData : Bytes
  cvSha : Bytes
  rsaKey : Bytes
  deriving DecidableEq

section Machine

variable {ρ : Type} (crypto : RaopCrypto)

def handle (server : RaopServer) (conn : RaopConn ρ) : HandshakeRequest → Except Fault (Handling ρ)
  | .pairSetup body => .ok (requestHandlePairsetup crypto server conn body)
  | .pairVerify body seed => requestHandlePairverify crypto server conn seed body
  | .fpSetup body => requestHandleFpsetup crypto server conn body
  | .setup eiv ekey => requestHandleSetupKeys crypto server conn eiv ekey

def Handling.answer (out : Handling ρ) : HandshakeAnswer :=
  ⟨out.headers, out.responseData, out.conn.cvSha, out.conn.rsaKey⟩

/-- One request of one connection; a fault ends the process. -/
def handshakeMachine :
    Transducer (Option (Handshakes ρ)) (ℕ × HandshakeRequest) (Option HandshakeAnswer) where
  step state event :=
    match state with
    | none => (none, none)
    | some s =>
        match handle crypto s.server (s.conns event.1) event.2 with
        | .error _ => (none, none)
        | .ok out =>
            (some ⟨out.server, Function.update s.conns event.1 out.conn⟩, some out.answer)

end Machine

/-- The connections that set up pairing, and the last writers of the client's key, of the
verification session and of the FairPlay message. -/
structure WriterHistory where
  pairedBy : List ℕ
  hisBy : Option ℕ
  sessionBy : Option ℕ
  messageBy : Option ℕ
  deriving DecidableEq

def isFirst (body : Option Bytes) : Bool := body.bind List.head? = some 1

namespace WriterHistory

def start : WriterHistory := ⟨[], none, none, none⟩

def record (h : WriterHistory) (who : ℕ) : HandshakeRequest → WriterHistory
  | .pairSetup body =>
      { h with
        pairedBy := who :: h.pairedBy
        hisBy := if (body.getD []).length = 32 then some who else h.hisBy }
  | .pairVerify body _ =>
      { h with
        sessionBy := some who
        hisBy := if isFirst body then some who else h.hisBy }
  | .fpSetup body =>
      { h with messageBy := if (body.getD []).length = 16 then h.messageBy else some who }
  | .setup _ _ => h

end WriterHistory

/-- Nobody wrote, or `who` did so last. -/
def Mine (writer : Option ℕ) (who : ℕ) : Prop := ∀ party ∈ writer, party = who

instance (writer : Option ℕ) (who : ℕ) : Decidable (Mine writer who) :=
  inferInstanceAs (Decidable (∀ _ ∈ _, _))

/-- What the request reads was written by its connection, or by nobody. -/
def Unmixed (h : WriterHistory) (who : ℕ) : HandshakeRequest → Prop
  | .pairSetup _ | .fpSetup _ => True
  | .pairVerify body _ =>
      if isFirst body then h.pairedBy = [] ∨ who ∈ h.pairedBy
      else Mine h.sessionBy who ∧ Mine h.hisBy who
  | .setup _ ekey => ekey.length = 72 → Mine h.messageBy who

instance (h : WriterHistory) (who : ℕ) : ∀ request, Decidable (Unmixed h who request)
  | .pairSetup _ | .fpSetup _ => isTrue trivial
  | .pairVerify body _ =>
      inferInstanceAs (Decidable (if isFirst body then h.pairedBy = [] ∨ who ∈ h.pairedBy
        else Mine h.sessionBy who ∧ Mine h.hisBy who))
  | .setup _ _ => inferInstanceAs (Decidable (_ → _))

def fpsetupSize (data : Bytes) : ℕ := if data.length = 16 then 142 else 32

/-- The handlers read and write inside their buffers. -/
def Readable (crypto : RaopCrypto) : HandshakeRequest → Prop
  | .pairSetup _ => True
  | .pairVerify body _ => ∃ bytes ∈ body, 68 ≤ bytes.length
  | .fpSetup body =>
      ∃ data ∈ body, (data.length = 16 ∨ 164 ≤ data.length) ∧
        ∀ buf ∈ crypto.fairplaySetup data, fpsetupSize data ≤ buf.length
  | .setup eiv _ => ∀ iv ∈ eiv, iv.length ≤ 16

instance (crypto : RaopCrypto) : ∀ request, Decidable (Readable crypto request)
  | .pairSetup _ => isTrue trivial
  | .pairVerify _ _ => inferInstanceAs (Decidable (∃ _ ∈ _, _))
  | .fpSetup _ => inferInstanceAs (Decidable (∃ _ ∈ _, _ ∧ ∀ _ ∈ _, _))
  | .setup _ _ => inferInstanceAs (Decidable (∀ _ ∈ _, _))

section Handlers

variable {ρ : Type} (crypto : RaopCrypto) {server : RaopServer} {conn : RaopConn ρ}

theorem copyFrom_ok {buffer : Bytes} {offset length : ℕ}
    (inside : offset + length ≤ buffer.length) :
    copyFrom buffer offset length = .ok ((buffer.drop offset).take length) :=
  if_pos inside

theorem pairverifyFirst_eq {body : Bytes} (first : body.head? = some 1) (long : 68 ≤ body.length)
    (seed : Bytes) :
    requestHandlePairverify crypto server conn seed (some body) =
      let out := firstMessage crypto server.pairData seed ((body.drop 4).take 32)
        ((body.drop 36).take 32)
      .ok (.plain { server with pairData := out.1 } { conn with cvSha := out.1.cvSha }
        [octetStream] out.2) := by
  obtain ⟨step, rest, rfl⟩ : ∃ step rest, body = step :: rest :=
    List.exists_cons_of_length_pos (by omega)
  cases Option.some.inj first
  rw [requestHandlePairverify, if_pos rfl, pairverifyFirst, copyFrom_ok (by omega),
    copyFrom_ok (by omega)]
  rfl

theorem pairverifySecond_eq {body : Bytes} (second : body.head? ≠ some 1)
    (long : 68 ≤ body.length) (seed : Bytes) :
    requestHandlePairverify crypto server conn seed (some body) =
      let out := secondMessage crypto server.pairData ((body.drop 4).take 64)
      .ok (.plain { server with pairData := { server.pairData with ctr := out.1 } } conn
        (if out.2 then [octetStream] else [connectionClose, octetStream]) []) := by
  obtain ⟨step, rest, rfl⟩ : ∃ step rest, body = step :: rest :=
    List.exists_cons_of_length_pos (by omega)
  have other : step ≠ 1 := fun same => second (congrArg some same)
  rw [requestHandlePairverify, if_neg other, pairverifySecond, copyFrom_ok (by omega)]
  rfl

theorem fpsetupReply_eq {data : Bytes} {size : ℕ}
    (inside : ∀ buf ∈ crypto.fairplaySetup data, size ≤ buf.length) :
    fpsetupReply crypto data size = .ok (((crypto.fairplaySetup data).getD []).take size) := by
  unfold fpsetupReply
  cases reply : crypto.fairplaySetup data with
  | none => simp
  | some buf =>
      have long := inside buf reply
      simp only [Option.getD_some]
      exact copyFrom_ok (by omega)

theorem requestHandleFpsetup_eq {data : Bytes} (long : data.length = 16 ∨ 164 ≤ data.length)
    (inside : ∀ buf ∈ crypto.fairplaySetup data, fpsetupSize data ≤ buf.length) :
    requestHandleFpsetup crypto server conn (some data) =
      .ok (.plain
        { server with
          message3 := if data.length = 16 then server.message3 else data.take 164 }
        conn [] (((crypto.fairplaySetup data).getD []).take (fpsetupSize data))) := by
  unfold requestHandleFpsetup
  by_cases short : data.length = 16
  · have size : fpsetupSize data = 142 := if_pos short
    rw [size] at inside ⊢
    simp only [if_pos short, fpsetupReply_eq crypto inside]
    rfl
  · have size : fpsetupSize data = 32 := if_neg short
    rw [size] at inside ⊢
    simp only [if_neg short, fpsetupReply_eq crypto inside, copyFrom_ok (show 0 + 164 ≤ data.length
      by omega), List.drop_zero]
    rfl

theorem requestHandleSetupKeys_eq (server : RaopServer) (conn : RaopConn ρ) {eiv : Option Bytes}
    (short : ∀ iv ∈ eiv, iv.length ≤ 16) (ekey : Bytes) :
    ∃ ready : RaopConn ρ, setupIv conn eiv = .ok ready ∧
      requestHandleSetupKeys crypto server conn eiv ekey =
        .ok (.plain server (setupKey crypto server ready ekey)
          [(.lit "Content-Type", .lit "application/x-apple-binary-plist"),
            (.lit "Content-Length", .lit "0")] []) := by
  have ready : ∃ ready : RaopConn ρ, setupIv conn eiv = .ok ready := by
    cases eiv with
    | none => exact ⟨conn, rfl⟩
    | some iv => exact ⟨_, if_pos (short iv rfl)⟩
  obtain ⟨ready, copied⟩ := ready
  refine ⟨ready, copied, ?_⟩
  rw [requestHandleSetupKeys, copied]
  rfl

end Handlers

end AirCast.Raop
