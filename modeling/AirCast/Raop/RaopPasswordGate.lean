import AirCast.Raop.RaopRequest

/-! # The password gate

`require_auth` keeps a request without the password from the answer to its challenge
only.  The handlers do not ask for it, so that such a request is refused exactly if
there is no handler for it. -/

set_option autoImplicit false

namespace AirCast.Raop

open AirCast.Http

variable {ρ : Type} (env : RaopEnv ρ) (server : RaopServer) (conn : RaopConn ρ)
  (request : HttpRequest) (index : ℤ)

def challengeReply : Reply where
  protocol := .lit "RTSP/1.0"
  code := 401
  message := .lit "Unauthorized"
  headers := (.lit "WWW-Authenticate", authString conn.nonce) :: closingHeaders env request index
  body := []

/-- Server and connection stay as they were, no handler runs, and the challenge is the
reply. -/
def Refuses : Prop :=
  connRequest env server conn request index =
    .ok ⟨server, conn, none, [], false, some (buildReply (challengeReply env conn request index))⟩

/-- A request that needs the password and does not have it. -/
structure Unauthorized (method : CString) : Prop where
  password : server.password.strlen ≠ 0
  parsed : httpRequestGetMethod request = some method
  gated : method ≠ .lit "OPTIONS"
  rejected : authorizationValid env server conn request method = .ok false

/-- No branch of the dispatch is taken, and the comparisons have a URL to look at. -/
def Unhandled (method : CString) : Prop :=
  ∃ uri, httpRequestGetUrl request index = some uri ∧ selectHandler method uri = .ok none

variable {env server conn request index}

theorem Unauthorized.requireAuth {method : CString}
    (unauthorized : Unauthorized env server conn request method) :
    requireAuth env server conn request method = .ok true := by
  rw [Raop.requireAuth, if_pos ⟨unauthorized.gated, unauthorized.password⟩, unauthorized.rejected]
  rfl

theorem Unauthorized.connRequest_eq {method : CString} {uri : Option Bytes}
    (unauthorized : Unauthorized env server conn request method)
    (located : httpRequestGetUrl request index = some uri) :
    connRequest env server conn request index =
      (do
        let handler ← selectHandler method uri
        let handling ← runSelected env server conn request index handler
        return ⟨handling.server, handling.conn, handler, handling.callbacks, handling.disconnect,
          some (buildReply (closeReply env request index
            (openReply env server conn request index true) handling))⟩) := by
  simp only [connRequest, located, unauthorized.parsed, unauthorized.requireAuth]
  rfl

/-- A request without the password is refused exactly if no handler is there for it. -/
theorem refuses_iff_unhandled {method : CString}
    (unauthorized : Unauthorized env server conn request method) :
    Refuses env server conn request index ↔ Unhandled request index method := by
  constructor
  · intro refuses
    unfold Refuses at refuses
    cases located : httpRequestGetUrl request index with
    | none => simp [connRequest, located] at refuses
    | some uri =>
        refine ⟨uri, located, ?_⟩
        rw [unauthorized.connRequest_eq located] at refuses
        obtain ⟨handler, selected, refuses⟩ := bind_ok refuses
        obtain ⟨handling, -, refuses⟩ := bind_ok refuses
        rw [selected]
        exact congrArg Except.ok (congrArg Exchange.handled (Except.ok.inj refuses))
  · rintro ⟨uri, located, selected⟩
    rw [Refuses, unauthorized.connRequest_eq located, selected]
    rfl

def plainEnv : RaopEnv Unit where
  crypto :=
    { gEdPublicKey := List.replicate 32 1
      gEdPrivateKey := List.replicate 64 2
      curve25519Donna := fun secret _ => secret
      ed25519Sign := fun message _ _ => message
      ed25519Verify := fun signature message _ => signature = message
      sha512msg := fun salt key => salt ++ key
      ctr128Encrypt := fun ctr data => (ctr, data)
      fairplaySetup := fun _ => none
      fairplayDecrypt := fun _ _ => none }
  md5 := fun text => text.take 16
  rsakeySign := fun challenge _ _ => challenge
  date := .lit "Mon Jan  1 00:00:00 2024"
  seed := List.replicate 32 5
  info := fun server conn _ _ => .ok (.plain server conn [] [])
  announce := fun server conn _ _ => .ok (.plain server conn [] [])
  setup := fun server conn _ _ => .ok (.plain server conn [] [])
  setparameter := fun server conn _ _ => .ok (.plain server conn [] [])
  flush := fun server conn _ _ => .ok (.plain server conn [] [])
  teardown := fun server conn _ _ => .ok (.plain server conn [] [])

def guardedServer : RaopServer := raopInit (.lit "secret") [1, 2, 3, 4, 5, 6] 1080 1920 60

def newConn : RaopConn Unit := connInit [192, 168, 0, 1] [192, 168, 0, 2] (.lit "0123456789abcdef")

def strayRequest : HttpRequest := received "GET /server-info RTSP/1.0\r\nCSeq: 1\r\n\r\n"

theorem refuses_strayRequest : Refuses plainEnv guardedServer newConn strayRequest 1 := by
  have unauthorized : Unauthorized plainEnv guardedServer newConn strayRequest (.lit "GET") :=
    ⟨by decide, by decide, by decide, by decide⟩
  exact (refuses_iff_unhandled unauthorized).mpr
    ⟨some (bytesOf "/server-info"), by decide, by decide⟩

def pairSetupRequest : HttpRequest := received "POST /pair-setup RTSP/1.0\r\nCSeq: 1\r\n\r\n"

/-- Pairing is set up for a client that does not know the password. -/
theorem pairSetup_passes_gate :
    Unauthorized plainEnv guardedServer newConn pairSetupRequest (.lit "POST") ∧
      ¬ Refuses plainEnv guardedServer newConn pairSetupRequest 1 := by
  refine ⟨⟨by decide, by decide, by decide, by decide⟩, ?_⟩
  intro refuses
  have handled : (connRequest plainEnv guardedServer newConn pairSetupRequest 1).toOption.map
      Exchange.handled = some (some .pairsetup) := by
    decide
  rw [refuses] at handled
  exact absurd handled (by decide)

end AirCast.Raop
