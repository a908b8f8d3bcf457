import AirCast.Lib.Transducer
import AirCast.Raop.RaopSetup

/-! # The ports of airplay.c and the ports in SETUP

`airplay_start` asks for fixed ports, `netutils_init_socket` goes on to the next one while
it is refused, and `g_port_seted` changes the event port with every start.  The reply to
SETUP has its ports from `conn_init` and from a literal.  They agree exactly while the
httpds that listen were opened without a shift. -/

set_option autoImplicit false

namespace AirCast.Raop

open AirCast.Http

abbrev Port := BitVec 16

/-! ## Sockets -/

/-- What the system calls behind one `httpd_start` come to. -/
structure SocketCalls where
  opened : Bool
  /-- the calls of `bind` that fail before one does not -/
  refused : ℕ
  /-- the port the system takes for port 0 -/
  ephemeral : Port
  named : Bool
  listens : Bool
  deriving DecidableEq

/-- The port `getsockname` tells after the loop around `bind`. -/
def bindRetry (ephemeral : Port) : ℕ → Port → Port
  | 0, port => if port = 0 then ephemeral else port
  | refused + 1, port => bindRetry ephemeral refused (port + 1)

/-- `netutils_init_socket` for an IPv4 socket: the port, if there is a socket. -/
def netutilsInitSocket (sockets : SocketCalls) (port : Port) : Option Port :=
  if sockets.opened && sockets.named then some (bindRetry sockets.ephemeral sockets.refused port)
  else none

/-- The fields of `httpd_t` for starting and stopping; `serverPort` is the port of a
`server_fd4` that listens. -/
structure HttpdServer where
  running : Bool
  joined : Bool
  serverPort : Option Port
  deriving DecidableEq

def HttpdServer.init : HttpdServer := ⟨false, true, none⟩

def httpdStart (server : HttpdServer) (port : Port) (sockets : SocketCalls) : HttpdServer × ℤ :=
  if server.running = true ∨ server.joined = false then (server, 0)
  else
    match netutilsInitSocket sockets port with
    | none => (server, -1)
    | some bound => if sockets.listens then (⟨true, false, some bound⟩, 1) else (server, -2)

def httpdStop (server : HttpdServer) : HttpdServer :=
  if server.running = false ∨ server.joined = true then server else ⟨false, true, none⟩

/-! ## airplay.c -/

structure AirplayServers where
  main : HttpdServer
  mirror : HttpdServer
  event : HttpdServer
  deriving DecidableEq

def airplayInit : AirplayServers := ⟨.init, .init, .init⟩

/-- The arguments of `airplay_start`, and what its sockets come to. -/
structure StartCall where
  port : Port
  hwaddrlen : ℤ
  password : Option CString
  mirror : SocketCalls
  event : SocketCalls
  main : SocketCalls
  deriving DecidableEq

def StartCall.valid (call : StartCall) : Bool :=
  call.hwaddrlen ≤ 6 && call.password.all fun password => password.strlen ≤ 64

/-- The event port of a start that finds `g_port_seted`. -/
def eventPortOf (portSeted : Bool) : Port := if portSeted then 55557 else 55556

/-- `airplay_start`, with `g_port_seted`; the first server that fails ends it. -/
def airplayStart (servers : AirplayServers) (portSeted : Bool) (call : StartCall) :
    AirplayServers × Bool × ℤ :=
  if call.valid = false then (servers, !portSeted, -1)
  else
    let mirror := httpdStart servers.mirror 53291 call.mirror
    let servers := { servers with mirror := mirror.1 }
    if mirror.2 < 0 then (servers, !portSeted, mirror.2)
    else
      let event := httpdStart servers.event (eventPortOf portSeted) call.event
      let servers := { servers with event := event.1 }
      if event.2 < 0 then (servers, !portSeted, event.2)
      else
        let main := httpdStart servers.main call.port call.main
        ({ servers with main := main.1 }, !portSeted, main.2)

def airplayStop (servers : AirplayServers) : AirplayServers :=
  ⟨httpdStop servers.main, httpdStop servers.mirror, httpdStop servers.event⟩

/-! ## Starts, stops and SETUP requests -/

variable {δ : Type}

/-- The process: the servers of airplay.c, `g_port_seted`, and the RTSP connections. -/
structure MediaServer (δ : Type) where
  servers : AirplayServers
  portSeted : Bool
  raop : RaopServer
  conns : ℕ → Option (RaopConn (RaopRtp δ))

def mediaServerInit (raop : RaopServer) : MediaServer δ := ⟨airplayInit, false, raop, fun _ => none⟩

inductive MediaEvent (δ : Type) where
  | airplayInit
  | airplayStart (call : StartCall)
  | airplayStop
  | connInit (who : ℕ) (localAddress remote : Bytes) (nonce : CString)
  | connDestroy (who : ℕ)
  | setup (who : ℕ) (env : SetupEnv δ) (request : HttpRequest)

/-- A reply to SETUP, and where the mirror and the event httpd listen meanwhile. -/
structure Advertisement where
  reply : SetupReply
  mirror : Option Port
  event : Option Port
  deriving DecidableEq

/-- The ports in the reply are those of the httpds. -/
def Advertisement.Listening (ad : Advertisement) : Prop :=
  (∀ port ∈ ad.reply.mirrorDataPort, ad.mirror.map BitVec.toNat = some port) ∧
    ∀ port ∈ ad.reply.eventPort, ad.event.map BitVec.toNat = some port

instance (ad : Advertisement) : Decidable ad.Listening :=
  inferInstanceAs (Decidable ((∀ _ ∈ _, _) ∧ ∀ _ ∈ _, _))

namespace MediaServer

def setup (s : MediaServer δ) (who : ℕ) (env : SetupEnv δ) (request : HttpRequest) :
    Option (MediaServer δ) × Option Advertisement :=
  match s.conns who with
  | none => (some s, none)
  | some conn =>
      match setupRequest env s.raop conn request with
      | .error _ => (none, none)
      | .ok (out, reply) =>
          (some { s with raop := out.server, conns := Function.update s.conns who (some out.conn) },
            some ⟨reply, s.servers.mirror.serverPort, s.servers.event.serverPort⟩)

def handle (s : MediaServer δ) : MediaEvent δ → Option (MediaServer δ) × Option Advertisement
  | .airplayInit => (some { s with servers := Raop.airplayInit }, none)
  | .airplayStart call =>
      let started := Raop.airplayStart s.servers s.portSeted call
      (some { s with servers := started.1, portSeted := started.2.1 }, none)
  | .airplayStop => (some { s with servers := Raop.airplayStop s.servers }, none)
  | .connInit who localAddress remote nonce =>
      let conn : RaopConn (RaopRtp δ) := Raop.connInit localAddress remote nonce
      (some { s with conns := Function.update s.conns who (some conn) }, none)
  | .connDestroy who => (some { s with conns := Function.update s.conns who none }, none)
  | .setup who env request => s.setup who env request

end MediaServer

def mediaMachine :
    Transducer (Option (MediaServer δ)) (MediaEvent δ) (Option Advertisement) where
  step state event :=
    match state with
    | none => (none, none)
    | some s => s.handle event

/-! ## Which start opened what -/

/-- The socket calls that opened the servers that are open, and `g_port_seted` then. -/
structure Openings where
  mirror : Option SocketCalls
  event : Option (Bool × SocketCalls)
  deriving DecidableEq

def Openings.none : Openings := ⟨Option.none, Option.none⟩

def SocketCalls.works (sockets : SocketCalls) : Bool :=
  sockets.opened && sockets.named && sockets.listens

def Openings.start (h : Openings) (portSeted : Bool) (call : StartCall) : Openings :=
  if call.valid = false ∨ (h.mirror = Option.none ∧ call.mirror.works = false) then h
  else
    { mirror := h.mirror <|> some call.mirror
      event :=
        h.event <|> if call.event.works then some (portSeted, call.event) else Option.none }

def Openings.record (s : Option (MediaServer δ)) (event : MediaEvent δ) (h : Openings) : Openings :=
  match event with
  | .airplayInit | .airplayStop => .none
  | .airplayStart call => h.start ((s.map MediaServer.portSeted).getD false) call
  | .connInit _ _ _ _ | .connDestroy _ | .setup _ _ _ => h

/-- The loop that starts at `first` ends at `wanted`: the refusals lead there, or to port 0,
for which the system takes it. -/
def SocketCalls.Lands (sockets : SocketCalls) (first wanted : Port) : Prop :=
  first + BitVec.ofNat 16 sockets.refused = wanted ∨
    first + BitVec.ofNat 16 sockets.refused = 0 ∧ sockets.ephemeral = wanted

instance (sockets : SocketCalls) (first wanted : Port) : Decidable (sockets.Lands first wanted) :=
  inferInstanceAs (Decidable (_ ∨ _))

/-- The screen was opened at the literal of the reply. -/
def Openings.MirrorInPlace (h : Openings) : Prop :=
  ∃ sockets ∈ h.mirror, sockets.Lands 53291 53291

/-- The events were opened at the port of `conn_init`. -/
def Openings.EventInPlace (h : Openings) : Prop :=
  ∃ opening ∈ h.event, opening.2.Lands (eventPortOf opening.1) 55556

instance (h : Openings) : Decidable h.MirrorInPlace := inferInstanceAs (Decidable (∃ _ ∈ _, _))

instance (h : Openings) : Decidable h.EventInPlace := inferInstanceAs (Decidable (∃ _ ∈ _, _))

def Answers (state : Option (MediaServer δ)) (who : ℕ) (env : SetupEnv δ) (request : HttpRequest) :
    Prop :=
  ∃ s conn out, state = some s ∧ s.conns who = some conn ∧
    setupRequest env s.raop conn request = .ok out

def InPlace (state : Option (MediaServer δ) × Openings) : MediaEvent δ → Prop
  | .setup who env request =>
      Answers state.1 who env request →
        (AsksMirrorPort env request → state.2.MirrorInPlace) ∧
          (AsksEventPort env request → state.2.EventInPlace)
  | _ => True

/-! ## The servers are what was opened -/

theorem bindRetry_eq (ephemeral : Port) (refused : ℕ) :
    ∀ port : Port, bindRetry ephemeral refused port =
      if port + BitVec.ofNat 16 refused = 0 then ephemeral else port + BitVec.ofNat 16 refused := by
  induction refused with
  | zero =>
      intro port
      simp [bindRetry]
  | succ refused ih =>
      intro port
      have shift : port + 1 + BitVec.ofNat 16 refused = port + BitVec.ofNat 16 (refused + 1) := by
        rw [BitVec.add_assoc, BitVec.ofNat_add, BitVec.add_comm 1]
        rfl
      rw [bindRetry, ih, shift]

theorem bindRetry_iff_lands (sockets : SocketCalls) (first : Port) {wanted : Port}
    (real : wanted ≠ 0) :
    bindRetry sockets.ephemeral sockets.refused first = wanted ↔ sockets.Lands first wanted := by
  rw [bindRetry_eq, SocketCalls.Lands]
  by_cases zero : first + BitVec.ofNat 16 sockets.refused = 0
  · rw [if_pos zero]
    constructor
    · intro same
      exact Or.inr ⟨zero, same⟩
    · rintro (same | ⟨-, same⟩)
      · exact absurd (same.symm.trans zero) real
      · exact same
  · rw [if_neg zero]
    constructor
    · exact Or.inl
    · rintro (same | ⟨wrong, -⟩)
      · exact same
      · exact absurd wrong zero

namespace HttpdServer

def at' : Option Port → HttpdServer
  | none => .init
  | some port => ⟨true, false, some port⟩

@[simp] theorem at_port (port : Option Port) : (at' port).serverPort = port := by
  cases port <;> rfl

end HttpdServer

theorem httpdStart_open (bound port : Port) (sockets : SocketCalls) :
    httpdStart (.at' (some bound)) port sockets = (.at' (some bound), 0) :=
  if_pos (Or.inl rfl)

theorem httpdStart_closed (port : Port) (sockets : SocketCalls) :
    (httpdStart (.at' none) port sockets).1 =
        .at' (if sockets.works then some (bindRetry sockets.ephemeral sockets.refused port)
          else none) ∧
      ((httpdStart (.at' none) port sockets).2 < 0 ↔ sockets.works = false) := by
  unfold httpdStart netutilsInitSocket SocketCalls.works
  rw [if_neg (by decide)]
  cases sockets.opened && sockets.named with
  | false => exact ⟨rfl, by simp⟩
  | true =>
      cases sockets.listens with
      | false => exact ⟨rfl, by simp⟩
      | true => exact ⟨rfl, by simp⟩

theorem httpdStart_at (old : Option Port) (port : Port) (sockets : SocketCalls) :
    (httpdStart (.at' old) port sockets).1 =
        .at' (old <|> if sockets.works then some (bindRetry sockets.ephemeral sockets.refused port)
          else none) ∧
      ((httpdStart (.at' old) port sockets).2 < 0 ↔ old = none ∧ sockets.works = false) := by
  cases old with
  | none => simpa using httpdStart_closed port sockets
  | some bound => simp [httpdStart_open]

theorem httpdStop_at (port : Option Port) : httpdStop (.at' port) = .at' none := by
  cases port <;> rfl

namespace Openings

def mirrorPort (h : Openings) : Option Port :=
  h.mirror.map fun sockets => bindRetry sockets.ephemeral sockets.refused 53291

def eventPort (h : Openings) : Option Port :=
  h.event.map fun opening =>
    bindRetry opening.2.ephemeral opening.2.refused (eventPortOf opening.1)

theorem mirrorPort_iff (h : Openings) : h.mirrorPort = some 53291 ↔ h.MirrorInPlace := by
  cases mirror : h.mirror with
  | none => simp [mirrorPort, MirrorInPlace, mirror]
  | some sockets =>
      simpa [mirrorPort, MirrorInPlace, mirror] using
        bindRetry_iff_lands sockets 53291 (show (53291 : Port) ≠ 0 by decide)

theorem eventPort_iff (h : Openings) : h.eventPort = some 55556 ↔ h.EventInPlace := by
  cases event : h.event with
  | none => simp [eventPort, EventInPlace, event]
  | some opening =>
      simpa [eventPort, EventInPlace, event] using
        bindRetry_iff_lands opening.2 (eventPortOf opening.1) (show (55556 : Port) ≠ 0 by decide)

end Openings

/-- The servers listen where the history has them, and every connection has the event port
of `conn_init`. -/
structure Opened (h : Openings) (s : MediaServer δ) : Prop where
  mirror : s.servers.mirror = .at' h.mirrorPort
  event : s.servers.event = .at' h.eventPort
  ports : ∀ who conn, s.conns who = some conn → conn.eventPort = 55556

section Kept

variable {h : Openings} {s : MediaServer δ}

theorem airplayStart_servers (call : StartCall) {servers : AirplayServers} (portSeted : Bool)
    (mirror : servers.mirror = .at' h.mirrorPort) (event : servers.event = .at' h.eventPort) :
    (airplayStart servers portSeted call).1.mirror = .at' (h.start portSeted call).mirrorPort ∧
      (airplayStart servers portSeted call).1.event = .at' (h.start portSeted call).eventPort := by
  unfold airplayStart Openings.start
  by_cases invalid : call.valid = false
  · rw [if_pos invalid, if_pos (Or.inl invalid)]
    exact ⟨mirror, event⟩
  rw [if_neg invalid]
  obtain ⟨mirrorAt, mirrorFails⟩ := httpdStart_at h.mirrorPort 53291 call.mirror
  have closed : h.mirrorPort = none ↔ h.mirror = none := by simp [Openings.mirrorPort]
  rw [closed] at mirrorFails
  dsimp only
  rw [mirror]
  by_cases fails : h.mirror = none ∧ call.mirror.works = false
  · rw [if_pos (mirrorFails.mpr fails), if_pos (Or.inr fails), mirrorAt]
    refine ⟨?_, event⟩
    rw [closed.mpr fails.1, fails.2]
    rfl
  have starts : ¬ (call.valid = false ∨ (h.mirror = none ∧ call.mirror.works = false)) :=
    fun either => either.elim invalid fails
  rw [if_neg (fun negative => fails (mirrorFails.mp negative)), if_neg starts, event]
  have mirrorIs : (httpdStart (.at' h.mirrorPort) 53291 call.mirror).1 =
      .at' (Option.map (fun sockets => bindRetry sockets.ephemeral sockets.refused 53291)
        (h.mirror <|> some call.mirror)) := by
    rw [mirrorAt]
    cases old : h.mirror with
    | some sockets => simp [Openings.mirrorPort, old]
    | none =>
        have works : call.mirror.works = true := by
          rw [old] at fails
          simpa using fails
        simp [Openings.mirrorPort, old, works]
  obtain ⟨eventAt, -⟩ := httpdStart_at h.eventPort (eventPortOf portSeted) call.event
  have eventIs : (httpdStart (.at' h.eventPort) (eventPortOf portSeted) call.event).1 =
      .at' (Option.map (fun opening : Bool × SocketCalls =>
          bindRetry opening.2.ephemeral opening.2.refused (eventPortOf opening.1))
        (h.event <|> if call.event.works then some (portSeted, call.event) else none)) := by
    rw [eventAt]
    cases old : h.event with
    | some opening => simp [Openings.eventPort, old]
    | none =>
        cases call.event.works with
        | false => simp [Openings.eventPort, old]
        | true => simp [Openings.eventPort, old]
  split
  · exact ⟨mirrorIs, eventIs⟩
  · exact ⟨mirrorIs, eventIs⟩

theorem update_ports (ports : ∀ who conn, s.conns who = some conn → conn.eventPort = 55556)
    (who : ℕ) {new : Option (RaopConn (RaopRtp δ))}
    (good : ∀ conn ∈ new, conn.eventPort = 55556) (other : ℕ) (conn : RaopConn (RaopRtp δ))
    (found : Function.update s.conns who new other = some conn) : conn.eventPort = 55556 := by
  rcases eq_or_ne other who with rfl | differs
  · rw [Function.update_self] at found
    exact good conn found
  · rw [Function.update_of_ne differs] at found
    exact ports other conn found

theorem setup_opened (opened : Opened h s) (who : ℕ) (env : SetupEnv δ) (request : HttpRequest) :
    ∀ after ∈ (s.setup who env request).1, Opened h after := by
  intro after member
  unfold MediaServer.setup at member
  cases found : s.conns who with
  | none =>
      rw [found] at member
      cases Option.some.inj member
      exact opened
  | some conn =>
      rw [found] at member
      cases set : setupRequest env s.raop conn request with
      | error fault =>
          dsimp only at member
          rw [set] at member
          cases member
      | ok out =>
          dsimp only at member
          rw [set] at member
          cases Option.some.inj member
          have port := opened.ports who conn found
          obtain ⟨kept, -⟩ := setupRequest_ok (by rw [port]; decide) set
          refine ⟨opened.mirror, opened.event, update_ports opened.ports who ?_⟩
          intro other same
          cases Option.some.inj same
          exact kept.trans port

theorem handle_opened (opened : Opened h s) (event : MediaEvent δ) :
    ∀ after ∈ (s.handle event).1, Opened (Openings.record (some s) event h) after := by
  intro after member
  cases event with
  | airplayInit =>
      cases Option.some.inj member
      exact ⟨rfl, rfl, opened.ports⟩
  | airplayStart call =>
      cases Option.some.inj member
      obtain ⟨mirror, event⟩ := airplayStart_servers call s.portSeted opened.mirror opened.event
      exact ⟨mirror, event, opened.ports⟩
  | airplayStop =>
      cases Option.some.inj member
      refine ⟨?_, ?_, opened.ports⟩
      · exact (congrArg httpdStop opened.mirror).trans (httpdStop_at _)
      · exact (congrArg httpdStop opened.event).trans (httpdStop_at _)
  | connInit who localAddress remote nonce =>
      cases Option.some.inj member
      refine ⟨opened.mirror, opened.event, update_ports opened.ports who ?_⟩
      intro conn same
      cases Option.some.inj same
      rfl
  | connDestroy who =>
      cases Option.some.inj member
      exact ⟨opened.mirror, opened.event, update_ports opened.ports who (by simp)⟩
  | setup who env request => exact setup_opened opened who env request after member

/-- A reply is right exactly if what it offers was opened in its place. -/
theorem listening_iff {env : SetupEnv δ} {request : HttpRequest} {conn : RaopConn (RaopRtp δ)}
    {reply : SetupReply} (port : conn.eventPort = 55556)
    (offers : Offers env request conn reply) :
    (⟨reply, h.mirrorPort, h.eventPort⟩ : Advertisement).Listening ↔
      (AsksMirrorPort env request → h.MirrorInPlace) ∧
        (AsksEventPort env request → h.EventInPlace) := by
  obtain ⟨mirror, event⟩ := offers
  have atMirror : h.mirrorPort.map BitVec.toNat = some 53291 ↔ h.MirrorInPlace := by
    rw [← Openings.mirrorPort_iff]
    exact toNat_eq_iff h.mirrorPort 53291
  have atEvent : h.eventPort.map BitVec.toNat = some 55556 ↔ h.EventInPlace := by
    rw [← Openings.eventPort_iff]
    exact toNat_eq_iff h.eventPort 55556
  rw [port] at event
  refine and_congr ?_ ?_
  · rw [mirror]
    by_cases asks : AsksMirrorPort env request
    · simpa [asks] using atMirror
    · simp [asks]
  · rw [event]
    by_cases asks : AsksEventPort env request
    · simpa [asks] using atEvent
    · simp [asks]
where
  toNat_eq_iff (port : Option Port) (wanted : Port) :
      port.map BitVec.toNat = some wanted.toNat ↔ port = some wanted := by
    cases port with
    | none => simp
    | some port => simp [BitVec.toNat_inj]

theorem handle_listening (opened : Opened h s) (event : MediaEvent δ) :
    (∀ ad ∈ (s.handle event).2, ad.Listening) ↔ InPlace (some s, h) event := by
  cases event with
  | setup who env request =>
      unfold MediaServer.handle MediaServer.setup InPlace Answers
      cases found : s.conns who with
      | none => simp [found]
      | some conn =>
          cases set : setupRequest env s.raop conn request with
          | error fault => simp [found, set]
          | ok out =>
              have port := opened.ports who conn found
              obtain ⟨out, reply⟩ := out
              obtain ⟨-, offers⟩ := setupRequest_ok (by rw [port]; decide) set
              have listens := listening_iff (h := h) port offers
              simpa [found, set, opened.mirror, opened.event] using listens
  | airplayInit | airplayStart _ | airplayStop | connInit _ _ _ _ | connDestroy _ =>
      exact iff_of_true (by simp [MediaServer.handle]) trivial

end Kept

/-- In a run every reply to SETUP has the ports that are listened on, exactly if for each
that is asked for one the server was opened in its place. -/
theorem setup_ports_listening_iff (raop : RaopServer) (events : List (MediaEvent δ)) :
    (∀ answer ∈ (mediaMachine.run (some (mediaServerInit raop)) events).2,
        ∀ ad ∈ answer, ad.Listening) ↔
      (mediaMachine.observe Openings.record).Admissible InPlace
        (some (mediaServerInit raop), .none) events := by
  have answers := (mediaMachine.observe_run Openings.record events
    (some ((mediaServerInit raop : MediaServer δ))) .none).2
  rw [← answers, List.forall_mem_map]
  refine Transducer.run_answers_iff (mediaMachine.observe Openings.record) InPlace
    (fun state => ∀ s ∈ state.1, Opened state.2 s) (fun answer => ∀ ad ∈ answer.2, ad.Listening)
    ?_ ?_ events _ ?_
  · rintro ⟨state, h⟩ event opened after member
    cases state with
    | none => cases member
    | some s => exact handle_opened (opened s rfl) event after member
  · rintro ⟨state, h⟩ event opened
    cases state with
    | none =>
        refine iff_of_true (by simp [Transducer.observe, mediaMachine]) ?_
        cases event with
        | setup who env request =>
            rintro ⟨s, conn, out, same, -⟩
            cases same
        | airplayInit | airplayStart _ | airplayStop | connInit _ _ _ _ | connDestroy _ =>
            trivial
    | some s => exact handle_listening (opened s rfl) event
  · intro s member
    cases Option.some.inj member
    exact ⟨rfl, rfl, by simp [mediaServerInit]⟩

/-! ## A restart -/

/-- A client that asks for the screen and brings a key. -/
def screenEnv : SetupEnv Unit where
  abi := .arm64V8a
  codec := plainCodec
  malloc := fun _ => some fun _ => 0
  parseAddress := fun _ address => some address
  crypto :=
    { gEdPublicKey := List.replicate 32 1
      gEdPrivateKey := List.replicate 64 2
      curve25519Donna := fun secret _ => secret
      ed25519Sign := fun message _ _ => message
      ed25519Verify := fun signature message _ => signature = message
      sha512msg := fun salt key => salt ++ key
      ctr128Encrypt := fun ctr data => (ctr, data)
      fairplaySetup := fun _ => none
      fairplayDecrypt := fun _ _ => none }
  sha512msg2 := fun first second _ => (first, second)
  airplayVersion := fun _ => 0
  plistFromBin := fun _ =>
    some (some (.dict
      [(.lit "ekey", .data (List.replicate 72 7)),
        (.lit "streams", .array [.dict [(.lit "type", .uint 110)]])]))
  xmlToBin := id
  initSockets := some ⟨6001, 6002, 6003⟩
  airdataStart := fun _ => none

def screenRequest : HttpRequest :=
  (httpRequestAddData httpRequestInit (bytesOf ("SETUP rtsp://10.0.0.2/1 RTSP/1.0\r\nCSeq: 1\r\n" ++
    "Content-Type: application/x-apple-binary-plist\r\nContent-Length: 1\r\n\r\n#"))).getD
      httpRequestInit

def freeSockets : SocketCalls := ⟨true, 0, 40000, true, true⟩

def freeStart : StartCall := ⟨7000, 6, none, freeSockets, freeSockets, freeSockets⟩

def restartRun : List (MediaEvent Unit) :=
  [.airplayStart freeStart, .airplayStop, .airplayStart freeStart,
    .connInit 1 [10, 0, 0, 2] [10, 0, 0, 3] (.lit "nonce"), .setup 1 screenEnv screenRequest]

/-- With every port free, the reply after a restart has port 55556, and the event httpd
listens on 55557. -/
theorem restart_moves_event_port :
    ¬ ∀ answer ∈ (mediaMachine.run (some (mediaServerInit (raopInit (.lit "") [1, 2, 3, 4, 5, 6]
        1080 1920 60))) restartRun).2, ∀ ad ∈ answer, ad.Listening := by
  decide +kernel

end AirCast.Raop
