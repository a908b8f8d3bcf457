import AirCast.Raop.Plist
import AirCast.Raop.RaopRequest
import AirCast.Raop.RaopSession

/-! # SETUP

`request_handle_setup`: a property list with keys and streams, or a `Transport` header. -/

set_option autoImplicit false

namespace AirCast.Raop

open AirCast.Http

variable {δ : Type}

/-- What SETUP finds around it: cryptography, libplist, the version in the name of the client
(the `double` that `sscanf` reads), and what the sockets come to. -/
structure SetupEnv (δ : Type) extends RtpEnv δ where
  crypto : RaopCrypto
  sha512msg2 : Bytes → Bytes → Bytes → Bytes × Bytes
  airplayVersion : CString → ℚ
  /-- `none` where `plist_from_bin` returns before it writes -/
  plistFromBin : Bytes → Option (Option Plist)
  /-- `plist_from_xml` and `plist_to_bin` -/
  xmlToBin : Bytes → Bytes
  initSockets : Option LocalPorts
  /-- the port of `airdata_start`, and 0 if it has no socket -/
  airdataStart : Bytes → Option ℕ

/-! ## The reply -/

/-- The ports that go into the reply. -/
inductive SetupReply where
  /-- no stream -/
  | keys
  | mirror (dataPort : ℕ) (control : Option (ℕ × ℕ))
  | audio (dataPort controlPort : ℕ) (eventPort : Option ℕ) (timingPort : ℕ)
  /-- a stream of another type -/
  | unknown
  deriving DecidableEq

namespace SetupReply

def plistHead : String :=
  "<?xml version=\"1.0\" encoding=\"UTF-8\"?>\r\n" ++
    "<!DOCTYPE plist PUBLIC \"-//Apple//DTD PLIST 1.0//EN\" " ++
    "\"http://www.apple.com/DTDs/PropertyList-1.0.dtd\">\r\n" ++
    "<plist version=\"1.0\">\r\n<dict>\r\n"

def plistTail : String := "</dict>\r\n</plist>\r\n"

def entry (indent key : String) (value : ℕ) : String :=
  indent ++ "<key>" ++ key ++ "</key>\r\n" ++ indent ++ "<integer>" ++ toString value ++
    "</integer>\r\n"

def stream (entries : List (String × ℕ)) : String :=
  "  <key>streams</key>\r\n  <array>\r\n    <dict>\r\n" ++
    String.join (entries.map fun e => entry "      " e.1 e.2) ++ "    </dict>\r\n  </array>\r\n"

/-- The text in `buffer`. -/
def xml : SetupReply → Bytes
  | .keys | .unknown => []
  | .mirror dataPort (some (eventPort, timingPort)) =>
      bytesOf (plistHead ++ entry "  " "eventPort" eventPort ++
        stream [("dataPort", dataPort), ("type", 110)] ++
        entry "  " "timingPort" timingPort ++ plistTail)
  | .mirror dataPort none =>
      bytesOf (plistHead ++ stream [("type", 110), ("dataPort", dataPort)] ++ plistTail)
  | .audio dataPort controlPort (some eventPort) timingPort =>
      bytesOf (plistHead ++
        stream [("dataPort", dataPort), ("controlPort", controlPort), ("type", 96)] ++
        entry "  " "eventPort" eventPort ++ entry "  " "timingPort" timingPort ++ plistTail)
  | .audio dataPort controlPort none timingPort =>
      bytesOf (plistHead ++
        stream [("dataPort", dataPort), ("controlPort", controlPort), ("type", 96)] ++
        entry "  " "timingPort" timingPort ++ plistTail)

def mirrorDataPort : SetupReply → Option ℕ
  | .mirror dataPort _ => some dataPort
  | _ => none

def eventPort : SetupReply → Option ℕ
  | .mirror _ control => control.map Prod.fst
  | .audio _ _ eventPort _ => eventPort
  | _ => none

end SetupReply

/-- The state of SETUP between two streams. -/
structure SetupOutcome (δ : Type) where
  server : RaopServer
  conn : RaopConn (RaopRtp δ)
  /-- the type of the last stream, 0 before the first -/
  nType : ℕ
  disconnect : Bool

section Setup

variable (env : SetupEnv δ)

/-! ## The streams -/

def remoteText (conn : RaopConn (RaopRtp δ)) : Bytes :=
  if conn.localAddress.length = 4 then
    let part (i : ℕ) : String := toString (conn.remote.getD i 0).toNat
    bytesOf ("IN IP4 " ++ part 0 ++ "." ++ part 1 ++ "." ++ part 2 ++ "." ++ part 3)
  else []

/-- The strings for `audioFormat`, empty for a format that is not supported. -/
def formatStrings (audioFormat : ℕ) : CString × CString :=
  if audioFormat = 0x40000 then
    (.lit "96 AppleLossless", .lit "96 352 0 16 40 10 14 2 255 0 0 44100")
  else if audioFormat = 0x400000 then
    (.lit "96 mpeg4-generic/44100/2", .lit "96 mode=AAC-main; constantDuration=1024")
  else if audioFormat = 0x1000000 then
    (.lit "96 mpeg4-generic/44100/2", .lit "96 mode=AAC-eld; constantDuration=480")
  else (.lit "", .lit "")

/-- The keys of a stream: those of the screen go into the global context, those of the sound
into the connection. -/
def setStreamKeys (version : ℚ) (out : SetupOutcome δ) (streamConnectionID : Option Plist) :
    Except Fault (SetupOutcome δ) :=
  if out.nType = 110 ∧ streamConnectionID.isSome then do
    let id ← Plist.getUintVal streamConnectionID
    let digest0 :=
      if 230 ≤ version then env.crypto.sha512msg out.conn.rsaKey out.conn.cvSha
      else out.conn.rsaKey
    let keys := env.sha512msg2 (bytesOf ("AirPlayStreamKey" ++ toString id))
      (bytesOf ("AirPlayStreamIV" ++ toString id)) digest0
    let context := (keys.1.take 16, keys.2.take 16)
    return { out with server := { out.server with gAesKeyCtx := some context } }
  else if out.nType = 96 then
    let key :=
      if 280 ≤ version then (env.crypto.sha512msg out.conn.rsaKey out.conn.cvSha).take 16
      else out.conn.rsaKey
    let conn : RaopConn (RaopRtp δ) :=
      { out.conn with rsaCbcKey := key, rsaCbcIv := out.conn.rsaIv }
    .ok { out with conn := conn }
  else .ok out

/-- A connection without an event port is given one. -/
def openEventPort (out : SetupOutcome δ) : SetupOutcome δ :=
  if out.conn.eventPort ≠ 0 then out
  else
    match env.airdataStart (remoteText out.conn) with
    | none => { out with disconnect := true }
    | some port =>
        let conn : RaopConn (RaopRtp δ) := { out.conn with eventPort := port }
        { out with conn := conn }

/-- The session of a sound stream takes the place of the one that was there. -/
def openSession (out : SetupOutcome δ) (controlPort audioFormat : ℕ) :
    Except Fault (SetupOutcome δ) := do
  let formats := formatStrings audioFormat
  let opened ← raopRtpOpen env.toRtpEnv (some (.ofBytes (remoteText out.conn))) (some formats.1)
    (some formats.2) out.conn.rsaCbcKey out.conn.rsaCbcIv
  match opened with
  | none => return { out with conn := { out.conn with raopRtp := none }, disconnect := true }
  | some rtp =>
      let started := raopRtpStart rtp true (controlPort % 2 ^ 16) 0 env.initSockets
      let conn : RaopConn (RaopRtp δ) := { out.conn with raopRtp := some started.1 }
      match started.2 with
      | none => return { out with conn := conn }
      | some ports =>
          let conn : RaopConn (RaopRtp δ) :=
            { conn with
              controlPort := ports.control.toNat
              timingPort := ports.timing.toNat
              dataPort := ports.data.toNat }
          return { out with conn := conn }

/-- `b_usingScreen`. -/
def readUsingScreen : Option Plist → Except Fault Bool
  | none => .ok false
  | some node => Plist.getBoolVal (some node)

def setupAudio (out : SetupOutcome δ) (item : Plist) : Except Fault (SetupOutcome δ) := do
  let controlPort ← Plist.getUintVal (Plist.dictGetItem (.lit "controlPort") (some item))
  let audioFormat ← Plist.getUintVal (Plist.dictGetItem (.lit "audioFormat") (some item))
  let _ ← Plist.getUintVal (Plist.dictGetItem (.lit "spf") (some item))
  let _ ← readUsingScreen (Plist.dictGetItem (.lit "usingScreen") (some item))
  let out ← openSession env out controlPort audioFormat
  return openEventPort env out

/-- `n_type` keeps its value over a stream without a type. -/
def streamType (nType : ℕ) (item : Plist) : Except Fault ℕ :=
  match Plist.dictGetItem (.lit "type") (some item) with
  | none => .ok nType
  | some type => Plist.getUintVal (some type)

/-- One round of the loop over the streams. -/
def setupStream (version : ℚ) (out : SetupOutcome δ) (item : Plist) :
    Except Fault (SetupOutcome δ) := do
  let nType ← streamType out.nType item
  let out ← setStreamKeys env version { out with nType := nType }
    (Plist.dictGetItem (.lit "streamConnectionID") (some item))
  if nType = 96 then setupAudio env out item
  else if nType = 110 then return openEventPort env out
  else return out

/-! ## The property list -/

/-- `double_value`. -/
def clientVersion (request : HttpRequest) : ℚ :=
  match httpRequestGetHeader request (.lit "User-Agent") 1 with
  | none => 0
  | some userAgent =>
      if (strstr (bytesOf "AirPlay/") userAgent.chars).isSome then env.airplayVersion userAgent
      else 0

/-- The reply; the port for the screen is a literal. -/
def setupReply (version : ℚ) (hasKey : Bool) (out : SetupOutcome δ) : SetupReply :=
  if out.nType = 110 then
    .mirror 53291 (if hasKey then some (out.conn.eventPort, 0) else none)
  else if out.nType = 96 then
    .audio out.conn.dataPort out.conn.controlPort
      (if version < 230 then some out.conn.eventPort else none) out.conn.timingPort
  else if out.nType = 0 then .keys
  else .unknown

/-- The branch for a property list that has entries. -/
def setupDict (server : RaopServer) (conn : RaopConn (RaopRtp δ)) (version : ℚ)
    (dict : Plist) : Except Fault (SetupOutcome δ × SetupReply) := do
  let conn ← setupIv conn (Plist.getDataVal (Plist.dictGetItem (.lit "eiv") (some dict)))
  let ekey := Plist.getDataVal (Plist.dictGetItem (.lit "ekey") (some dict))
  let conn := setupKey env.crypto server conn (ekey.getD [])
  let streams := Plist.arrayItems (Plist.dictGetItem (.lit "streams") (some dict))
  let out ← streams.foldlM (setupStream env version) ⟨server, conn, 0, false⟩
  return (out, setupReply version ekey.isSome out)

/-- The node that `plist_from_bin` makes of the body, which is read even where there is none. -/
def readPlist (plistFromBin : Bytes → Option (Option Plist)) (data : Option Bytes) :
    Except Fault (Option Plist) :=
  match data.bind plistFromBin with
  | none => .error .uninitialised
  | some dict => .ok dict

def binaryPlist : CString := .lit "application/x-apple-binary-plist"

def SetupReply.headers (reply : SetupReply) : List (CString × CString) :=
  (.lit "Content-Type", binaryPlist) ::
    if reply = .keys then [(.lit "Content-Length", .lit "0")] else []

def SetupReply.responseData (reply : SetupReply) : Bytes :=
  match reply.xml with
  | [] => []
  | text => env.xmlToBin text

def setupPlist (server : RaopServer) (conn : RaopConn (RaopRtp δ)) (request : HttpRequest) :
    Except Fault (Handling (RaopRtp δ) × SetupReply) := do
  let dict ← readPlist env.plistFromBin (httpRequestGetData request).1
  match dict with
  | some (.dict (first :: rest)) => do
      let done ← setupDict env server conn (clientVersion env request) (.dict (first :: rest))
      return ({ Handling.plain done.1.server done.1.conn done.2.headers
          (done.2.responseData env) with disconnect := done.1.disconnect }, done.2)
  | _ => return (.plain server conn [] [], .keys)

/-! ## The transport header -/

/-- `sscanf (text, "key=%hu", …)`. -/
def scanPort (key : String) (text : Bytes) : Option ℕ :=
  match after key text with
  | none => none
  | some number =>
      let digits (text : Bytes) : Option ℤ :=
        match text with
        | c :: _ => if isDigit c then some (digitsValue 0 text) else none
        | [] => none
      let value : Option ℤ :=
        match number.dropWhile isSpace with
        | 45 :: text => (digits text).map Neg.neg
        | 43 :: text => digits text
        | text => digits text
      value.map fun value => (value % 2 ^ 16).toNat

def lastPort (key : String) (tokens : List Bytes) : ℕ :=
  ((tokens.filterMap (scanPort key)).getLast?).getD 0

def setupTransport (conn : RaopConn (RaopRtp δ)) (server : RaopServer) (transport : CString) :
    Handling (RaopRtp δ) :=
  let useUdp : Bool := (after "RTP/AVP/TCP" transport.chars).isNone
  let tokens :=
    if useUdp then strsepAll (bytesOf ";") (transport.chars.length + 1) (some transport.chars)
    else []
  let started := conn.raopRtp.map fun rtp =>
    raopRtpStart rtp useUdp (lastPort "control_port=" tokens) (lastPort "timing_port=" tokens)
      env.initSockets
  let ports := (started.bind Prod.snd).getD ⟨0, 0, 0⟩
  let text : CString :=
    if useUdp then
      .lit ("RTP/AVP/UDP;unicast;mode=record;timing_port=" ++ toString ports.timing.toNat ++
        ";events;control_port=" ++ toString ports.control.toNat ++ ";server_port=" ++
        toString ports.data.toNat)
    else .lit ("RTP/AVP/TCP;unicast;interleaved=0-1;mode=record;server_port=" ++
      toString ports.data.toNat)
  { Handling.plain server { conn with raopRtp := started.map Prod.fst }
      [(.lit "Transport", text), (.lit "Session", .lit "1"),
        (.lit "Audio-Jack-Status", .lit "Connected")] [] with
    disconnect := started.isNone }

/-- `request_handle_setup`, and the ports in its reply. -/
def setupRequest (server : RaopServer) (conn : RaopConn (RaopRtp δ)) (request : HttpRequest) :
    Except Fault (Handling (RaopRtp δ) × SetupReply) :=
  if httpRequestGetHeader request (.lit "Content-Type") 1 = some binaryPlist then
    setupPlist env server conn request
  else
    match httpRequestGetHeader request (.lit "Transport") 1 with
    | none => .error .assertion
    | some transport => .ok (setupTransport env conn server transport, .keys)

def requestHandleSetup (server : RaopServer) (conn : RaopConn (RaopRtp δ))
    (request : HttpRequest) : Except Fault (Handling (RaopRtp δ)) := do
  let done ← setupRequest env server conn request
  return done.1

/-! ## Which ports a client asks for -/

def requestedDict (request : HttpRequest) : Option Plist :=
  if httpRequestGetHeader request (.lit "Content-Type") 1 = some binaryPlist then
    ((httpRequestGetData request).1.bind env.plistFromBin).join
  else none

def nextType (nType : ℕ) (item : Plist) : ℕ :=
  match Plist.dictGetItem (.lit "type") (some item) with
  | some (.uint type) => type
  | _ => nType

def requestedType (dict : Option Plist) : ℕ :=
  (Plist.arrayItems (Plist.dictGetItem (.lit "streams") dict)).foldl nextType 0

def AsksMirrorPort (request : HttpRequest) : Prop :=
  requestedType (requestedDict env request) = 110

/-- A screen with a key, or sound for an old client. -/
def AsksEventPort (request : HttpRequest) : Prop :=
  requestedType (requestedDict env request) = 110 ∧
      (Plist.getDataVal (Plist.dictGetItem (.lit "ekey") (requestedDict env request))).isSome ∨
    requestedType (requestedDict env request) = 96 ∧ clientVersion env request < 230

instance (request : HttpRequest) : Decidable (AsksMirrorPort env request) :=
  inferInstanceAs (Decidable (_ = _))

instance (request : HttpRequest) : Decidable (AsksEventPort env request) :=
  inferInstanceAs (Decidable (_ ∨ _))

end Setup

section Steps

variable {env : SetupEnv δ} {version : ℚ} {out after : SetupOutcome δ} {item : Plist}

theorem streamType_ok {nType type : ℕ} (typed : streamType nType item = .ok type) :
    type = nextType nType item := by
  unfold streamType at typed
  unfold nextType
  cases found : Plist.dictGetItem (.lit "type") (some item) with
  | none =>
      rw [found] at typed
      exact (Except.ok.inj typed).symm
  | some node =>
      rw [found] at typed
      cases node with
      | uint value => exact (Except.ok.inj typed).symm
      | boolean _ | data _ | array _ | dict _ | other => cases typed

theorem setStreamKeys_ok {id : Option Plist} (set : setStreamKeys env version out id = .ok after) :
    after.nType = out.nType ∧ after.conn.eventPort = out.conn.eventPort := by
  unfold setStreamKeys at set
  split at set
  · obtain ⟨value, -, set⟩ := bind_ok set
    cases Except.ok.inj set
    exact ⟨rfl, rfl⟩
  · split at set
    · cases Except.ok.inj set
      exact ⟨rfl, rfl⟩
    · cases Except.ok.inj set
      exact ⟨rfl, rfl⟩

theorem openEventPort_eq (opened : out.conn.eventPort ≠ 0) : openEventPort env out = out :=
  if_pos opened

theorem openSession_ok {controlPort audioFormat : ℕ}
    (opened : openSession env out controlPort audioFormat = .ok after) :
    after.nType = out.nType ∧ after.conn.eventPort = out.conn.eventPort := by
  unfold openSession at opened
  obtain ⟨rtp, -, opened⟩ := bind_ok opened
  cases rtp with
  | none =>
      cases Except.ok.inj opened
      exact ⟨rfl, rfl⟩
  | some rtp =>
      dsimp only at opened
      split at opened
      · cases Except.ok.inj opened
        exact ⟨rfl, rfl⟩
      · cases Except.ok.inj opened
        exact ⟨rfl, rfl⟩

theorem setupAudio_ok (port : out.conn.eventPort ≠ 0)
    (set : setupAudio env out item = .ok after) :
    after.nType = out.nType ∧ after.conn.eventPort = out.conn.eventPort := by
  unfold setupAudio at set
  obtain ⟨controlPort, -, set⟩ := bind_ok set
  obtain ⟨audioFormat, -, set⟩ := bind_ok set
  obtain ⟨spf, -, set⟩ := bind_ok set
  obtain ⟨screen, -, set⟩ := bind_ok set
  obtain ⟨opened, session, set⟩ := bind_ok set
  obtain ⟨sameType, samePort⟩ := openSession_ok session
  rw [openEventPort_eq (samePort ▸ port)] at set
  cases Except.ok.inj set
  exact ⟨sameType, samePort⟩

theorem setupStream_ok (port : out.conn.eventPort ≠ 0)
    (set : setupStream env version out item = .ok after) :
    after.nType = nextType out.nType item ∧ after.conn.eventPort = out.conn.eventPort := by
  unfold setupStream at set
  obtain ⟨nType, typed, set⟩ := bind_ok set
  cases streamType_ok typed
  obtain ⟨keyed, keys, set⟩ := bind_ok set
  obtain ⟨keyedType, keyedPort⟩ := setStreamKeys_ok keys
  split at set
  · obtain ⟨sameType, samePort⟩ := setupAudio_ok (keyedPort ▸ port) set
    exact ⟨sameType.trans keyedType, samePort.trans keyedPort⟩
  · split at set
    · rw [openEventPort_eq (keyedPort ▸ port)] at set
      cases Except.ok.inj set
      exact ⟨keyedType, keyedPort⟩
    · cases Except.ok.inj set
      exact ⟨keyedType, keyedPort⟩

theorem setupStreams_ok (streams : List Plist) :
    ∀ {out after : SetupOutcome δ}, out.conn.eventPort ≠ 0 →
      streams.foldlM (setupStream env version) out = .ok after →
      after.nType = streams.foldl nextType out.nType ∧
        after.conn.eventPort = out.conn.eventPort := by
  induction streams with
  | nil =>
      intro out after _ set
      cases Except.ok.inj set
      exact ⟨rfl, rfl⟩
  | cons item rest ih =>
      intro out after port set
      rw [List.foldlM_cons] at set
      obtain ⟨next, first, set⟩ := bind_ok set
      obtain ⟨nextIs, nextPort⟩ := setupStream_ok port first
      obtain ⟨typed, same⟩ := ih (nextPort ▸ port) set
      exact ⟨by rw [typed, nextIs, List.foldl_cons], same.trans nextPort⟩

end Steps

section Ports

variable {env : SetupEnv δ} {server : RaopServer} {conn : RaopConn (RaopRtp δ)}
  {request : HttpRequest}

theorem setupIv_eventPort {ready : RaopConn (RaopRtp δ)} {eiv : Option Bytes}
    (copied : setupIv conn eiv = .ok ready) : ready.eventPort = conn.eventPort := by
  cases eiv with
  | none =>
      cases Except.ok.inj copied
      rfl
  | some iv =>
      unfold setupIv at copied
      dsimp only at copied
      split at copied
      · cases Except.ok.inj copied
        rfl
      · cases copied

theorem setupKey_eventPort (crypto : RaopCrypto) (ekey : Bytes) :
    (setupKey crypto server conn ekey).eventPort = conn.eventPort := by
  unfold setupKey
  split
  · split <;> rfl
  · rfl

theorem setupDict_ok {version : ℚ} {dict : Plist} {out : SetupOutcome δ} {reply : SetupReply}
    (port : conn.eventPort ≠ 0) (set : setupDict env server conn version dict = .ok (out, reply)) :
    out.conn.eventPort = conn.eventPort ∧ out.nType = requestedType (some dict) ∧
      reply = setupReply version
        (Plist.getDataVal (Plist.dictGetItem (.lit "ekey") (some dict))).isSome out := by
  unfold setupDict at set
  obtain ⟨ready, copied, set⟩ := bind_ok set
  have samePort := setupIv_eventPort copied
  obtain ⟨done, streams, set⟩ := bind_ok set
  cases Except.ok.inj set
  have keyPort := @setupKey_eventPort _ server ready env.crypto
    ((Plist.getDataVal (Plist.dictGetItem (.lit "ekey") (some dict))).getD [])
  obtain ⟨typed, kept⟩ := setupStreams_ok _ (by rw [keyPort, samePort]; exact port) streams
  exact ⟨by rw [kept, keyPort, samePort], typed, rfl⟩

theorem dictGetItem_small {dict : Option Plist} (small : Plist.dictGetSize dict = 0)
    (key : CString) : Plist.dictGetItem key dict = none := by
  cases dict with
  | none => rfl
  | some node =>
      cases node with
      | dict entries =>
          cases List.eq_nil_of_length_eq_zero small
          rfl
      | boolean _ | uint _ | data _ | array _ | other => rfl

theorem dictGetSize_other {dict : Option Plist}
    (other : ∀ first rest, dict ≠ some (.dict (first :: rest))) : Plist.dictGetSize dict = 0 := by
  cases dict with
  | none => rfl
  | some node =>
      cases node with
      | dict entries =>
          cases entries with
          | nil => rfl
          | cons first rest => exact absurd rfl (other first rest)
      | boolean _ | uint _ | data _ | array _ | other => rfl

theorem requestedType_small {dict : Option Plist} (small : Plist.dictGetSize dict = 0) :
    requestedType dict = 0 := by
  rw [requestedType, dictGetItem_small small]
  rfl

def Offers (env : SetupEnv δ) (request : HttpRequest) (conn : RaopConn (RaopRtp δ))
    (reply : SetupReply) : Prop :=
  reply.mirrorDataPort = (if AsksMirrorPort env request then some 53291 else none) ∧
    reply.eventPort = if AsksEventPort env request then some conn.eventPort else none

theorem offers_keys {dict : Option Plist} (requested : requestedDict env request = dict)
    (small : Plist.dictGetSize dict = 0) : Offers env request conn .keys := by
  have zero := requestedType_small small
  have noMirror : ¬ AsksMirrorPort env request := by
    rw [AsksMirrorPort, requested, zero]
    decide
  have noEvent : ¬ AsksEventPort env request := by
    rw [AsksEventPort, requested, zero]
    rintro (⟨wrong, -⟩ | ⟨wrong, -⟩)
    · exact absurd wrong (by decide)
    · exact absurd wrong (by decide)
  exact ⟨(if_neg noMirror).symm, (if_neg noEvent).symm⟩

theorem offers_setupReply {dict : Option Plist} {out : SetupOutcome δ}
    (requested : requestedDict env request = dict) (typed : out.nType = requestedType dict)
    (port : out.conn.eventPort = conn.eventPort) :
    Offers env request conn (setupReply (clientVersion env request)
      (Plist.getDataVal (Plist.dictGetItem (.lit "ekey") dict)).isSome out) := by
  have mirror : AsksMirrorPort env request ↔ out.nType = 110 := by
    rw [AsksMirrorPort, requested, typed]
  have event : AsksEventPort env request ↔
      out.nType = 110 ∧ (Plist.getDataVal (Plist.dictGetItem (.lit "ekey") dict)).isSome ∨
        out.nType = 96 ∧ clientVersion env request < 230 := by
    rw [AsksEventPort, requested, typed]
  simp only [Offers, setupReply, mirror, event, ← port]
  by_cases screen : out.nType = 110
  · cases (Plist.getDataVal (Plist.dictGetItem (.lit "ekey") dict)).isSome with
    | false => simp [screen, SetupReply.mirrorDataPort, SetupReply.eventPort]
    | true => simp [screen, SetupReply.mirrorDataPort, SetupReply.eventPort]
  · by_cases sound : out.nType = 96
    · by_cases old : clientVersion env request < 230
      · simp [sound, old, SetupReply.mirrorDataPort, SetupReply.eventPort]
      · simp [sound, old, SetupReply.mirrorDataPort, SetupReply.eventPort]
    · by_cases none : out.nType = 0
      · simp [none, SetupReply.mirrorDataPort, SetupReply.eventPort]
      · simp [screen, sound, none, SetupReply.mirrorDataPort, SetupReply.eventPort]

theorem setupPlist_ok {out : Handling (RaopRtp δ)} {reply : SetupReply}
    (plist : httpRequestGetHeader request (.lit "Content-Type") 1 = some binaryPlist)
    (port : conn.eventPort ≠ 0) (set : setupPlist env server conn request = .ok (out, reply)) :
    out.conn.eventPort = conn.eventPort ∧ Offers env request conn reply := by
  unfold setupPlist at set
  obtain ⟨dict, read, set⟩ := bind_ok set
  have requested : requestedDict env request = dict := by
    rw [requestedDict, if_pos plist]
    unfold readPlist at read
    cases found : (httpRequestGetData request).1.bind env.plistFromBin with
    | none =>
        rw [found] at read
        cases read
    | some node =>
        rw [found] at read
        exact Except.ok.inj read
  split at set
  · rename_i first rest
    obtain ⟨done, handled, set⟩ := bind_ok set
    obtain ⟨kept, typed, is⟩ := setupDict_ok port handled
    cases Except.ok.inj set
    exact ⟨kept, is ▸ offers_setupReply requested typed kept⟩
  · rename_i other
    cases Except.ok.inj set
    exact ⟨rfl, offers_keys requested (dictGetSize_other other)⟩

theorem setupRequest_ok {out : Handling (RaopRtp δ)} {reply : SetupReply}
    (port : conn.eventPort ≠ 0) (set : setupRequest env server conn request = .ok (out, reply)) :
    out.conn.eventPort = conn.eventPort ∧ Offers env request conn reply := by
  unfold setupRequest at set
  split at set
  · rename_i plist
    exact setupPlist_ok plist port set
  · rename_i notPlist
    split at set
    · cases set
    · cases Except.ok.inj set
      refine ⟨rfl, @offers_keys _ _ _ _ none ?_ rfl⟩
      rw [requestedDict, if_neg notPlist]

end Ports

end AirCast.Raop
