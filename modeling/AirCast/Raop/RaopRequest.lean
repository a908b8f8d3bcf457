import AirCast.Http.HttpResponseCapacity
import AirCast.Raop.Digest
import AirCast.Raop.RaopConn

/-! # The request handler of raop.c

`conn_request` looks for a password, answers an `Apple-Challenge`, hands the request to
the handler of its method and URL, and finishes the reply. -/

set_option autoImplicit false

namespace AirCast.Raop

open AirCast.Http

inductive RequestHandler where
  | pairsetup
  | pairverify
  | fpsetup
  | authsetup
  | info
  | streamxml
  | options
  | announce
  | setup
  | setparameter
  | flush
  | teardown
  | record
  | getparameter
  | feedback
  deriving DecidableEq

def postHandler (uri : Bytes) : Option RequestHandler :=
  if uri = bytesOf "/pair-setup" then some .pairsetup
  else if uri = bytesOf "/pair-verify" then some .pairverify
  else if uri = bytesOf "/fp-setup" then some .fpsetup
  else if uri = bytesOf "/auth-setup" then some .authsetup
  else if uri = bytesOf "/feedback" then some .feedback
  else none

def getHandler (uri : Bytes) : Option RequestHandler :=
  if uri = bytesOf "/info" then some .info
  else if uri = bytesOf "/stream.xml" then some .streamxml
  else none

def methodHandler (method : CString) : Option RequestHandler :=
  if method = .lit "OPTIONS" then some .options
  else if method = .lit "ANNOUNCE" then some .announce
  else if method = .lit "SETUP" then some .setup
  else if method = .lit "SET_PARAMETER" then some .setparameter
  else if method = .lit "FLUSH" then some .flush
  else if method = .lit "TEARDOWN" then some .teardown
  else if method = .lit "RECORD" then some .record
  else if method = .lit "GET_PARAMETER" then some .getparameter
  else none

/-- The chain of comparisons; only those of `POST` and `GET` look at the URL, which may
be NULL. -/
def selectHandler (method : CString) (uri : Option Bytes) : Except Fault (Option RequestHandler) :=
  if method = .lit "POST" then
    match uri with
    | none => .error .nullPointer
    | some uri => .ok (postHandler uri)
  else if method = .lit "GET" then
    match uri with
    | none => .error .nullPointer
    | some uri => .ok (getHandler uri)
  else .ok (methodHandler method)

section Handlers

variable {ρ : Type} (server : RaopServer) (conn : RaopConn ρ)

def requestHandleFeedback : Handling ρ :=
  { Handling.plain server conn [octetStream] [] with callbacks := [.mirroringLive] }

def audioJackStatus : CString × CString :=
  (.lit "Audio-Jack-Status", .lit "connected; type=analog")

def requestHandleGetparameter : Handling ρ :=
  .plain server conn [audioJackStatus] (bytesOf "Volume: 1.000000\r\n")

def requestHandleRecord : Handling ρ :=
  .plain server conn [audioJackStatus, (.lit "Audio-Latency", .lit "4410")] []

def requestHandleOptions : Handling ρ :=
  .plain server conn
    [(.lit "Public", .lit ("ANNOUNCE, SETUP, PLAY, DESCRIBE, REDIRECT, RECORD, PAUSE, FLUSH, " ++
      "TEARDOWN, OPTIONS, GET_PARAMETER, SET_PARAMETER, POST, GET"))] []

def requestHandleAuthsetup (data : Option Bytes) : Handling ρ :=
  .plain server conn [] (data.getD [])

def streamXml (height width : ℤ) : Bytes :=
  bytesOf ("<?xml version=\"1.0\" encoding=\"UTF-8\"?>\r\n" ++
    "<!DOCTYPE plist PUBLIC \"-//Apple//DTD PLIST 1.0//EN\" " ++
    "\"http://www.apple.com/DTDs/PropertyList-1.0.dtd\">\r\n" ++
    "<plist version=\"1.0\">\r\n" ++
    "<dict>\r\n" ++
    "  <key>height</key>\r\n" ++
    "  <integer>" ++ toString height ++ "</integer>\r\n" ++
    "  <key>overscanned</key>\r\n" ++
    "  <true/>\r\n" ++
    "  <key>refreshRate</key>\r\n" ++
    "  <real>0.016666666666667</real>\r\n" ++
    "  <key>version</key>\r\n" ++
    "  <string>150.33</string>\r\n" ++
    "  <key>width</key>\r\n" ++
    "  <integer>" ++ toString width ++ "</integer>\r\n" ++
    "</dict>\r\n" ++
    "</plist>\r\n")

def requestHandleStreamxml : Handling ρ :=
  .plain server conn [(.lit "Content-Type", .lit "text/x-apple-plist+xml")]
    (streamXml server.height server.width)

end Handlers

abbrev Handler (ρ : Type) :=
  RaopServer → RaopConn ρ → HttpRequest → ℤ → Except Fault (Handling ρ)

/-- What `conn_request` finds around it: cryptography, the clock, a seed, and the handlers
that read property lists or session descriptions or go on to raop_rtp.c. -/
structure RaopEnv (ρ : Type) where
  crypto : RaopCrypto
  md5 : Bytes → Bytes
  rsakeySign : CString → Bytes → Bytes → CString
  date : CString
  seed : Bytes
  info : Handler ρ
  announce : Handler ρ
  setup : Handler ρ
  setparameter : Handler ρ
  flush : Handler ρ
  teardown : Handler ρ

/-- The state behind a request, the handler that ran, and the reply, if there is one. -/
structure Exchange (ρ : Type) where
  server : RaopServer
  conn : RaopConn ρ
  handled : Option RequestHandler
  callbacks : List RaopCallback
  disconnect : Bool
  response : Option (Except Fault HttpResponse)

section Request

variable {ρ : Type} (env : RaopEnv ρ) (server : RaopServer) (conn : RaopConn ρ)
  (request : HttpRequest) (index : ℤ)

def runHandler : RequestHandler → Except Fault (Handling ρ)
  | .pairsetup =>
      .ok (requestHandlePairsetup env.crypto server conn (httpRequestGetData request).1)
  | .pairverify =>
      requestHandlePairverify env.crypto server conn env.seed (httpRequestGetData request).1
  | .fpsetup => requestHandleFpsetup env.crypto server conn (httpRequestGetData request).1
  | .authsetup => .ok (requestHandleAuthsetup server conn (httpRequestGetData request).1)
  | .info => env.info server conn request index
  | .streamxml => .ok (requestHandleStreamxml server conn)
  | .options => .ok (requestHandleOptions server conn)
  | .announce => env.announce server conn request index
  | .setup => env.setup server conn request index
  | .setparameter => env.setparameter server conn request index
  | .flush => env.flush server conn request index
  | .teardown => env.teardown server conn request index
  | .record => .ok (requestHandleRecord server conn)
  | .getparameter => .ok (requestHandleGetparameter server conn)
  | .feedback => .ok (requestHandleFeedback server conn)

def realm : CString := .lit "AppleTV"

def authString (nonce : CString) : CString :=
  .ofBytes (bytesOf "Digest realm=\"" ++ realm.chars ++ bytesOf "\", nonce=\"" ++ nonce.chars ++
    bytesOf "\"")

/-- `digest_is_valid` as `request_handle_authorization` calls it; it reads the first header
and the first URL, whatever the index of the request. -/
def authorizationValid (method : CString) : Except Fault Bool :=
  match httpRequestGetUrl request 1 with
  | none => .error .nullPointer
  | some uri =>
      digestIsValid env.md5 realm server.password conn.nonce method uri
        (httpRequestGetHeader request (.lit "Authorization") 1)

def requireAuth (method : CString) : Except Fault Bool :=
  if method ≠ .lit "OPTIONS" ∧ server.password.strlen ≠ 0 then do
    let valid ← authorizationValid env server conn request method
    return !valid
  else .ok false

/-- The reply before a handler sees it. -/
def openReply (requireAuth : Bool) : Reply :=
  if requireAuth then
    { protocol := .lit "RTSP/1.0"
      code := 401
      message := .lit "Unauthorized"
      headers := [(.lit "WWW-Authenticate", authString conn.nonce)]
      body := [] }
  else
    { protocol := .lit "RTSP/1.0"
      code := 200
      message := .lit "OK"
      headers :=
        ((httpRequestGetHeader request (.lit "Apple-Challenge") index).map fun challenge =>
          (.lit "Apple-Response", env.rsakeySign challenge conn.localAddress server.hwaddr)).toList
      body := [] }

def closingHeaders : List (CString × CString) :=
  (.lit "Server", .lit "AirTunes/373.8") ::
    ((httpRequestGetHeader request (.lit "CSeq") index).map fun cseq =>
      ((.lit "CSeq", cseq) : CString × CString)).toList ++ [(.lit "Date", env.date)]

def closeReply (reply : Reply) (handling : Handling ρ) : Reply :=
  { reply with
    headers := reply.headers ++ handling.headers ++ closingHeaders env request index
    body := handling.responseData }

def runSelected : Option RequestHandler → Except Fault (Handling ρ)
  | none => .ok (.plain server conn [] [])
  | some handler => runHandler env server conn request index handler

def connRequest : Except Fault (Exchange ρ) :=
  match httpRequestGetUrl request index with
  | none => .error .nullPointer
  | some uri =>
      match httpRequestGetMethod request with
      | none => .ok ⟨server, conn, none, [], false, none⟩
      | some method => do
          let requireAuth ← requireAuth env server conn request method
          let handler ← selectHandler method uri
          let handling ← runSelected env server conn request index handler
          let reply := closeReply env request index (openReply env server conn request index
            requireAuth) handling
          return ⟨handling.server, handling.conn, handler, handling.callbacks,
            handling.disconnect, some (buildReply reply)⟩

end Request

def received (text : String) : HttpRequest :=
  (httpRequestAddData httpRequestInit (bytesOf text)).getD httpRequestInit

end AirCast.Raop
