import AirCast.Raop.RaopSetup
import AirCast.Raop.Sdp

/-! # The remaining handlers of raop.c

ANNOUNCE, SET_PARAMETER, FLUSH, TEARDOWN and `/info`, and with them the environment of
`conn_request`. -/

set_option autoImplicit false

namespace AirCast.Raop

open AirCast.Http

variable {δ : Type}

/-- What the handlers find around them: base64 and RSA, the FairPlay server, and `sscanf`. -/
structure RtspEnv (δ : Type) extends SetupEnv δ where
  md5 : Bytes → Bytes
  rsakeySign : CString → Bytes → Bytes → CString
  date : CString
  seed : Bytes
  base64Encode : Bytes → String
  rsakeyBase64Decode : CString → Option Bytes
  /-- what `rsakey_decrypt` leaves in an array -/
  rsakeyDecrypt : Option CString → Bytes → Bytes
  /-- what `rsakey_parseiv` leaves in an array -/
  rsakeyParseiv : Option CString → Bytes → Bytes
  /-- the answer of the server, which may be out of reach -/
  fairplayQuery : Bytes → Option Bytes
  /-- an array on the stack before it is written -/
  stackArray : Bytes
  scanVolume : Bytes → ℚ
  scanProgress : Bytes → ℕ × ℕ × ℕ

section Handlers

variable (abi : Abi) (env : RtspEnv δ) (server : RaopServer) (conn : RaopConn (RaopRtp δ))
  (request : HttpRequest)

/-- `cn`, which keeps its value for other formats. -/
def announcedCn (fmtp : CString) (cn : ℤ) : ℤ :=
  if (strstr (bytesOf "AAC-eld") fmtp.chars).isSome then 3
  else if (strstr (bytesOf "AAC") fmtp.chars).isSome then 2
  else cn

def fairplayKey (sdp : Sdp) : Option CString :=
  if sdp.rsaaeskey.isNone then sdp.fpaeskey else none

/-- `aeskey`; its length is not known where the FairPlay server does not answer. -/
def announcedKey (sdp : Sdp) : Except Fault Bytes :=
  match fairplayKey sdp with
  | none => .ok (env.rsakeyDecrypt sdp.rsaaeskey env.stackArray)
  | some text =>
      match env.rsakeyBase64Decode text with
      | none => .ok env.stackArray
      | some buf =>
          if buf.length = 72 then
            match env.fairplayQuery buf with
            | none => .error .uninitialised
            | some key => .ok (if key.length = 16 then key else env.stackArray)
          else .ok env.stackArray

/-- `request_handle_announce` on a body. -/
def announceSdp (data : Bytes) : Except Fault (Handling (RaopRtp δ)) :=
  let sdp := sdpInit data
  match sdp.fmtp with
  | none => .error .nullPointer
  | some fmtp => do
      let aeskey ← announcedKey env sdp
      let opened ← raopRtpOpen env.toRtpEnv sdp.connection sdp.rtpmap (some fmtp) aeskey
        (env.rsakeyParseiv sdp.aesiv env.stackArray)
      let conn : RaopConn (RaopRtp δ) :=
        { conn with
          cn := announcedCn fmtp conn.cn
          et := if (fairplayKey sdp).isSome then 3 else conn.et
          raopRtp := opened }
      return { Handling.plain server conn [] [] with disconnect := opened.isNone }

def requestHandleAnnounce : Except Fault (Handling (RaopRtp δ)) :=
  match (httpRequestGetData request).1 with
  | none => .ok (.plain server conn [] [])
  | some data => announceSdp env server conn data

def contentLength (index : ℤ) : Option ℤ :=
  (httpRequestGetIheader request (.lit "Content-Length") index).map fun text =>
    atoi abi text.chars

/-- How far the loop over the requests before `index` moves `data`: a request without a
length counts with the one that came before in the loop. -/
def dataOffset (lengths : ℤ → Option ℤ) : ℕ → ℤ → ℕ
  | 0, _ => 0
  | before + 1, carried =>
      let length := (lengths (before + 1)).getD carried
      length.toNat + dataOffset lengths before length

/-- Where the handler looks for the body of one request: offset and `datalen`. -/
def parameterRange (index : ℤ) : Except Fault (ℕ × ℤ) :=
  match contentLength abi request index with
  | none => .error .uninitialised
  | some length =>
      .ok (dataOffset (contentLength abi request) (index - 1).toNat length,
        min length (httpRequestGetData request).2)

/-- The `datalen` bytes at `data`, which is moved past the end where the lengths do not fit. -/
def readRange (range : ℕ × ℤ) : Except Fault Bytes :=
  if range.2 ≤ 0 then .ok []
  else copyFrom ((httpRequestGetData request).1.getD []) range.1 range.2.toNat

def setTextParameter (rtp : RaopRtp δ) (text : Bytes) : RaopRtp δ :=
  match after "volume: " text with
  | some volume => raopRtpSetVolume rtp (env.scanVolume volume)
  | none =>
      match after "progress: " text with
      | some progress => raopRtpSetProgress rtp (env.scanProgress progress)
      | none => rtp

/-- `calloc (1, datalen + 1)` has no room for the copy where `datalen` is -1, and fails for
smaller ones. -/
def setText (rtp : RaopRtp δ) (range : ℕ × ℤ) : Except Fault (RaopRtp δ) :=
  if ((httpRequestGetData request).1 = none ∧ range.1 = 0) ∨ range.2 < -1 then .ok rtp
  else if range.2 = -1 then .error .outOfBounds
  else do
    let text ← readRange request range
    return setTextParameter env rtp (CString.ofBytes text).chars

/-- `raop_rtp_set_coverart` and `raop_rtp_set_metadata` take no empty data. -/
def setBlob (old : Option Bytes) (range : ℕ × ℤ) : Except Fault (Option Bytes) :=
  if range.2 ≤ 0 then .ok old
  else do
    let data ← readRange request range
    return some data

def setParameter (contentType : CString) (range : ℕ × ℤ) (rtp : RaopRtp δ) :
    Except Fault (RaopRtp δ) :=
  if contentType = .lit "text/parameters" then setText env request rtp range
  else if contentType = .lit "image/jpeg" ∨ contentType = .lit "image/png" then do
    let coverart ← setBlob request rtp.coverart range
    return { rtp with coverart := coverart }
  else if contentType = .lit "application/x-dmap-tagged" then do
    let metadata ← setBlob request rtp.metadata range
    return { rtp with metadata := metadata }
  else .ok rtp

def requestHandleSetparameter (index : ℤ) : Except Fault (Handling (RaopRtp δ)) := do
  let range ← parameterRange env.abi request index
  match httpRequestGetIheader request (.lit "Content-Type") index with
  | none => .error .nullPointer
  | some contentType =>
      match conn.raopRtp with
      | none => return .plain server conn [] []
      | some rtp => do
          let rtp ← setParameter env request contentType range rtp
          return .plain server { conn with raopRtp := some rtp } [] []

def flushSeq : ℤ :=
  match (httpRequestGetHeader request (.lit "RTP-Info") 1).bind
      fun rtpinfo => after "seq=" rtpinfo.chars with
  | none => -1
  | some number => atoi abi number

def requestHandleFlush : Handling (RaopRtp δ) :=
  .plain server
    { conn with
      raopRtp := conn.raopRtp.map fun rtp => raopRtpFlush rtp (flushSeq abi request) } [] []

def firstType : List Plist → Except Fault ℕ
  | [] => .ok 0
  | item :: rest =>
      match Plist.dictGetItem (.lit "type") (some item) with
      | none => firstType rest
      | some type => Plist.getUintVal (some type)

def teardownType : Except Fault ℕ :=
  if httpRequestGetHeader request (.lit "Content-Type") 1 = some binaryPlist then do
    let dict ← readPlist env.plistFromBin (httpRequestGetData request).1
    firstType (Plist.arrayItems (Plist.dictGetItem (.lit "streams") dict))
  else .ok 0

def requestHandleTeardown : Except Fault (Handling (RaopRtp δ)) := do
  let nType ← teardownType env request
  if nType = 96 then return .plain server { conn with raopRtp := none } [] []
  else if nType = 110 then
    return { Handling.plain server conn [] [] with callbacks := [.mirroringStop conn.remote] }
  else if nType = 0 then
    return { Handling.plain server conn [] [] with callbacks := [.playbackStop] }
  else return .plain server conn [] []

end Handlers

section Info

def keyed (key element : String) : String := "<key>" ++ key ++ "</key>\r\n" ++ element

def infoInteger (value : ℤ) : String := "<integer>" ++ toString value ++ "</integer>\r\n"

def infoString (value : String) : String := "<string>" ++ value ++ "</string>\r\n"

def infoFalse : String := "<false/>\r\n"

def infoDict (entries : String) : String := "<dict>\r\n" ++ entries ++ "</dict>\r\n"

def infoArray (items : String) : String := "<array>\r\n" ++ items ++ "</array>\r\n"

def upperHexDigit (val : UInt8) : Char :=
  Char.ofNat (if val < 10 then 48 + val.toNat else 55 + val.toNat)

/-- `%02X:%02X:%02X:%02X:%02X:%02X`. -/
def macText (hwaddr : Bytes) : String :=
  ":".intercalate ((List.range 6).map fun i =>
    let b := hwaddr.getD i 0
    String.ofList [upperHexDigit (b >>> 4), upperHexDigit (b &&& 15)])

def audioFormats (type : ℤ) : String :=
  infoDict (keyed "audioInputFormats" (infoInteger 67108860) ++
    keyed "audioOutputFormats" (infoInteger 67108860) ++ keyed "type" (infoInteger type))

def audioLatencies (type : ℤ) : String :=
  infoDict (keyed "audioType" (infoString "default") ++
    keyed "inputLatencyMicros" infoFalse ++ keyed "outputLatencyMicros" infoFalse ++
    keyed "type" (infoInteger type))

def display (server : RaopServer) : String :=
  infoDict (keyed "height" (infoInteger server.height) ++
    keyed "width" (infoInteger server.width) ++ keyed "rotation" infoFalse ++
    keyed "widthPhysical" infoFalse ++ keyed "heightPhysical" infoFalse ++
    keyed "widthPixels" (infoInteger server.width) ++
    keyed "heightPixels" (infoInteger server.height) ++
    keyed "refreshRate" (infoInteger 60) ++ keyed "maxFPS" (infoInteger server.maxfps) ++
    keyed "features" (infoInteger 14) ++ keyed "overscanned" infoFalse ++
    keyed "uuid" (infoString "e5f7a68d-7b0f-4305-984b-974f677a150b"))

/-- The text in `buffer`; `pk` is base64 without padding, and its padding is put behind it. -/
def infoText (pk : String) (server : RaopServer) : String :=
  SetupReply.plistHead ++
    keyed "pk" ("<data>\r\n" ++ pk ++ "=\r\n</data>\r\n") ++
    keyed "name" (infoString "Apple TV") ++ keyed "vv" (infoInteger 2) ++
    keyed "statusFlags" (infoInteger 68) ++ keyed "keepAliveLowPower" (infoInteger 1) ++
    keyed "keepAliveSendStatsAsBody" (infoInteger 1) ++
    keyed "pi" (infoString "b08f5a79-db29-4384-b456-a4784d9e6055") ++
    keyed "sourceVersion" (infoString "220.68") ++
    keyed "deviceID" (infoString (macText server.hwaddr)) ++
    keyed "macAddress" (infoString (macText server.hwaddr)) ++
    keyed "initialVolume" (infoString "-15.0") ++ keyed "model" (infoString "AppleTV3,2") ++
    keyed "audioFormats" (infoArray (audioFormats 100 ++ audioFormats 101)) ++
    keyed "audioLatencies" (infoArray (audioLatencies 100 ++ audioLatencies 101)) ++
    keyed "features" (infoInteger 130367356919) ++
    keyed "displays" (infoArray (display server)) ++ SetupReply.plistTail

def requestHandleInfo (env : RtspEnv δ) (server : RaopServer) (conn : RaopConn (RaopRtp δ)) :
    Handling (RaopRtp δ) :=
  .plain server conn []
    (env.xmlToBin (bytesOf (infoText (env.base64Encode server.pairData.edPub) server)))

end Info

/-- The environment of `conn_request` with all handlers in it. -/
def RtspEnv.raopEnv (env : RtspEnv δ) : RaopEnv (RaopRtp δ) where
  crypto := env.crypto
  md5 := env.md5
  rsakeySign := env.rsakeySign
  date := env.date
  seed := env.seed
  info := fun server conn _ _ => .ok (requestHandleInfo env server conn)
  announce := fun server conn request _ => requestHandleAnnounce env server conn request
  setup := fun server conn request _ => requestHandleSetup env.toSetupEnv server conn request
  setparameter := fun server conn request index =>
    requestHandleSetparameter env server conn request index
  flush := fun server conn request _ => .ok (requestHandleFlush env.abi server conn request)
  teardown := fun server conn request _ => requestHandleTeardown env server conn request

end AirCast.Raop
