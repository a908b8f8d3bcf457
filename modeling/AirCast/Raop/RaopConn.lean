import AirCast.Http.HttpRequest
import AirCast.Http.HttpResponse

/-! # An RTSP connection and the handshake handlers of raop.c

The pairing data and the FairPlay message belong to the server, the keys made from
them to the connection.  Cryptography is opaque. -/

set_option autoImplicit false

namespace AirCast.Raop

open AirCast.Http

/-- The AES-CTR fields of `struct air_pair_s`; `aesKey` is the key whose schedule
`aes_key` holds, if one was set. -/
structure PairCtr where
  aesKey : Option Bytes
  ctrKey : Bytes
  ctrIv : Bytes
  ctrEc : Bytes
  ctrNum : ℕ
  deriving DecidableEq

structure AirPair where
  cvPub : Bytes
  cvPri : Bytes
  cvSha : Bytes
  cvHis : Bytes
  edPub : Bytes
  edPri : Bytes
  edHis : Bytes
  ctr : PairCtr
  deriving DecidableEq

/-- `raop_t`, with the globals `message3` and `g_aes_key_ctx` (its key and iv). -/
structure RaopServer where
  password : CString
  hwaddr : Bytes
  height : ℤ
  width : ℤ
  maxfps : ℤ
  pairData : AirPair
  message3 : Bytes
  gAesKeyCtx : Option (Bytes × Bytes)
  deriving DecidableEq

/-- `raop_conn_t`; `ρ` is a session of raop_rtp.c. -/
structure RaopConn (ρ : Type) where
  localAddress : Bytes
  remote : Bytes
  et : ℤ
  cn : ℤ
  nonce : CString
  controlPort : ℕ
  timingPort : ℕ
  dataPort : ℕ
  eventPort : ℕ
  rsaKey : Bytes
  rsaIv : Bytes
  rsaCbcKey : Bytes
  rsaCbcIv : Bytes
  cvSha : Bytes
  raopRtp : Option ρ
  deriving DecidableEq

def zeros (n : ℕ) : Bytes := List.replicate n 0

def AirPair.zero : AirPair :=
  { cvPub := zeros 32
    cvPri := zeros 32
    cvSha := zeros 32
    cvHis := zeros 32
    edPub := zeros 32
    edPri := zeros 64
    edHis := zeros 32
    ctr := ⟨none, zeros 16, zeros 16, zeros 16, 0⟩ }

/-- `raop_init` and `raop_start`. -/
def raopInit (password : CString) (hwaddr : Bytes) (height width maxfps : ℤ) : RaopServer :=
  { password := password
    hwaddr := hwaddr
    height := height
    width := width
    maxfps := maxfps
    pairData := .zero
    message3 := zeros 164
    gAesKeyCtx := none }

def connInit {ρ : Type} (localAddress remote : Bytes) (nonce : CString) : RaopConn ρ :=
  { localAddress := localAddress
    remote := remote
    et := 1
    cn := 1
    nonce := nonce
    controlPort := 0
    timingPort := 0
    dataPort := 53291
    eventPort := 55556
    rsaKey := zeros 16
    rsaIv := zeros 16
    rsaCbcKey := zeros 16
    rsaCbcIv := zeros 16
    cvSha := zeros 32
    raopRtp := none }

/-- The functions of other files, and the key pair that `dnssd_init` made. -/
structure RaopCrypto where
  gEdPublicKey : Bytes
  gEdPrivateKey : Bytes
  /-- the base point stands for `0` -/
  curve25519Donna : Bytes → Option Bytes → Bytes
  ed25519Sign : Bytes → Bytes → Bytes → Bytes
  ed25519Verify : Bytes → Bytes → Bytes → Bool
  sha512msg : Bytes → Bytes → Bytes
  ctr128Encrypt : PairCtr → Bytes → PairCtr × Bytes
  fairplaySetup : Bytes → Option Bytes
  fairplayDecrypt : Bytes → Bytes → Option Bytes

inductive RaopCallback where
  | mirroringLive
  | mirroringStop (remote : Bytes)
  | playbackStop
  deriving DecidableEq

/-- What a handler leaves behind, and what it adds to the reply. -/
structure Handling (ρ : Type) where
  server : RaopServer
  conn : RaopConn ρ
  headers : List (CString × CString)
  /-- empty where `*pResponseData` stays 0 -/
  responseData : Bytes
  disconnect : Bool
  callbacks : List RaopCallback

section Handlers

variable {ρ : Type} (crypto : RaopCrypto) (server : RaopServer) (conn : RaopConn ρ)

def Handling.plain (headers : List (CString × CString)) (responseData : Bytes) : Handling ρ :=
  ⟨server, conn, headers, responseData, false, []⟩

def octetStream : CString × CString := (.lit "Content-Type", .lit "application/octet-stream")

/-- `memcpy` from a buffer. -/
def copyFrom (buffer : Bytes) (offset length : ℕ) : Except Fault Bytes :=
  if offset + length ≤ buffer.length then .ok ((buffer.drop offset).take length)
  else .error .outOfBounds

def requestHandlePairsetup (data : Option Bytes) : Handling ρ :=
  let body := data.getD []
  let pairData :=
    { server.pairData with
      edPub := crypto.gEdPublicKey
      edPri := crypto.gEdPrivateKey
      edHis := if body.length = 32 then body else server.pairData.edHis }
  .plain { server with pairData := pairData } conn [octetStream] pairData.edPub

/-- The pairing data and the reply after the first message of `/pair-verify`; `seed` is
what `ed25519_create_seed` gives. -/
def firstMessage (cx : AirPair) (seed cvHis edHis : Bytes) : AirPair × Bytes :=
  let cvPub := crypto.curve25519Donna seed none
  let cvSha := crypto.curve25519Donna seed (some cvHis)
  let edSig := crypto.ed25519Sign (cvPub ++ cvHis) cx.edPub cx.edPri
  let ctrKey := (crypto.sha512msg (bytesOf "Pair-Verify-AES-Key") cvSha).take 16
  let ctrIv := (crypto.sha512msg (bytesOf "Pair-Verify-AES-IV") cvSha).take 16
  let out := crypto.ctr128Encrypt ⟨some ctrKey, ctrKey, ctrIv, zeros 16, 0⟩ edSig
  ({ cx with
      cvPub := cvPub
      cvPri := seed
      cvSha := cvSha
      cvHis := cvHis
      edHis := edHis
      ctr := out.1 },
    cvPub ++ out.2)

def secondMessage (cx : AirPair) (edSig : Bytes) : PairCtr × Bool :=
  let out := crypto.ctr128Encrypt cx.ctr edSig
  (out.1, crypto.ed25519Verify out.2 (cx.cvHis ++ cx.cvPub) cx.edHis)

def pairverifyFirst (seed body : Bytes) : Except Fault (Handling ρ) := do
  let cvHis ← copyFrom body 4 32
  let edHis ← copyFrom body 36 32
  let out := firstMessage crypto server.pairData seed cvHis edHis
  return .plain { server with pairData := out.1 } { conn with cvSha := out.1.cvSha } [octetStream]
    out.2

def connectionClose : CString × CString := (.lit "Connection", .lit "close")

def pairverifySecond (body : Bytes) : Except Fault (Handling ρ) := do
  let edSig ← copyFrom body 4 64
  let out := secondMessage crypto server.pairData edSig
  return .plain { server with pairData := { server.pairData with ctr := out.1 } } conn
    (if out.2 then [octetStream] else [connectionClose, octetStream]) []

def requestHandlePairverify (seed : Bytes) : Option Bytes → Except Fault (Handling ρ)
  | none => .error .nullPointer
  | some [] => .error .outOfBounds
  | some (step :: body) =>
      if step = 1 then pairverifyFirst crypto server conn seed (step :: body)
      else pairverifySecond crypto server conn (step :: body)

/-- The size of the reply is set apart from the buffer it is read from. -/
def fpsetupReply (data : Bytes) (size : ℕ) : Except Fault Bytes :=
  match crypto.fairplaySetup data with
  | none => .ok []
  | some buf => copyFrom buf 0 size

def requestHandleFpsetup : Option Bytes → Except Fault (Handling ρ)
  | none => .error .nullPointer
  | some data =>
      if data.length = 16 then do
        let reply ← fpsetupReply crypto data 142
        return .plain server conn [] reply
      else do
        let message3 ← copyFrom data 0 164
        let reply ← fpsetupReply crypto data 32
        return .plain { server with message3 := message3 } conn [] reply

/-- `eiv` goes into an array of 16 bytes. -/
def setupIv : Option Bytes → Except Fault (RaopConn ρ)
  | none => .ok conn
  | some eiv =>
      if eiv.length ≤ 16 then .ok { conn with rsaIv := eiv ++ conn.rsaIv.drop eiv.length }
      else .error .outOfBounds

/-- `ekey` is decrypted with the FairPlay message of the server. -/
def setupKey (ekey : Bytes) : RaopConn ρ :=
  if ekey.length = 72 then
    match crypto.fairplayDecrypt server.message3 ekey with
    | none => conn
    | some key => { conn with rsaKey := key.take 16 }
  else conn

/-- `request_handle_setup` for the first SETUP of a client, a property list with keys and
no streams. -/
def requestHandleSetupKeys (eiv : Option Bytes) (ekey : Bytes) : Except Fault (Handling ρ) := do
  let conn ← setupIv conn eiv
  return .plain server (setupKey crypto server conn ekey)
    [(.lit "Content-Type", .lit "application/x-apple-binary-plist"),
      (.lit "Content-Length", .lit "0")] []

end Handlers

end AirCast.Raop
