import AirCast.Raop.RaopConn
import AirCast.Raop.RaopRtp

/-! # The audio session of an RTSP connection

`raop_rtp_t` as the handlers create, start and stop it, and what they leave in it for the
receiving thread. -/

set_option autoImplicit false

namespace AirCast.Raop

open AirCast.Http

variable {δ : Type}

/-- The fields of `raop_rtp_t` that the handlers set.  `metadata` and `coverart` wait for
the thread, `progress` is start, current and end. -/
structure RaopRtp (δ : Type) where
  buffer : RaopBuffer δ
  remote : Bytes
  running : Bool
  joined : Bool
  flush : ℤ
  volume : ℚ
  progress : Option (ℕ × ℕ × ℕ)
  metadata : Option Bytes
  coverart : Option Bytes
  controlRport : ℕ
  timingRport : ℕ

/-- Local ports for control, timing and data. -/
structure LocalPorts where
  control : BitVec 16
  timing : BitVec 16
  data : BitVec 16
  deriving DecidableEq

inductive AddressFamily where
  | inet
  | inet6
  deriving DecidableEq

/-- What the session finds around it: the target, the decoders, `malloc`, and `getaddrinfo`. -/
structure RtpEnv (δ : Type) where
  abi : Abi
  codec : AudioCodec δ
  malloc : Malloc
  parseAddress : AddressFamily → Bytes → Option Bytes

/-- The family that is asked for; an address with a colon in it is an IPv6 address. -/
def remoteFamily (kind address : Bytes) : Option AddressFamily :=
  if kind = bytesOf "IP4" ∨ kind = bytesOf "IP6" then
    if (strstr (bytesOf ":") address).isSome ∨ kind = bytesOf "IP6" then some .inet6
    else some .inet
  else none

/-- `raop_rtp_parse_remote`: the address, if there is one. -/
def raopRtpParseRemote (parseAddress : AddressFamily → Bytes → Option Bytes) (remote : Bytes) :
    Except Fault (Option Bytes) :=
  let network := utilsStrsep [32] (some remote)
  if network.1 ≠ some (bytesOf "IN") then .ok none
  else
    let kind := utilsStrsep [32] network.2
    match kind.1, kind.2 with
    | none, _ => .error .nullPointer
    | some _, none => .ok none
    | some kind, some address =>
        .ok ((remoteFamily kind address).bind fun family => parseAddress family address)

/-- `raop_rtp_init`; its strings may be NULL. -/
def raopRtpOpen (env : RtpEnv δ) (remote rtpmap fmtp : Option CString) (aeskey aesiv : Bytes) :
    Except Fault (Option (RaopRtp δ)) :=
  match remote, rtpmap, fmtp with
  | some remote, some _, some fmtp =>
      match raopRtpInit env.abi env.codec env.malloc fmtp aeskey aesiv with
      | none => .ok none
      | some buffer => do
          let address ← raopRtpParseRemote env.parseAddress remote.chars
          return address.map fun address =>
            { buffer := buffer
              remote := address
              running := false
              joined := true
              flush := noFlush
              volume := 0
              progress := none
              metadata := none
              coverart := none
              controlRport := 0
              timingRport := 0 }
  | _, _, _ => .error .assertion

/-- `raop_rtp_start`: the session, and the ports it stores through its pointers; `sockets` is
what `raop_rtp_init_sockets` comes to.  TCP has no control and no timing socket. -/
def raopRtpStart (rtp : RaopRtp δ) (useUdp : Bool) (controlRport timingRport : ℕ)
    (sockets : Option LocalPorts) : RaopRtp δ × Option LocalPorts :=
  if rtp.running = true ∨ rtp.joined = false then (rtp, none)
  else
    let rtp := { rtp with controlRport := controlRport, timingRport := timingRport }
    match sockets with
    | none => (rtp, none)
    | some ports =>
        ({ rtp with running := true, joined := false },
          some (if useUdp then ports else { ports with control := 0, timing := 0 }))

def raopRtpFlush (rtp : RaopRtp δ) (nextSeq : ℤ) : RaopRtp δ := { rtp with flush := nextSeq }

def raopRtpSetVolume (rtp : RaopRtp δ) (volume : ℚ) : RaopRtp δ :=
  { rtp with volume := if 0 < volume then 0 else if volume < -30 then -30 else volume }

def raopRtpSetProgress (rtp : RaopRtp δ) (progress : ℕ × ℕ × ℕ) : RaopRtp δ :=
  { rtp with progress := some progress }

end AirCast.Raop
