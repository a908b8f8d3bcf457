import AirCast.CString

/-! # Session descriptions

sdp.c: the lines of a text, and the records among them that ANNOUNCE reads. -/

set_option autoImplicit false

namespace AirCast.Raop

/-- `sdp_t` without the records nobody asks for; a record that is missing is NULL. -/
structure Sdp where
  connection : Option CString
  rtpmap : Option CString
  fmtp : Option CString
  rsaaeskey : Option CString
  fpaeskey : Option CString
  aesiv : Option CString
  deriving DecidableEq

def Sdp.empty : Sdp := ⟨none, none, none, none, none, none⟩

/-- An attribute: the first `rtpmap` and `fmtp` stay, of the others the last. -/
def Sdp.setAttribute (sdp : Sdp) (key value : Bytes) : Sdp :=
  let text := some (CString.ofBytes value)
  if key = bytesOf "rtpmap" ∧ sdp.rtpmap.isNone then { sdp with rtpmap := text }
  else if key = bytesOf "fmtp" ∧ sdp.fmtp.isNone then { sdp with fmtp := text }
  else if key = bytesOf "rsaaeskey" then { sdp with rsaaeskey := text }
  else if key = bytesOf "fpaeskey" then { sdp with fpaeskey := text }
  else if key = bytesOf "aesiv" then { sdp with aesiv := text }
  else sdp

def parseSdpLine (sdp : Sdp) : Bytes → Sdp
  | 99 :: 61 :: value => { sdp with connection := some (CString.ofBytes value) }
  | 97 :: 61 :: text =>
      match strstr (bytesOf ":") text with
      | none => sdp
      | some (key, value) => sdp.setAttribute key value
  | _ => sdp

def dropCr (line : Bytes) : Bytes := if line.getLast? = some 13 then line.dropLast else line

def sdpLines : Bytes → Bytes → List Bytes
  | _, [] => []
  | line, c :: rest =>
      if c = 10 then dropCr line :: sdpLines [] rest else sdpLines (line ++ [c]) rest

/-- `sdp_init`; the text ends at its first NUL. -/
def sdpInit (sdpdata : Bytes) : Sdp :=
  (sdpLines [] (CString.ofBytes sdpdata).chars).foldl parseSdpLine .empty

end AirCast.Raop
