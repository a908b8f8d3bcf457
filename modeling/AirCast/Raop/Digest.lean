import AirCast.Http.HttpResponse

/-! # Digest access authentication

The check of an `Authorization` header in digest.c.  MD5 is opaque: a function of the
concatenated updates. -/

set_option autoImplicit false

namespace AirCast.Raop

open AirCast.Http

def hexDigit (val : UInt8) : UInt8 := if val < 10 then 48 + val else 97 + (val - 10)

def digestMd5ToHex (md5buf : Bytes) : Bytes :=
  md5buf.flatMap fun (b : UInt8) => [hexDigit ((b &&& 0xf0) >>> 4), hexDigit (b &&& 0x0f)]

/-- `digest_generate_nonce`, from the digest of the time; `nonce` has room for 32 digits. -/
def digestGenerateNonce (md5buf : Bytes) : CString :=
  .ofBytes ((digestMd5ToHex md5buf).take 32)

def colonJoin : List Bytes → Bytes
  | [] => []
  | [part] => part
  | part :: rest => part ++ bytesOf ":" ++ colonJoin rest

def digestGetResponse (md5 : Bytes → Bytes) (username realm password nonce method uri : Bytes) :
    Bytes :=
  let first := digestMd5ToHex (md5 (colonJoin [username, realm, password]))
  let second := digestMd5ToHex (md5 (colonJoin [method, uri]))
  digestMd5ToHex (md5 (colonJoin [first, nonce, second]))

/-- The values of a text that `utils_strsep` cuts at `delim`, at most `fuel`. -/
def strsepAll (delim : Bytes) : ℕ → Option Bytes → List Bytes
  | 0, _ => []
  | fuel + 1, current =>
      match utilsStrsep delim current with
      | (none, _) => []
      | (some value, rest) => value :: strsepAll delim fuel rest

def space : UInt8 := 32

/-- Leading and trailing spaces go, but for a last character. -/
def trimSpaces (value : Bytes) : Bytes :=
  match (value.dropLast.dropWhile (· = space)) ++ value.getLast?.toList with
  | [] => []
  | first :: rest => first :: (rest.reverse.dropWhile (· = space)).reverse

/-- What is left of a value when its closing quote is cut off. -/
def unquote (value : Bytes) : Option Bytes :=
  let trimmed := trimSpaces value
  if trimmed.getLast? = some 34 then some trimmed.dropLast else none

structure DigestFields where
  username : Option Bytes
  realm : Option Bytes
  nonce : Option Bytes
  uri : Option Bytes
  response : Option Bytes
  deriving DecidableEq

def DigestFields.empty : DigestFields := ⟨none, none, none, none, none⟩

def after (field : String) (text : Bytes) : Option Bytes :=
  if (bytesOf field).isPrefixOf text then some (text.drop (bytesOf field).length) else none

/-- A value is stored under its name, over an earlier one. -/
def storeField (fields : DigestFields) (value : Bytes) : DigestFields :=
  match unquote value with
  | none => fields
  | some text =>
      match after "username=\"" text with
      | some username => { fields with username := some username }
      | none =>
      match after "realm=\"" text with
      | some realm => { fields with realm := some realm }
      | none =>
      match after "nonce=\"" text with
      | some nonce => { fields with nonce := some nonce }
      | none =>
      match after "uri=\"" text with
      | some uri => { fields with uri := some uri }
      | none =>
      match after "response=\"" text with
      | some response => { fields with response := some response }
      | none => fields

def digestFields (header : Bytes) : DigestFields :=
  (strsepAll (bytesOf ",") (header.length + 1) (some header)).foldl storeField .empty

/-- `digest_is_valid`; our own URI is only looked at where realm and nonce are right. -/
def digestIsValid (md5 : Bytes → Bytes) (ourRealm password ourNonce method : CString)
    (ourUri : Option Bytes) : Option CString → Except Fault Bool
  | none => .ok false
  | some authorization =>
      match after "Digest" authorization.chars with
      | none => .ok false
      | some header =>
          match digestFields header with
          | ⟨some username, some realm, some nonce, some uri, some response⟩ =>
              if realm ≠ ourRealm.chars ∨ nonce ≠ ourNonce.chars then .ok false
              else
                match ourUri with
                | none => .error .nullPointer
                | some ourUri =>
                    if uri ≠ ourUri then .ok false
                    else
                      .ok (response = digestGetResponse md5 username realm password.chars nonce
                        method.chars uri)
          | _ => .ok false

end AirCast.Raop
