import AirCast.Hls.HlsValue

/-! # The media playlist loop of trans

The branch of `trans` for a media playlist: a header sets the buffers `url`,
`params` and `prefix` and adds to the list of parameters, a line behind the prefix
is expanded, and any other line that begins with `#` is written as it is. -/

set_option autoImplicit false

namespace AirCast.Hls

def SLASH : UInt8 := 47
def HASH : UInt8 := 35

def CONDENSED_URL : Bytes := bytesOf "#YT-EXT-CONDENSED-URL"
def BASE_URI : Bytes := bytesOf "BASE-URI"
def PARAMS : Bytes := bytesOf "PARAMS"
def PREFIX : Bytes := bytesOf "PREFIX"

/-- What the loop keeps from one header to the next. -/
structure Held where
  url : Bytes
  params : Bytes
  linePrefix : Bytes
  hlsParamList : List Bytes
  deriving DecidableEq

structure Trans where
  held : Held
  flag : Bool
  file : Bytes
  deriving DecidableEq

def Held.start : Held where
  url := List.replicate MAX_LINE 0
  params := List.replicate 128 0
  linePrefix := List.replicate 32 0
  hlsParamList := []

/-- The string that `strtok` leaves at its end: the comma behind a token becomes a
terminator. -/
def cutTokens : Bool → Bytes → Bytes
  | _, [] => []
  | token, c :: text =>
      if c = COMMA then (if token then 0 else c) :: cutTokens false text
      else c :: cutTokens true text

/-- A `#YT-EXT-CONDENSED-URL` line. -/
def condensedUrl (line : Bytes) (s : Trans) : Option Trans := do
  let (url, found) ← getValue line BASE_URI s.held.url
  let held := { s.held with url }
  if found ≤ 0 then return { s with held }
  let (params, found) ← getValue line PARAMS held.params
  if found ≤ 0 then return { s with held := { held with params } }
  let text ← stringOf params
  let held := { held with
    params := cutTokens false text ++ params.drop text.length
    hlsParamList := held.hlsParamList ++ runs (· == COMMA) text }
  let (linePrefix, found) ← getValue line PREFIX held.linePrefix
  let held := { held with linePrefix }
  if found ≤ 0 then return { s with held }
  return { s with held, flag := true }

/-- `sprintf` into `buf`, with the terminator. -/
def printed (text : Bytes) : Option Bytes :=
  if text.length < 2 * MAX_LINE then some text else none

def expandUrl : List Bytes → List Bytes → Bytes → Option Bytes
  | param :: hlsParamList, p :: tokens, buf =>
      (printed (buf ++ (SLASH :: param ++ SLASH :: p))).bind (expandUrl hlsParamList tokens)
  | _, _, buf => some buf

def segmentLine (line : Bytes) (s : Trans) : Option Trans := do
  let url ← stringOf s.held.url
  let buf ← expandUrl s.held.hlsParamList (runs (· == SLASH) line).tail url
  let buf ← printed (buf ++ [10])
  return { s with file := s.file ++ buf }

def transLine (s : Trans) (line : Bytes) : Option Trans :=
  if line = [] then some s
  else if CONDENSED_URL <+: line then condensedUrl line s
  else (stringOf s.held.linePrefix).bind fun linePrefix =>
    if linePrefix ≠ [] ∧ linePrefix <+: line then segmentLine line s
    else if line.head? = some HASH then
      (printed (line ++ [10])).map fun buf => { s with file := s.file ++ buf }
    else some s

/-- `trans` with `isMaster` zero: the file that is written, and the value that is returned;
`none` when a call leaves a buffer. -/
def trans (data : Bytes) : Option (Bytes × ℤ) := do
  let lines ← mediaLines data
  let s ← lines.foldlM transLine { held := Held.start, flag := false, file := [] }
  return (s.file, if s.flag then 0 else -1)

/-- The value of `name` is quoted at its first occurrence, and the destination ends behind it. -/
def Reads (line name v value : Bytes) : Prop :=
  ∃ before q after, strstr name line = some (before, EQUALS :: q :: (v ++ q :: after)) ∧
    isQuote q = true ∧ q ∉ v ∧ (∃ c ∈ v.head?, isMark c = false) ∧ value[v.length]? = some 0

theorem Reads.getValue {line name v value : Bytes} (reads : Reads line name v value)
    (named : name ≠ []) (nulFree : 0 ∉ v) :
    getValue line name value = some (v ++ value.drop v.length, (v.length : ℤ)) := by
  obtain ⟨before, q, after, found, quote, fresh, ⟨c, head, plain⟩, ended⟩ := reads
  have passed : Skipped [EQUALS, q] (v ++ q :: after) :=
    ⟨by simp [isMark, quote], by simp [List.head?_append, Option.mem_def.mp head, plain]⟩
  exact getValue_ended [EQUALS, q] (delimiter_quoted quote) named found passed fresh nulFree ended

theorem Reads.length_pos {line name v value : Bytes} (reads : Reads line name v value) :
    0 < v.length := by
  obtain ⟨_, _, _, _, _, _, ⟨c, head, _⟩, _⟩ := reads
  exact List.length_pos_iff.mpr fun empty => by simp [empty] at head

end AirCast.Hls
