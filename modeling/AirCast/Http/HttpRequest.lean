import AirCast.Http.HttpParser

/-! # The request of http_request.c

The callbacks that rebuild the URL, the headers and the body from the pieces the
parser hands out, and the getters the connection handlers read them with. -/

set_option autoImplicit false

namespace AirCast.Http

/-- `http_request_t` without its parser.  `headers` has `headers_size` strings,
fields at even and values at odd places. -/
structure RequestData where
  method : Option CString
  url : Option CString
  headers : List (Option CString)
  headersIndex : ℕ
  data : Option Bytes
  complete : Bool
  deriving DecidableEq

structure HttpRequest where
  parser : HttpParser
  content : RequestData
  deriving DecidableEq

def httpRequestInit : HttpRequest :=
  { parser := httpParserInit
    content :=
      { method := none
        url := none
        headers := []
        headersIndex := 0
        data := none
        complete := false } }

/-- `strncat (s, at, length)`: the text up to its first NUL is appended. -/
def strncat (s : CString) (text : Bytes) : CString where
  chars := s.chars ++ (CString.ofBytes text).chars
  nulFree := by
    rw [List.mem_append, not_or]
    exact ⟨s.nulFree, (CString.ofBytes text).nulFree⟩

def newline : CString := .lit "\n"

/-- A URL that is already there is followed by a newline before the new piece. -/
def onUrl (request : RequestData) (text : Bytes) : RequestData :=
  match request.url with
  | none => { request with url := some (CString.ofBytes text) }
  | some url =>
      if url.strlen = 0 then { request with url := some (CString.ofBytes text) }
      else { request with url := some (strncat (strncat url newline.chars) text) }

/-- The string at `headers_index`, created where it is missing, grows by a piece. -/
def appendHeader (request : RequestData) (text : Bytes) : RequestData :=
  let old := (request.headers.getD request.headersIndex none).getD (.lit "")
  { request with headers := request.headers.set request.headersIndex (some (strncat old text)) }

/-- The header pair a field piece goes to: the next one after a value, allocated
where it is missing. -/
def openField (request : RequestData) : RequestData :=
  let request :=
    if request.headersIndex % 2 = 1 then { request with headersIndex := request.headersIndex + 1 }
    else request
  if request.headersIndex = request.headers.length then
    { request with headers := request.headers ++ [none, none] }
  else request

def onHeaderField (request : RequestData) (text : Bytes) : RequestData :=
  appendHeader (openField request) text

def openValue (request : RequestData) : RequestData :=
  if request.headersIndex % 2 = 0 then { request with headersIndex := request.headersIndex + 1 }
  else request

def onHeaderValue (request : RequestData) (text : Bytes) : RequestData :=
  appendHeader (openValue request) text

def onBody (request : RequestData) (text : Bytes) : RequestData :=
  { request with data := some (request.data.getD [] ++ text) }

def onMessageComplete (request : RequestData) (method : HttpMethod) : RequestData :=
  { request with method := some method.str, complete := true }

def requestSettings : ParserSettings RequestData where
  onData
    | .url => onUrl
    | .headerField => onHeaderField
    | .headerValue => onHeaderValue
    | .body => onBody
  onMessageComplete := onMessageComplete

/-- `http_request_add_data`; `none` is a failed assertion of the parser. -/
def httpRequestAddData (request : HttpRequest) (data : Bytes) : Option HttpRequest :=
  (httpParserExecute requestSettings request.parser request.content data).map fun out =>
    ⟨out.1, out.2⟩

def httpRequestIsComplete (request : HttpRequest) : Bool := request.content.complete

def httpRequestHasError (request : HttpRequest) : Bool := request.parser.httpErrno ≠ .ok

def httpRequestGetMethod (request : HttpRequest) : Option CString := request.content.method

/-- `strtok` with one delimiter: the token and what the next call goes on with. -/
def strtok (delim : UInt8) (text : Bytes) : Option (Bytes × Bytes) :=
  match text.dropWhile (· = delim) with
  | [] => none
  | start =>
      some (start.takeWhile (· ≠ delim), (start.dropWhile (· ≠ delim)).drop 1)

/-- The token after `skipped` others. -/
def strtokNth (delim : UInt8) : ℕ → Bytes → Option Bytes
  | 0, text => (strtok delim text).map Prod.fst
  | skipped + 1, text => (strtok delim text).bind fun cut => strtokNth delim skipped cut.2

/-- `http_request_get_url`; the outer `none` is `strlen (NULL)`. -/
def httpRequestGetUrl (request : HttpRequest) (index : ℤ) : Option (Option Bytes) :=
  request.content.url.map fun url => strtokNth lf (index - 1).toNat url.chars

/-- The loop over the header pairs: the pairs up to the `CSeq` that makes `index`
one are passed over. -/
def findHeader (same : CString → CString → Bool) (name : CString) :
    List (Option CString) → ℤ → Option CString
  | field :: value :: rest, index =>
      let field := field.getD (.lit "")
      if index ≠ 1 then
        findHeader same name rest (if same field (.lit "CSeq") then index - 1 else index)
      else if same field name then value
      else findHeader same name rest index
  | _, _ => none

def httpRequestGetHeader (request : HttpRequest) (name : CString) (index : ℤ) : Option CString :=
  findHeader (fun a b => a = b) name request.content.headers index

def toLower (c : UInt8) : UInt8 := if 65 ≤ c ∧ c ≤ 90 then c + 32 else c

def strcasecmpEq (a b : CString) : Bool := a.chars.map toLower = b.chars.map toLower

def httpRequestGetIheader (request : HttpRequest) (name : CString) (index : ℤ) : Option CString :=
  findHeader strcasecmpEq name request.content.headers index

/-- `http_request_get_data`: the pointer and `*datalen`. -/
def httpRequestGetData (request : HttpRequest) : Option Bytes × ℕ :=
  (request.content.data, (request.content.data.getD []).length)

def countFields (same : CString → Bool) : List (Option CString) → ℕ
  | field :: _ :: rest =>
      (if same (field.getD (.lit "")) then 1 else 0) + countFields same rest
  | _ => 0

/-- `http_request_get_request_count`: the header fields that name a `CSeq`, or 1. -/
def httpRequestGetRequestCount (request : HttpRequest) : ℕ :=
  let ret := countFields (fun field => strcasecmpEq field (.lit "CSeq")) request.content.headers
  if ret = 0 then 1 else ret

end AirCast.Http
