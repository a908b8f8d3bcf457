import AirCast.CString

/-! # The request parser of http_parser.c

`http_parser_execute` for a parser of type `HTTP_REQUEST`, compiled with
`HTTP_PARSER_STRICT == 0`; the states of responses are not reached and not
modelled.  One case of its switch is a function from the parser and the current
byte to a `Reaction`: the new parser, the marks set and callbacks run, the bytes
taken, and how the loop goes on.  A mark is the text from its position up to the
current byte. -/

set_option autoImplicit false

namespace AirCast.Http

/-! ## The parser -/

inductive HttpMethod where
  | delete | get | head | post | put | connect | options | trace | copy | lock | mkcol | move
  | propfind | proppatch | search | unlock | report | mkactivity | checkout | merge | msearch
  | notify | subscribe | unsubscribe | patch | purge | describe | announce | setup | play | pause
  | teardown | getParameter | setParameter | redirect | record | flush
  deriving DecidableEq, Repr

/-- `method_strings`, read by `http_method_str`. -/
def HttpMethod.str : HttpMethod → CString
  | .delete => .lit "DELETE"
  | .get => .lit "GET"
  | .head => .lit "HEAD"
  | .post => .lit "POST"
  | .put => .lit "PUT"
  | .connect => .lit "CONNECT"
  | .options => .lit "OPTIONS"
  | .trace => .lit "TRACE"
  | .copy => .lit "COPY"
  | .lock => .lit "LOCK"
  | .mkcol => .lit "MKCOL"
  | .move => .lit "MOVE"
  | .propfind => .lit "PROPFIND"
  | .proppatch => .lit "PROPPATCH"
  | .search => .lit "SEARCH"
  | .unlock => .lit "UNLOCK"
  | .report => .lit "REPORT"
  | .mkactivity => .lit "MKACTIVITY"
  | .checkout => .lit "CHECKOUT"
  | .merge => .lit "MERGE"
  | .msearch => .lit "M-SEARCH"
  | .notify => .lit "NOTIFY"
  | .subscribe => .lit "SUBSCRIBE"
  | .unsubscribe => .lit "UNSUBSCRIBE"
  | .patch => .lit "PATCH"
  | .purge => .lit "PURGE"
  | .describe => .lit "DESCRIBE"
  | .announce => .lit "ANNOUNCE"
  | .setup => .lit "SETUP"
  | .play => .lit "PLAY"
  | .pause => .lit "PAUSE"
  | .teardown => .lit "TEARDOWN"
  | .getParameter => .lit "GET_PARAMETER"
  | .setParameter => .lit "SET_PARAMETER"
  | .redirect => .lit "REDIRECT"
  | .record => .lit "RECORD"
  | .flush => .lit "FLUSH"

/-- The states of the request path, in the order of the source. -/
inductive ParserState where
  | dead | startReq | reqMethod | reqSpacesBeforeUrl | reqSchema | reqSchemaSlash
  | reqSchemaSlashSlash | reqServerStart | reqServer | reqServerWithAt | reqPath
  | reqQueryStringStart | reqQueryString | reqFragmentStart | reqFragment | reqHttpStart
  | reqHttpH | reqHttpHT | reqHttpHTT | reqHttpHTTP | reqFirstHttpMajor | reqHttpMajor
  | reqFirstHttpMinor | reqHttpMinor | reqLineAlmostDone | headerFieldStart | headerField
  | headerValueStart | headerValue | headerValueLws | headerAlmostDone | chunkSizeStart
  | chunkSize | chunkParameters | chunkSizeAlmostDone | headersAlmostDone | headersDone
  | chunkData | chunkDataAlmostDone | chunkDataDone | bodyIdentity | messageDone
  deriving DecidableEq, Repr

inductive HeaderState where
  | general | c | co | con | matchingConnection | matchingProxyConnection
  | matchingContentLength | matchingTransferEncoding | matchingUpgrade | connection
  | contentLength | transferEncoding | upgrade | matchingTransferEncodingChunked
  | matchingConnectionKeepAlive | matchingConnectionClose | transferEncodingChunked
  | connectionKeepAlive | connectionClose
  deriving DecidableEq, Repr

inductive HttpErrno where
  | ok | invalidEofState | headerOverflow | closedConnection | invalidVersion | invalidMethod
  | invalidUrl | lfExpected | invalidHeaderToken | invalidContentLength | invalidChunkSize
  | invalidConstant | unknown
  deriving DecidableEq, Repr

structure ParserFlags where
  chunked : Bool
  connectionKeepAlive : Bool
  connectionClose : Bool
  trailing : Bool
  upgrade : Bool
  skipbody : Bool
  deriving DecidableEq, Repr

def ParserFlags.none : ParserFlags := ⟨false, false, false, false, false, false⟩

structure HttpParser where
  flags : ParserFlags
  state : ParserState
  headerState : HeaderState
  index : ℕ
  nread : ℕ
  contentLength : ℕ
  httpMajor : ℕ
  httpMinor : ℕ
  method : HttpMethod
  httpErrno : HttpErrno
  upgrade : Bool
  deriving DecidableEq, Repr

/-- `http_parser_init` with `HTTP_REQUEST`. -/
def httpParserInit : HttpParser :=
  { flags := .none
    state := .startReq
    headerState := .general
    index := 0
    nread := 0
    contentLength := 0
    httpMajor := 0
    httpMinor := 0
    method := .delete
    httpErrno := .ok
    upgrade := false }

def ullongMax : ℕ := 2 ^ 64 - 1
def httpMaxHeaderSize : ℕ := 80 * 1024

def parsingHeader : ParserState → Bool
  | .chunkData | .chunkDataAlmostDone | .chunkDataDone | .bodyIdentity | .messageDone => false
  | _ => true

/-! ## Character classes -/

def cr : UInt8 := 13
def lf : UInt8 := 10
def sp : UInt8 := 32
def ht : UInt8 := 9

def lower (c : UInt8) : UInt8 := c ||| 0x20

def isAlpha (c : UInt8) : Bool := 97 ≤ lower c && lower c ≤ 122

def isNum (c : UInt8) : Bool := 48 ≤ c && c ≤ 57

def isMark (c : UInt8) : Bool := c ∈ bytesOf "-_.!~*'()"

def isUserinfoChar (c : UInt8) : Bool := isAlpha c || isNum c || isMark c || c ∈ bytesOf "%;:&=+$,"

/-- `TOKEN`: the lower-case form of a token character or a space, else 0. -/
def token (ch : UInt8) : UInt8 :=
  if ch = sp then sp
  else if 65 ≤ ch ∧ ch ≤ 90 then ch + 32
  else if ch ∈ bytesOf "!#$%&'*+-.|~" ∨ (48 ≤ ch ∧ ch ≤ 57) ∨ (94 ≤ ch ∧ ch ≤ 122) then ch
  else 0

def isUrlChar (c : UInt8) : Bool :=
  c = 9 || c = 12 || (33 ≤ c && c ≤ 126 && c ≠ 35 && c ≠ 63) || 128 ≤ c

/-- `unhex`; the entries from 128 on are not written in the table, hence 0. -/
def unhex (ch : UInt8) : Option ℕ :=
  if 48 ≤ ch ∧ ch ≤ 57 then some (ch.toNat - 48)
  else if 65 ≤ ch ∧ ch ≤ 70 then some (ch.toNat - 55)
  else if 97 ≤ ch ∧ ch ≤ 102 then some (ch.toNat - 87)
  else if 128 ≤ ch then some 0
  else none

def charAt (text : CString) (i : ℕ) : UInt8 := text.chars.getD i 0

/-! ## Reactions -/

inductive Mark where
  | url | headerField | headerValue | body
  deriving DecidableEq, Repr

inductive Action where
  /-- `MARK` -/
  | mark (m : Mark)
  /-- `CALLBACK_DATA` and `CALLBACK_DATA_NOADVANCE`: the text before the current byte -/
  | data (m : Mark)
  /-- the callback of the body, which includes the bytes taken in this round -/
  | dataThrough (m : Mark)
  | messageComplete
  deriving DecidableEq, Repr

/-- `leave` is a `return` from the loop or `goto error`, `abort` a failed assertion. -/
inductive Flow where
  | next | leave | abort
  deriving DecidableEq, Repr

/-- `skip` counts the bytes taken besides the current one. -/
structure Reaction where
  parser : HttpParser
  actions : List Action
  skip : ℕ
  flow : Flow

def Reaction.go (parser : HttpParser) (actions : List Action) : Reaction := ⟨parser, actions, 0, .next⟩

def Reaction.fail (parser : HttpParser) (errno : HttpErrno) : Reaction :=
  ⟨{ parser with httpErrno := errno }, [], 0, .leave⟩

/-- `assert (holds)` before the rest of a case. -/
def Reaction.check (holds : Bool) (parser : HttpParser) (rest : Reaction) : Reaction :=
  if holds then rest else ⟨parser, [], 0, .abort⟩

/-! ## Request line -/

def parseUrlChar (s : ParserState) (ch : UInt8) : ParserState :=
  if ch = sp ∨ ch = cr ∨ ch = lf then .dead
  else
    match s with
    | .reqSpacesBeforeUrl =>
        if ch ∈ bytesOf "/*" then .reqPath else if isAlpha ch then .reqSchema else .dead
    | .reqSchema =>
        if isAlpha ch then s else if ch ∈ bytesOf ":" then .reqSchemaSlash else .dead
    | .reqSchemaSlash => if ch ∈ bytesOf "/" then .reqSchemaSlashSlash else .dead
    | .reqSchemaSlashSlash => if ch ∈ bytesOf "/" then .reqServerStart else .dead
    | .reqServerWithAt | .reqServerStart | .reqServer =>
        if s = .reqServerWithAt ∧ ch ∈ bytesOf "@" then .dead
        else if ch ∈ bytesOf "/" then .reqPath
        else if ch ∈ bytesOf "?" then .reqQueryStringStart
        else if ch ∈ bytesOf "@" then .reqServerWithAt
        else if isUserinfoChar ch ∨ ch ∈ bytesOf "[]" then .reqServer
        else .dead
    | .reqPath =>
        if isUrlChar ch then s
        else if ch ∈ bytesOf "?" then .reqQueryStringStart
        else if ch ∈ bytesOf "#" then .reqFragmentStart
        else .dead
    | .reqQueryStringStart | .reqQueryString =>
        if isUrlChar ch then .reqQueryString
        else if ch ∈ bytesOf "?" then .reqQueryString
        else if ch ∈ bytesOf "#" then .reqFragmentStart
        else .dead
    | .reqFragmentStart =>
        if isUrlChar ch then .reqFragment
        else if ch ∈ bytesOf "?" then .reqFragment
        else if ch ∈ bytesOf "#" then s
        else .dead
    | .reqFragment => if isUrlChar ch then s else if ch ∈ bytesOf "?#" then s else .dead
    | _ => .dead

def firstMethod (ch : UInt8) : Option HttpMethod :=
  ((bytesOf "ACDFGHLMNOPRSTU").zip
    [.announce, .connect, .delete, .flush, .get, .head, .lock, .mkcol, .notify, .options, .post,
      .report, .subscribe, .trace, .unlock]).lookup ch

def startReq (p : HttpParser) (ch : UInt8) : Reaction :=
  if ch = cr ∨ ch = lf then .go p []
  else
    let p := { p with flags := .none, contentLength := ullongMax }
    if ¬ isAlpha ch then .fail p .invalidMethod
    else
      match firstMethod ch with
      | none => .fail { p with method := .delete, index := 1 } .invalidMethod
      | some method => .go { p with method := method, index := 1, state := .reqMethod } []

/-- The method that replaces the guess when a letter does not match it.  Where the
source leaves the guess as it is, the result is the guess; the error tells whether
`HPE_INVALID_METHOD` is set before `goto error`. -/
def nextMethod (method : HttpMethod) (index : ℕ) (ch : UInt8) : Except Bool HttpMethod :=
  let is (text : String) : Prop := ch ∈ bytesOf text
  match method with
  | .connect =>
      if index = 1 ∧ is "H" then .ok .checkout
      else if index = 2 ∧ is "P" then .ok .copy
      else .error false
  | .mkcol =>
      if index = 1 ∧ is "O" then .ok .move
      else if index = 1 ∧ is "E" then .ok .merge
      else if index = 1 ∧ is "-" then .ok .msearch
      else if index = 2 ∧ is "A" then .ok .mkactivity
      else .error false
  | .subscribe => if index = 1 ∧ is "E" then .ok .search else .error false
  | .trace => if index = 1 ∧ is "E" then .ok .teardown else .error false
  | _ =>
      if index = 2 ∧ method = .delete ∧ is "S" then .ok .describe
      else if index = 3 ∧ method = .get ∧ is "_" then .ok .getParameter
      else if index = 1 ∧ method = .post then
        if is "R" then .ok .propfind
        else if is "U" then .ok .put
        else if is "A" then .ok .patch
        else if is "L" then .ok .play
        else .error false
      else if index = 2 then
        match method with
        | .put => .ok (if is "R" then .purge else .put)
        | .patch => .ok (if is "U" then .pause else .patch)
        | .report =>
            if is "D" then .ok .redirect else if is "C" then .ok .record else .error false
        | .search => .ok (if is "T" then .setup else .search)
        | .unlock => .ok (if is "S" then .unsubscribe else .unlock)
        | _ => .error false
      else if index = 3 ∧ method = .setup ∧ is "_" then .ok .setParameter
      else if index = 4 ∧ method = .propfind ∧ is "P" then .ok .proppatch
      else .error true

def reqMethod (p : HttpParser) (ch : UInt8) : Reaction :=
  if ch = 0 then .fail p .invalidMethod
  else if ch = sp ∧ charAt p.method.str p.index = 0 then
    .go { p with state := .reqSpacesBeforeUrl, index := p.index + 1 } []
  else if ch = charAt p.method.str p.index then .go { p with index := p.index + 1 } []
  else
    match nextMethod p.method p.index ch with
    | .error invalid => .fail p (if invalid then .invalidMethod else .unknown)
    | .ok method => .go { p with method := method, index := p.index + 1 } []

/-- The URL states hand the byte to `parse_url_char`. -/
def urlChar (p : HttpParser) (from_ : ParserState) (ch : UInt8) (actions : List Action) : Reaction :=
  let p := { p with state := parseUrlChar from_ ch }
  if p.state = .dead then .fail p .invalidUrl else .go p actions

def reqSpacesBeforeUrl (p : HttpParser) (ch : UInt8) : Reaction :=
  if ch = sp then .go p []
  else
    urlChar p (if p.method = .connect then .reqServerStart else p.state) ch [.mark .url]

def reqSchema (p : HttpParser) (ch : UInt8) : Reaction :=
  if ch = sp ∨ ch = cr ∨ ch = lf then .fail p .invalidUrl else urlChar p p.state ch []

def reqUrl (p : HttpParser) (ch : UInt8) : Reaction :=
  if ch = sp then .go { p with state := .reqHttpStart } [.data .url]
  else if ch = cr ∨ ch = lf then
    .go
      { p with
        httpMajor := 0
        httpMinor := 9
        state := if ch = cr then .reqLineAlmostDone else .headerFieldStart } [.data .url]
  else urlChar p p.state ch []

def reqHttpStart (p : HttpParser) (ch : UInt8) : Reaction :=
  if ch ∈ bytesOf "HR" then .go { p with state := .reqHttpH } []
  else if ch = sp then .go p []
  else .fail p .invalidConstant

def reqFirstHttpMajor (p : HttpParser) (ch : UInt8) : Reaction :=
  if ch < 49 ∨ 57 < ch then .fail p .invalidVersion
  else .go { p with httpMajor := ch.toNat - 48, state := .reqHttpMajor } []

def reqHttpMajor (p : HttpParser) (ch : UInt8) : Reaction :=
  if ch ∈ bytesOf "." then .go { p with state := .reqFirstHttpMinor } []
  else if ¬ isNum ch then .fail p .invalidVersion
  else
    let p := { p with httpMajor := p.httpMajor * 10 + (ch.toNat - 48) }
    if 999 < p.httpMajor then .fail p .invalidVersion else .go p []

def reqFirstHttpMinor (p : HttpParser) (ch : UInt8) : Reaction :=
  if ¬ isNum ch then .fail p .invalidVersion
  else .go { p with httpMinor := ch.toNat - 48, state := .reqHttpMinor } []

def reqHttpMinor (p : HttpParser) (ch : UInt8) : Reaction :=
  if ch = cr then .go { p with state := .reqLineAlmostDone } []
  else if ch = lf then .go { p with state := .headerFieldStart } []
  else if ¬ isNum ch then .fail p .invalidVersion
  else
    let p := { p with httpMinor := p.httpMinor * 10 + (ch.toNat - 48) }
    if 999 < p.httpMinor then .fail p .invalidVersion else .go p []

def reqLineAlmostDone (p : HttpParser) (ch : UInt8) : Reaction :=
  if ch ≠ lf then .fail p .lfExpected else .go { p with state := .headerFieldStart } []

/-! ## Headers -/

/-- `s_headers_done`; `NEW_MESSAGE()` is `s_start_req`. -/
def headersDone (p : HttpParser) : Reaction :=
  let p := { p with nread := 0 }
  let newMessage := { p with state := .startReq }
  if p.upgrade then ⟨newMessage, [.messageComplete], 0, .leave⟩
  else if p.flags.skipbody then .go newMessage [.messageComplete]
  else if p.flags.chunked then .go { p with state := .chunkSizeStart } []
  else if p.contentLength = 0 then .go newMessage [.messageComplete]
  else if p.contentLength ≠ ullongMax then .go { p with state := .bodyIdentity } []
  else .go newMessage [.messageComplete]

def headersAlmostDone (p : HttpParser) : Reaction :=
  if p.flags.trailing then .go { p with state := .startReq } [.messageComplete]
  else
    headersDone { p with
      state := .headersDone
      upgrade := p.flags.upgrade || p.method = .connect }

def firstHeaderState (c : UInt8) : HeaderState :=
  if c ∈ bytesOf "c" then .c
  else if c ∈ bytesOf "p" then .matchingProxyConnection
  else if c ∈ bytesOf "t" then .matchingTransferEncoding
  else if c ∈ bytesOf "u" then .matchingUpgrade
  else .general

def headerFieldStart (p : HttpParser) (ch : UInt8) : Reaction :=
  if ch = cr then .go { p with state := .headersAlmostDone } []
  else if ch = lf then headersAlmostDone { p with state := .headersAlmostDone }
  else if token ch = 0 then .fail p .invalidHeaderToken
  else
    .go { p with index := 0, state := .headerField, headerState := firstHeaderState (token ch) }
      [.mark .headerField]

/-- One more letter against a keyword: `index` counts the letters before it, and
the last letter turns `matching` into `found`. -/
def matchWord (word : String) (matching found : HeaderState) (index : ℕ) (c : UInt8) :
    HeaderState :=
  if (bytesOf word).length < index ∨ c ≠ (bytesOf word).getD index 0 then .general
  else if index + 1 = (bytesOf word).length then found
  else matching

/-- The header state and index after one more letter of a field name; `none` is
the unknown header state. -/
def fieldLetter (hs : HeaderState) (index : ℕ) (c ch : UInt8) : Option (HeaderState × ℕ) :=
  match hs with
  | .general => some (.general, index)
  | .c => some (if c ∈ bytesOf "o" then .co else .general, index + 1)
  | .co => some (if c ∈ bytesOf "n" then .con else .general, index + 1)
  | .con =>
      some (if c ∈ bytesOf "n" then .matchingConnection
        else if c ∈ bytesOf "t" then .matchingContentLength
        else .general, index + 1)
  | .matchingConnection => some (matchWord "connection" hs .connection (index + 1) c, index + 1)
  | .matchingProxyConnection =>
      some (matchWord "proxy-connection" hs .connection (index + 1) c, index + 1)
  | .matchingContentLength =>
      some (matchWord "content-length" hs .contentLength (index + 1) c, index + 1)
  | .matchingTransferEncoding =>
      some (matchWord "transfer-encoding" hs .transferEncoding (index + 1) c, index + 1)
  | .matchingUpgrade => some (matchWord "upgrade" hs .upgrade (index + 1) c, index + 1)
  | .connection | .contentLength | .transferEncoding | .upgrade =>
      some (if ch ≠ sp then .general else hs, index)
  | _ => none

def headerField (p : HttpParser) (ch : UInt8) : Reaction :=
  if token ch ≠ 0 then
    match fieldLetter p.headerState p.index (token ch) ch with
    | none => ⟨p, [], 0, .abort⟩
    | some (hs, index) => .go { p with headerState := hs, index := index } []
  else if ch ∈ bytesOf ":" then .go { p with state := .headerValueStart } [.data .headerField]
  else if ch = cr then .go { p with state := .headerAlmostDone } [.data .headerField]
  else if ch = lf then .go { p with state := .headerFieldStart } [.data .headerField]
  else .fail p .invalidHeaderToken

def headerValueStart (p : HttpParser) (ch : UInt8) : Reaction :=
  if ch = sp ∨ ch = ht then .go p []
  else
    let p := { p with state := .headerValue, index := 0 }
    if ch = cr then
      .go { p with headerState := .general, state := .headerAlmostDone }
        [.mark .headerValue, .data .headerValue]
    else if ch = lf then
      .go { p with state := .headerFieldStart } [.mark .headerValue, .data .headerValue]
    else
      let c := lower ch
      match p.headerState with
      | .upgrade =>
          .go { p with flags := { p.flags with upgrade := true }, headerState := .general }
            [.mark .headerValue]
      | .transferEncoding =>
          .go { p with
            headerState :=
              if c ∈ bytesOf "c" then .matchingTransferEncodingChunked else .general }
            [.mark .headerValue]
      | .contentLength =>
          if ¬ isNum ch then .fail p .invalidContentLength
          else .go { p with contentLength := ch.toNat - 48 } [.mark .headerValue]
      | .connection =>
          .go { p with
            headerState :=
              if c ∈ bytesOf "k" then .matchingConnectionKeepAlive
              else if c ∈ bytesOf "c" then .matchingConnectionClose
              else .general }
            [.mark .headerValue]
      | _ => .go { p with headerState := .general } [.mark .headerValue]

/-- One more digit in unsigned 64-bit arithmetic, `none` on overflow. -/
def addDigit (base value digit : ℕ) : Option ℕ :=
  let t := (value * base + digit) % 2 ^ 64
  if t < value ∨ t = ullongMax then none else some t

def headerAlmostDone (p : HttpParser) : HttpParser :=
  { p with
    state := .headerValueLws
    flags :=
      match p.headerState with
      | .connectionKeepAlive => { p.flags with connectionKeepAlive := true }
      | .connectionClose => { p.flags with connectionClose := true }
      | .transferEncodingChunked => { p.flags with chunked := true }
      | _ => p.flags }

def headerValue (p : HttpParser) (ch : UInt8) : Reaction :=
  if ch = cr then .go { p with state := .headerAlmostDone } [.data .headerValue]
  else if ch = lf then
    .go (headerAlmostDone { p with state := .headerAlmostDone }) [.data .headerValue]
  else
    let c := lower ch
    match p.headerState with
    | .general => .go p []
    | .connection | .transferEncoding => ⟨p, [], 0, .abort⟩
    | .contentLength =>
        if ch = sp then .go p []
        else if ¬ isNum ch then .fail p .invalidContentLength
        else
          match addDigit 10 p.contentLength (ch.toNat - 48) with
          | none => .fail p .invalidContentLength
          | some t => .go { p with contentLength := t } []
    | .matchingTransferEncodingChunked =>
        .go { p with
          index := p.index + 1
          headerState :=
            matchWord "chunked" p.headerState .transferEncodingChunked (p.index + 1) c } []
    | .matchingConnectionKeepAlive =>
        .go { p with
          index := p.index + 1
          headerState :=
            matchWord "keep-alive" p.headerState .connectionKeepAlive (p.index + 1) c } []
    | .matchingConnectionClose =>
        .go { p with
          index := p.index + 1
          headerState := matchWord "close" p.headerState .connectionClose (p.index + 1) c } []
    | .transferEncodingChunked | .connectionKeepAlive | .connectionClose =>
        .go { p with headerState := if ch ≠ sp then .general else p.headerState } []
    | _ => .go { p with state := .headerValue, headerState := .general } []

def headerValueLws (p : HttpParser) (ch : UInt8) : Reaction :=
  if ch = sp ∨ ch = ht then .go { p with state := .headerValueStart } []
  else headerFieldStart { p with state := .headerFieldStart } ch

/-! ## Body -/

/-- `s_body_identity`, with `available` bytes left in the segment.  A 64-bit length
other than `ULLONG_MAX` is below it. -/
def bodyIdentity (p : HttpParser) (available : ℕ) : Reaction :=
  let toRead := min p.contentLength available
  .check (p.contentLength ≠ 0 && p.contentLength < ullongMax) p <|
    let p := { p with contentLength := p.contentLength - toRead }
    if p.contentLength = 0 then
      ⟨{ p with state := .startReq }, [.mark .body, .dataThrough .body, .messageComplete],
        toRead - 1, .next⟩
    else ⟨p, [.mark .body], toRead - 1, .next⟩

def chunkSizeStart (p : HttpParser) (ch : UInt8) : Reaction :=
  .check (p.nread = 1 && p.flags.chunked) p <|
    match unhex ch with
    | none => .fail p .invalidChunkSize
    | some value => .go { p with contentLength := value, state := .chunkSize } []

def chunkSize (p : HttpParser) (ch : UInt8) : Reaction :=
  .check p.flags.chunked p <|
    if ch = cr then .go { p with state := .chunkSizeAlmostDone } []
    else
      match unhex ch with
      | none =>
          if ch ∈ bytesOf "; " then .go { p with state := .chunkParameters } []
          else .fail p .invalidChunkSize
      | some value =>
          match addDigit 16 p.contentLength value with
          | none => .fail p .invalidContentLength
          | some t => .go { p with contentLength := t } []

def chunkParameters (p : HttpParser) (ch : UInt8) : Reaction :=
  .check p.flags.chunked p <|
    if ch = cr then .go { p with state := .chunkSizeAlmostDone } [] else .go p []

def chunkSizeAlmostDone (p : HttpParser) : Reaction :=
  .check p.flags.chunked p <|
    let p := { p with nread := 0 }
    if p.contentLength = 0 then
      .go { p with flags := { p.flags with trailing := true }, state := .headerFieldStart } []
    else .go { p with state := .chunkData } []

def chunkData (p : HttpParser) (available : ℕ) : Reaction :=
  let toRead := min p.contentLength available
  .check (p.flags.chunked && p.contentLength ≠ 0 && p.contentLength < ullongMax) p <|
    let p := { p with contentLength := p.contentLength - toRead }
    if p.contentLength = 0 then
      ⟨{ p with state := .chunkDataAlmostDone }, [.mark .body], toRead - 1, .next⟩
    else ⟨p, [.mark .body], toRead - 1, .next⟩

def chunkDataAlmostDone (p : HttpParser) : Reaction :=
  .check (p.flags.chunked && p.contentLength = 0) p <|
    .go { p with state := .chunkDataDone } [.data .body]

def chunkDataDone (p : HttpParser) : Reaction :=
  .check p.flags.chunked p <| .go { p with nread := 0, state := .chunkSizeStart } []

/-! ## The loop -/

/-- The switch of `http_parser_execute`. -/
def executeByte (p : HttpParser) (ch : UInt8) (available : ℕ) : Reaction :=
  match p.state with
  | .dead => if ch = cr ∨ ch = lf then .go p [] else .fail p .closedConnection
  | .startReq => startReq p ch
  | .reqMethod => reqMethod p ch
  | .reqSpacesBeforeUrl => reqSpacesBeforeUrl p ch
  | .reqSchema | .reqSchemaSlash | .reqSchemaSlashSlash | .reqServerStart => reqSchema p ch
  | .reqServer | .reqServerWithAt | .reqPath | .reqQueryStringStart | .reqQueryString
  | .reqFragmentStart | .reqFragment => reqUrl p ch
  | .reqHttpStart => reqHttpStart p ch
  | .reqHttpH => .go { p with state := .reqHttpHT } []
  | .reqHttpHT => .go { p with state := .reqHttpHTT } []
  | .reqHttpHTT => .go { p with state := .reqHttpHTTP } []
  | .reqHttpHTTP => .go { p with state := .reqFirstHttpMajor } []
  | .reqFirstHttpMajor => reqFirstHttpMajor p ch
  | .reqHttpMajor => reqHttpMajor p ch
  | .reqFirstHttpMinor => reqFirstHttpMinor p ch
  | .reqHttpMinor => reqHttpMinor p ch
  | .reqLineAlmostDone => reqLineAlmostDone p ch
  | .headerFieldStart => headerFieldStart p ch
  | .headerField => headerField p ch
  | .headerValueStart => headerValueStart p ch
  | .headerValue => headerValue p ch
  | .headerValueLws => headerValueLws p ch
  | .headerAlmostDone => .go (headerAlmostDone p) []
  | .headersAlmostDone => headersAlmostDone p
  | .headersDone => headersDone p
  | .chunkSizeStart => chunkSizeStart p ch
  | .chunkSize => chunkSize p ch
  | .chunkParameters => chunkParameters p ch
  | .chunkSizeAlmostDone => chunkSizeAlmostDone p
  | .chunkData => chunkData p available
  | .chunkDataAlmostDone => chunkDataAlmostDone p
  | .chunkDataDone => chunkDataDone p
  | .bodyIdentity => bodyIdentity p available
  | .messageDone => .go { p with state := .startReq } [.messageComplete]

def round (p : HttpParser) (ch : UInt8) (available : ℕ) : Reaction :=
  if parsingHeader p.state then
    let p := { p with nread := p.nread + 1 }
    if httpMaxHeaderSize < p.nread then .fail p .headerOverflow else executeByte p ch available
  else executeByte p ch available

/-- `http_parser_settings`; the data callbacks and `on_message_complete` update
the value behind `parser->data`. -/
structure ParserSettings (ρ : Type) where
  onData : Mark → ρ → Bytes → ρ
  onMessageComplete : ρ → HttpMethod → ρ

structure Loop (ρ : Type) where
  user : ρ
  marks : Mark → Option Bytes

variable {ρ : Type}

/-- `CALLBACK_DATA_`: nothing happens where the mark is not set. -/
def Loop.callback (settings : ParserSettings ρ) (m : Mark) (through : Bytes) (l : Loop ρ) : Loop ρ :=
  match l.marks m with
  | none => l
  | some text =>
      { user := settings.onData m l.user (text ++ through)
        marks := Function.update l.marks m none }

def Loop.act (settings : ParserSettings ρ) (method : HttpMethod) (taken : Bytes) (l : Loop ρ) :
    Action → Loop ρ
  | .mark m =>
      match l.marks m with
      | none => { l with marks := Function.update l.marks m (some []) }
      | some _ => l
  | .data m => l.callback settings m []
  | .dataThrough m => l.callback settings m taken
  | .messageComplete => { l with user := settings.onMessageComplete l.user method }

/-- The end of a round: the text behind every mark still set grows by the bytes
taken. -/
def Loop.advance (taken : Bytes) (l : Loop ρ) : Loop ρ :=
  { l with marks := fun m => (l.marks m).map (· ++ taken) }

/-- The callbacks for marks left over at the end of the segment; at most one of
them may be set. -/
def Loop.finish (settings : ParserSettings ρ) (l : Loop ρ) : Option ρ :=
  if ([Mark.headerField, .headerValue, .url, .body].filter fun m => (l.marks m).isSome).length ≤ 1
  then
    some ((((l.callback settings .headerField []).callback settings .headerValue []).callback
      settings .url []).callback settings .body []).user
  else none

/-- The `for` loop, at most `fuel` rounds; `none` is a failed assertion. -/
def executeLoop (settings : ParserSettings ρ) :
    ℕ → Bytes → HttpParser → Loop ρ → Option (HttpParser × ρ)
  | _, [], p, l => (l.finish settings).map fun user => (p, user)
  | 0, _ :: _, p, l => some (p, l.user)
  | fuel + 1, ch :: rest, p, l =>
      let reaction := round p ch (rest.length + 1)
      let taken := ch :: rest.take reaction.skip
      let acted := reaction.actions.foldl (Loop.act settings reaction.parser.method taken) l
      match reaction.flow with
      | .abort => none
      | .leave => some (reaction.parser, acted.user)
      | .next =>
          executeLoop settings fuel (rest.drop reaction.skip) reaction.parser (acted.advance taken)

def inUrl : ParserState → Bool
  | .reqPath | .reqSchema | .reqSchemaSlash | .reqSchemaSlashSlash | .reqServerStart | .reqServer
  | .reqServerWithAt | .reqQueryStringStart | .reqQueryString | .reqFragmentStart | .reqFragment =>
      true
  | _ => false

def entryMarks (state : ParserState) : Mark → Option Bytes
  | .headerField => if state = .headerField then some [] else none
  | .headerValue => if state = .headerValue then some [] else none
  | .url => if inUrl state then some [] else none
  | .body => none

/-- `http_parser_execute`.  An empty segment reports the end of the stream.  Every
round takes at least one byte, so the length of the segment is fuel enough. -/
def httpParserExecute (settings : ParserSettings ρ) (p : HttpParser) (user : ρ) (data : Bytes) :
    Option (HttpParser × ρ) :=
  if p.httpErrno ≠ .ok then some (p, user)
  else if data = [] then
    if p.state = .dead ∨ p.state = .startReq then some (p, user)
    else some ({ p with httpErrno := .invalidEofState }, user)
  else executeLoop settings data.length data p ⟨user, entryMarks p.state⟩

end AirCast.Http
