import AirCast.Http.HttpRequestLine
import AirCast.Http.HttpRequest
import AirCast.Lib.Segmentation

/-! # A request is reassembled from its segments

Header fields, header values and the body grow by the pieces handed out, so they
come out whole however the request is cut.  The URL gets a newline between two
pieces and is read up to the first one: it comes out whole exactly when no
segment ends strictly inside it. -/

set_option autoImplicit false

namespace AirCast.Http

/-! ## Pieces that add up -/

theorem ofBytes_append {first : Bytes} (second : Bytes) (clean : ∀ c ∈ first, c ≠ 0) :
    (CString.ofBytes (first ++ second)).chars = first ++ (CString.ofBytes second).chars := by
  simp only [CString.ofBytes]
  exact List.takeWhile_append_of_pos fun c member => by simpa using clean c member

theorem strncat_strncat (s : CString) {first : Bytes} (second : Bytes)
    (clean : ∀ c ∈ first, c ≠ 0) :
    strncat (strncat s first) second = strncat s (first ++ second) := by
  apply CString.ext
  simp only [strncat, ofBytes_append second clean,
    CString.ofBytes_chars fun zero => clean 0 zero rfl, List.append_assoc]

theorem appendHeader_appendHeader (r : RequestData) {first : Bytes} (second : Bytes)
    (clean : ∀ c ∈ first, c ≠ 0) :
    appendHeader (appendHeader r first) second = appendHeader r (first ++ second) := by
  unfold appendHeader
  simp only [RequestData.mk.injEq, List.set_set, and_true, true_and]
  by_cases inside : r.headersIndex < r.headers.length
  · have stored : (r.headers.set r.headersIndex (some (strncat
        ((r.headers.getD r.headersIndex none).getD (.lit "")) first))).getD r.headersIndex none =
        some (strncat ((r.headers.getD r.headersIndex none).getD (.lit "")) first) := by
      simp [List.getD_eq_getElem?_getD, inside]
    rw [stored, Option.getD_some, strncat_strncat _ _ clean]
  · rw [List.set_eq_of_length_le (by omega), List.set_eq_of_length_le (by omega)]

theorem openField_open (r : RequestData) (text : Bytes) :
    openField (appendHeader (openField r) text) = appendHeader (openField r) text := by
  have even : (openField r).headersIndex % 2 ≠ 1 := by
    unfold openField
    dsimp only
    split
    · split
      · dsimp only
        omega
      · dsimp only
        omega
    · split
      · dsimp only
        omega
      · omega
  have allocated : (openField r).headersIndex ≠ (openField r).headers.length := by
    unfold openField
    dsimp only
    split <;> split <;> simp_all
  have kept : (appendHeader (openField r) text).headersIndex = (openField r).headersIndex := rfl
  have length : (appendHeader (openField r) text).headers.length = (openField r).headers.length := by
    simp [appendHeader]
  rw [openField]
  simp only [kept, length, if_neg even, if_neg allocated]

theorem onHeaderField_append (r : RequestData) {first : Bytes} (second : Bytes)
    (clean : ∀ c ∈ first, c ≠ 0) :
    onHeaderField (onHeaderField r first) second = onHeaderField r (first ++ second) := by
  simp only [onHeaderField, openField_open, appendHeader_appendHeader _ second clean]

theorem openValue_open (r : RequestData) (text : Bytes) :
    openValue (appendHeader (openValue r) text) = appendHeader (openValue r) text := by
  have odd : (openValue r).headersIndex % 2 ≠ 0 := by
    unfold openValue
    split
    · dsimp only
      omega
    · omega
  have kept : (appendHeader (openValue r) text).headersIndex = (openValue r).headersIndex := rfl
  rw [openValue]
  simp only [kept, if_neg odd]

theorem onHeaderValue_append (r : RequestData) {first : Bytes} (second : Bytes)
    (clean : ∀ c ∈ first, c ≠ 0) :
    onHeaderValue (onHeaderValue r first) second = onHeaderValue r (first ++ second) := by
  simp only [onHeaderValue, openValue_open, appendHeader_appendHeader _ second clean]

theorem onBody_append (r : RequestData) (first second : Bytes) :
    onBody (onBody r first) second = onBody r (first ++ second) := by
  simp [onBody]

/-! ## Everything but the URL -/

def noUrlSettings : ParserSettings RequestData where
  onData
    | .url => fun r _ => r
    | .headerField => onHeaderField
    | .headerValue => onHeaderValue
    | .body => onBody
  onMessageComplete := onMessageComplete

def forgetUrl (r : RequestData) : RequestData := { r with url := none }

theorem noUrl_additive : Additive noUrlSettings (· ≠ 0) where
  head := by
    intro m r first second clean
    cases m with
    | url => rfl
    | headerField => exact onHeaderField_append r second clean
    | headerValue => exact onHeaderValue_append r second clean
    | body => exact onBody_append r first second
  body := onBody_append

theorem forgetUrl_commutes : Commutes requestSettings noUrlSettings forgetUrl where
  data := by
    intro m r text
    cases m with
    | url =>
        simp only [requestSettings, noUrlSettings, onUrl, forgetUrl]
        split
        · rfl
        · split <;> rfl
    | headerField =>
        simp only [requestSettings, noUrlSettings, onHeaderField, openField, forgetUrl, appendHeader]
        split <;> split <;> rfl
    | headerValue =>
        simp only [requestSettings, noUrlSettings, onHeaderValue, openValue, forgetUrl, appendHeader]
        split <;> rfl
    | body => rfl
  complete := fun _ _ => rfl

/-! ## The first piece of the URL -/

def urlPieces : ParserSettings (List Bytes) where
  onData m pieces text := if m = .url then pieces ++ [text] else pieces
  onMessageComplete pieces _ := pieces

/-- The string at `url` after one more piece. -/
def pushUrl (url : Option CString) (text : Bytes) : Option CString :=
  match url with
  | none => some (CString.ofBytes text)
  | some url =>
      if url.strlen = 0 then some (CString.ofBytes text)
      else some (strncat (strncat url newline.chars) text)

def urlSettings : ParserSettings (Option CString) where
  onData m url text := if m = .url then pushUrl url text else url
  onMessageComplete url _ := url

theorem url_commutes : Commutes requestSettings urlSettings RequestData.url where
  data := by
    intro m r text
    cases m with
    | url =>
        cases known : r.url with
        | none => simp only [requestSettings, urlSettings, onUrl, pushUrl, known, if_true]
        | some url =>
            simp only [requestSettings, urlSettings, onUrl, pushUrl, known, if_true]
            split <;> rfl
    | headerField =>
        simp only [requestSettings, urlSettings, onHeaderField, openField, appendHeader]
        split <;> split <;> rfl
    | headerValue =>
        simp only [requestSettings, urlSettings, onHeaderValue, openValue, appendHeader]
        split <;> rfl
    | body => rfl
  complete := fun _ _ => rfl

theorem pieces_commute : Commutes urlPieces urlSettings (List.foldl pushUrl none) where
  data := by
    intro m pieces text
    simp only [urlPieces, urlSettings]
    split
    · rw [List.foldl_append]
      rfl
    · rfl
  complete := fun _ _ => rfl

theorem foldl_pushUrl {first : Bytes} (nonempty : first ≠ []) (clean : ∀ c ∈ first, c ≠ 0)
    (more : List Bytes) :
    ∃ url tail, (first :: more).foldl pushUrl none = some url ∧ url.chars = first ++ tail ∧
      ∀ c ∈ tail.head?, c = lf := by
  have step : ∀ (pieces : List Bytes) (url : CString) (tail : Bytes),
      url.chars = first ++ tail → (∀ c ∈ tail.head?, c = lf) →
        ∃ final rest, pieces.foldl pushUrl (some url) = some final ∧
          final.chars = first ++ rest ∧ ∀ c ∈ rest.head?, c = lf := by
    intro pieces
    induction pieces with
    | nil => intro url tail chars starts; exact ⟨url, tail, rfl, chars, starts⟩
    | cons piece rest ih =>
        intro url tail chars starts
        have long : url.strlen ≠ 0 := by
          simp only [CString.strlen, chars, List.length_append]
          have := List.length_pos_iff.mpr nonempty
          omega
        simp only [List.foldl_cons, pushUrl, if_neg long]
        refine ih _ (tail ++ (lf :: (CString.ofBytes piece).chars)) ?_ ?_
        · have line : (CString.ofBytes newline.chars).chars = [lf] := by decide
          simp [strncat, chars, line]
        · cases tail with
          | nil => simp
          | cons c _ => simpa using starts
  refine step more (CString.ofBytes first) [] ?_ (by simp)
  rw [CString.ofBytes_chars fun zero => clean 0 zero rfl, List.append_nil]

theorem strtok_line {first tail : Bytes} (nonempty : first ≠ []) (line : ∀ c ∈ first, c ≠ lf)
    (starts : ∀ c ∈ tail.head?, c = lf) : strtok lf (first ++ tail) = some (first, tail.drop 1) := by
  obtain ⟨c, rest, rfl⟩ := List.exists_cons_of_ne_nil nonempty
  have head : c ≠ lf := line c List.mem_cons_self
  have kept : (c :: rest ++ tail).dropWhile (· = lf) = c :: rest ++ tail := by
    simp [head]
  have plain : ∀ d ∈ c :: rest, decide (d ≠ lf) = true := fun d member => by
    simpa using line d member
  have token : (c :: rest ++ tail).takeWhile (· ≠ lf) = c :: rest := by
    rw [List.takeWhile_append_of_pos plain]
    cases tail with
    | nil => simp
    | cons d _ => simp [starts d (by simp)]
  have behind : (c :: rest ++ tail).dropWhile (· ≠ lf) = tail := by
    rw [List.dropWhile_append_of_pos plain]
    cases tail with
    | nil => rfl
    | cons d _ => simp [starts d (by simp)]
  simp only [List.cons_append] at kept token behind ⊢
  simp only [strtok, kept, token, behind]

theorem strtok_first {first tail : Bytes} (nonempty : first ≠ []) (line : ∀ c ∈ first, c ≠ lf)
    (starts : ∀ c ∈ tail.head?, c = lf) : strtokNth lf 0 (first ++ tail) = some first := by
  rw [strtokNth, strtok_line nonempty line starts, Option.map_some]

/-! ## The segment in which the URL starts -/

theorem glide_keeps (bytes : Bytes) :
    ∀ p q : HttpParser, glide bytes p = some q →
      markOf q.state = markOf p.state ∧ q.httpErrno = p.httpErrno := by
  induction bytes with
  | nil =>
      intro p q glides
      cases Option.some.inj glides
      exact ⟨rfl, rfl⟩
  | cons ch rest ih =>
      intro p q glides
      simp only [glide] at glides
      split at glides
      · rename_i quiet
        obtain ⟨flow, actions, -, -⟩ := quiet
        obtain ⟨mark, errno⟩ := ih _ q glides
        have shape := round_shape p ch 1
        generalize round p ch 1 = reaction at shape flow actions mark errno
        cases shape <;> simp only [Reaction.go, Reaction.fail, reduceCtorEq, List.cons_ne_nil]
          at flow actions mark errno
        case quiet t kept _ same => exact ⟨mark.trans same, errno.trans kept⟩
      · simp at glides

section Loops

variable {ρ : Type} (settings : ParserSettings ρ)

theorem execute_glide {p q : HttpParser} {first : Bytes} (rest : Bytes) (user : ρ)
    (ok : p.httpErrno = .ok) (unmarked : markOf p.state = none) (nonempty : first ++ rest ≠ [])
    (glides : glide first p = some q) :
    httpParserExecute settings p user (first ++ rest) =
      executeLoop settings rest.length rest q ⟨user, clear⟩ := by
  have fine : ¬ p.httpErrno ≠ .ok := not_not.mpr ok
  have marks : entryMarks p.state = clear := by rw [entryMarks_eq, unmarked]
  simp only [httpParserExecute, if_neg fine, if_neg nonempty, marks, List.length_append]
  rw [glide_loop settings rest rest.length first p q _ glides, advance_clear]

theorem executeAll_glide (user : ρ) :
    ∀ (segments : List Bytes) (p q : HttpParser), p.httpErrno = .ok → markOf p.state = none →
      (∀ s ∈ segments, s ≠ []) → glide segments.flatten p = some q →
        executeAll settings p user segments = some (q, user) := by
  intro segments
  induction segments with
  | nil =>
      intro p q _ _ _ glides
      cases Option.some.inj glides
      rfl
  | cons data rest ih =>
      intro p q ok unmarked nonempty glides
      rw [List.flatten_cons, glide_append] at glides
      obtain ⟨t, first, others⟩ := Option.bind_eq_some_iff.mp glides
      obtain ⟨mark, errno⟩ := glide_keeps data p t first
      have started : data ++ [] ≠ [] := by
        simpa using nonempty data List.mem_cons_self
      have segment := execute_glide settings [] user ok unmarked started first
      rw [List.append_nil] at segment
      simp only [executeAll, segment, executeLoop, finish_clear, List.length_nil]
      exact ih t q (errno.trans ok) (mark.trans unmarked)
        (fun s member => nonempty s (List.mem_cons_of_mem _ member)) others

theorem executeAll_append (second : List Bytes) :
    ∀ (first : List Bytes) (p : HttpParser) (user : ρ),
      executeAll settings p user (first ++ second) =
        (executeAll settings p user first).bind fun out =>
          executeAll settings out.1 out.2 second := by
  intro first
  induction first with
  | nil => intro p user; rfl
  | cons data rest ih =>
      intro p user
      simp only [List.cons_append, executeAll]
      cases httpParserExecute settings p user data with
      | none => rfl
      | some out => exact ih out.1 out.2

end Loops

/-- How the parser goes through a request line: up to the URL, over its first byte
and the others, to the byte behind it. -/
structure UrlRun (lead : Bytes) (u : UInt8) (tail : Bytes) (c : UInt8) where
  before : HttpParser
  inside : HttpParser
  last : HttpParser
  after : HttpParser
  leads : glide lead httpParserInit = some before
  starts : round before u 1 = .go inside [.mark .url]
  glides : glide tail inside = some last
  stops : round last c 1 = .go after [.data .url]
  notBefore : inBody before.state = false
  notLast : inBody last.state = false

theorem pieces_keep (v : Bytes) : Commutes urlPieces urlPieces (v :: ·) where
  data := by
    intro m pieces text
    simp only [urlPieces]
    split <;> rfl
  complete := fun _ _ => rfl

section Pieces

variable {lead tail rest : Bytes} {u c : UInt8} (run : UrlRun lead u tail c)

include run

/-- The segment hands out the URL up to its own end. -/
theorem loop_url {segment more : Bytes} (nonempty : segment ≠ [])
    (text : segment ++ more = u :: tail ++ c :: rest) {q : HttpParser} {pieces : List Bytes}
    (done : executeLoop urlPieces segment.length segment run.before ⟨[], clear⟩ =
      some (q, pieces)) :
    ∃ later, pieces = (u :: tail).take segment.length :: later := by
  obtain ⟨first, part, rfl⟩ := List.exists_cons_of_ne_nil nonempty
  simp only [List.cons_append, List.cons.injEq] at text
  obtain ⟨rfl, text⟩ := text
  have entered : executeLoop urlPieces (first :: part).length (first :: part) run.before ⟨[], clear⟩ =
      executeLoop urlPieces part.length part run.inside ⟨[], only .url [first]⟩ := by
    simp only [List.length_cons, executeLoop, round_one run.notBefore first (part.length + 1),
      run.starts, Reaction.go, List.foldl_cons, List.foldl_nil, act_mark_clear, List.take_zero,
      List.drop_zero, advance_only, List.nil_append]
  rw [entered] at done
  rcases List.append_eq_append_iff.mp text with ⟨y, rfl, -⟩ | ⟨y, rfl, behind⟩
  · -- the segment ends inside the URL or right behind it
    obtain ⟨t, glides, -⟩ := Option.bind_eq_some_iff.mp ((glide_append y part run.inside).symm.trans
      run.glides)
    have loop := glide_loop urlPieces [] 0 part run.inside t ⟨[], only .url [first]⟩ glides
    rw [List.append_nil, Nat.add_zero] at loop
    rw [loop, advance_only] at done
    simp only [executeLoop, finish_only, Option.map_some, Option.some.injEq, Prod.mk.injEq] at done
    refine ⟨[], ?_⟩
    rw [← done.2]
    simp [urlPieces]
  · cases y with
    | nil =>
        -- as before: the URL is the rest of the segment
        have loop := glide_loop urlPieces [] 0 tail run.inside run.last ⟨[], only .url [first]⟩
          run.glides
        rw [List.append_nil, Nat.add_zero] at loop
        rw [List.append_nil, loop, advance_only] at done
        simp only [executeLoop, finish_only, Option.map_some, Option.some.injEq, Prod.mk.injEq] at done
        refine ⟨[], ?_⟩
        rw [← done.2]
        simp [urlPieces]
    | cons d z =>
        simp only [List.cons_append, List.cons.injEq] at behind
        obtain ⟨rfl, -⟩ := behind
        have loop := glide_loop urlPieces (c :: z) (c :: z).length tail run.inside run.last
          ⟨[], only .url [first]⟩ run.glides
        rw [← List.length_append, advance_only] at loop
        have left : executeLoop urlPieces (c :: z).length (c :: z) run.last
            ⟨[], only .url ([first] ++ tail)⟩ =
            executeLoop urlPieces z.length z run.after
              (Loop.map ((first :: tail) :: ·) ⟨[], clear⟩) := by
          simp only [List.length_cons, executeLoop, round_one run.notLast c (z.length + 1),
            run.stops, Reaction.go, List.foldl_cons, List.foldl_nil, Loop.act, callback_only,
            List.take_zero, List.drop_zero, advance_clear, List.append_nil]
          rfl
        rw [loop, left, executeLoop_map _ (pieces_keep (first :: tail))] at done
        obtain ⟨out, -, same⟩ := Option.map_eq_some_iff.mp done
        rw [Prod.mk.injEq] at same
        refine ⟨out.2, ?_⟩
        rw [← same.2]
        simp

/-- The first piece of the URL ends with the segment in which the URL starts. -/
theorem executeAll_url {front : List Bytes} {segment : Bytes} {back : List Bytes}
    (nonempty : ∀ s ∈ front ++ segment :: back, s ≠ [])
    (text : (front ++ segment :: back).flatten = lead ++ (u :: tail ++ c :: rest))
    (opens : front.flatten.length ≤ lead.length)
    (reaches : lead.length < front.flatten.length + segment.length) {q : HttpParser}
    {pieces : List Bytes}
    (done : executeAll urlPieces httpParserInit [] (front ++ segment :: back) = some (q, pieces)) :
    ∃ later, pieces =
      (u :: tail).take (front.flatten.length + segment.length - lead.length) :: later := by
  rw [List.flatten_append, List.flatten_cons] at text
  obtain ⟨gap, rfl⟩ : front.flatten <+: lead :=
    List.prefix_of_prefix_length_le ⟨_, text⟩ ⟨_, rfl⟩ opens
  rw [List.append_assoc, List.append_cancel_left_eq] at text
  rw [List.length_append] at reaches
  obtain ⟨inside, rfl⟩ : gap <+: segment :=
    List.prefix_of_prefix_length_le ⟨_, rfl⟩ ⟨_, text⟩ (by omega)
  rw [List.append_assoc, List.append_cancel_left_eq] at text
  have insideNonempty : inside ≠ [] := by
    rintro rfl
    simp at reaches
  obtain ⟨t, first, second⟩ := Option.bind_eq_some_iff.mp
    ((glide_append gap front.flatten httpParserInit).symm.trans run.leads)
  obtain ⟨mark, errno⟩ := glide_keeps _ _ _ first
  have started := executeAll_glide urlPieces [] front httpParserInit t rfl rfl
    (fun s member => nonempty s (List.mem_append_left _ member)) first
  have entered := execute_glide urlPieces inside [] errno mark (by simp [insideNonempty]) second
  rw [executeAll_append, started, Option.bind_some, executeAll, entered] at done
  obtain ⟨out, loop, others⟩ := Option.bind_eq_some_iff.mp done
  obtain ⟨later, split⟩ := loop_url run insideNonempty text loop
  rw [split, executeAll_map _ (pieces_keep _)] at others
  obtain ⟨final, -, same⟩ := Option.map_eq_some_iff.mp others
  rw [Prod.mk.injEq] at same
  refine ⟨final.2, ?_⟩
  rw [← same.2]
  simp only [List.length_append]
  congr 2
  omega

end Pieces

/-! ## Requests and their segments -/

/-- A request line up to its URL, and the bytes behind the URL. -/
structure RequestText where
  method : HttpMethod
  spaces : ℕ
  url : Bytes
  rest : Bytes

namespace RequestText

def lead (text : RequestText) : Bytes :=
  text.method.str.chars ++ List.replicate (text.spaces + 1) sp

def bytes (text : RequestText) : Bytes := text.lead ++ (text.url ++ text.rest)

end RequestText

/-- One request: the parser accepts its bytes in one call, and the last one completes it. -/
structure WellFormedRequest extends RequestText where
  accepted : HttpRequest
  urlPresent : url ≠ []
  urlPlain : ∀ c ∈ url, ¬ EndsUrl c
  urlEnds : ∃ c behind, rest = c :: behind ∧ EndsUrl c
  accepts : httpRequestAddData httpRequestInit toRequestText.bytes = some accepted
  fine : httpRequestHasError accepted = false
  complete : httpRequestIsComplete accepted = true
  /-- no part in front of it is a request -/
  single : ∀ front behind r, toRequestText.bytes = front ++ behind → behind ≠ [] →
    httpRequestAddData httpRequestInit front = some r → httpRequestIsComplete r = false
  /-- the NUL byte stands in a body only -/
  headText : HeadText (· ≠ 0) toRequestText.bytes httpParserInit

/-- `http_request_add_data` on one segment after the other. -/
def httpRequestAddAll (request : HttpRequest) : List Bytes → Option HttpRequest
  | [] => some request
  | data :: rest => (httpRequestAddData request data).bind fun next => httpRequestAddAll next rest

theorem addAll_executeAll (segments : List Bytes) :
    ∀ request : HttpRequest, httpRequestAddAll request segments =
      (executeAll requestSettings request.parser request.content segments).map fun out =>
        ⟨out.1, out.2⟩ := by
  induction segments with
  | nil => intro request; rfl
  | cons data rest ih =>
      intro request
      simp only [httpRequestAddAll, executeAll, httpRequestAddData]
      cases httpParserExecute requestSettings request.parser request.content data with
      | none => rfl
      | some out => exact ih ⟨out.1, out.2⟩

/-! ## All fields but the URL -/

theorem left_complete {ρ : Type} {settings : ParserSettings ρ} {rest : Bytes} {q : HttpParser}
    {final : ρ} :
    ∀ (data : Bytes) (p : HttpParser) (user : ρ), read settings data p user = .left q final rest →
      ∃ value method, final = settings.onMessageComplete value method := by
  intro data
  induction data with
  | nil => intro p user done; simp [read] at done
  | cons ch tail ih =>
      intro p user done
      have shape := round_shape p ch 1
      simp only [read] at done
      generalize round p ch 1 = reaction at shape done
      cases shape with
      | upgraded t errno outside before after =>
          dsimp only at done
          split at done
          · simp only [Reading.left.injEq] at done
            exact ⟨user, t.method, done.2.1.symm⟩
          · simp at done
      | failed t errno error => simp [Reaction.fail, error] at done
      | aborted t => simp at done
      | _ => exact ih _ _ done

theorem execute_forgets {text : Bytes} {r : HttpRequest}
    (adds : httpRequestAddData httpRequestInit text = some r) :
    httpParserExecute noUrlSettings httpParserInit (forgetUrl httpRequestInit.content) text =
      some (r.parser, forgetUrl r.content) := by
  obtain ⟨out, runs, rfl⟩ := Option.map_eq_some_iff.mp adds
  have same := execute_map forgetUrl forgetUrl_commutes httpRequestInit.parser
    httpRequestInit.content text
  rw [runs] at same
  exact same

theorem execute_remembers {text : Bytes} {q : HttpParser} {value : RequestData}
    (runs : httpParserExecute noUrlSettings httpParserInit (forgetUrl httpRequestInit.content)
      text = some (q, value)) :
    ∃ r, httpRequestAddData httpRequestInit text = some r ∧ forgetUrl r.content = value := by
  have same := execute_map forgetUrl forgetUrl_commutes httpRequestInit.parser
    httpRequestInit.content text
  obtain ⟨out, runs', image⟩ := Option.map_eq_some_iff.mp (same.symm.trans runs)
  rw [Prod.mk.injEq] at image
  refine ⟨⟨out.1, out.2⟩, ?_, image.2⟩
  rw [httpRequestAddData, runs', Option.map_some]

section Reads

variable (request : WellFormedRequest)

theorem init_resumes {ρ : Type} (settings : ParserSettings ρ) (user : ρ) :
    Resumes settings httpParserInit.state user := by
  intro m marked
  simp [httpParserInit, markOf, inUrl] at marked

/-- The bytes of the request are read to their end. -/
theorem request_whole :
    (read noUrlSettings request.bytes httpParserInit (forgetUrl httpRequestInit.content)).Whole
      request.accepted.parser (forgetUrl request.accepted.content) := by
  have runs := execute_forgets request.accepts
  have nonempty : request.bytes ≠ [] := by simp [RequestText.bytes, request.urlPresent]
  have agrees := execute_agrees noUrl_additive httpParserInit (forgetUrl httpRequestInit.content)
    request.bytes rfl nonempty (init_resumes _ _) request.headText
  have fine : request.accepted.parser.httpErrno = .ok := by
    simpa [httpRequestHasError] using request.fine
  rw [runs] at agrees
  cases reading : read noUrlSettings request.bytes httpParserInit
      (forgetUrl httpRequestInit.content) with
  | ended p user =>
      rw [reading] at agrees
      cases Option.some.inj agrees.1
      exact Or.inl rfl
  | left p user rest =>
      rw [reading] at agrees
      cases Option.some.inj agrees.1
      refine Or.inr ?_
      cases rest with
      | nil => rfl
      | cons c behind =>
          -- the message was complete before its last byte
          obtain ⟨front, split, started, reads⟩ := read_left noUrlSettings _ _ _ _ _ _ reading
          have head := request.headText
          rw [split] at head
          have headFront := (headText_append noUrlSettings _ front httpParserInit
            (forgetUrl httpRequestInit.content) head).1
          have early := execute_agrees noUrl_additive httpParserInit
            (forgetUrl httpRequestInit.content) front rfl started (init_resumes _ _) headFront
          rw [reads] at early
          obtain ⟨r, adds, same⟩ := execute_remembers early.1
          obtain ⟨value, method, completed⟩ := left_complete front _ _ reads
          have incomplete := request.single front _ r split (List.cons_ne_nil c behind) adds
          have finished := congrArg RequestData.complete (same.trans completed)
          simp only [forgetUrl, noUrlSettings, onMessageComplete] at finished
          rw [httpRequestIsComplete, finished] at incomplete
          exact absurd incomplete (by decide)
  | failed p =>
      rw [reading] at agrees
      obtain ⟨user, same, error⟩ := agrees
      cases Option.some.inj same
      exact absurd fine error
  | aborted =>
      rw [reading] at agrees
      exact absurd agrees (Option.some_ne_none _)

variable (segments : Segmentation request.bytes)

theorem addAll_forgets :
    ∃ a, httpRequestAddAll httpRequestInit segments.parts = some a ∧
      forgetUrl a.content = forgetUrl request.accepted.content := by
  have whole := request_whole request
  have head := request.headText
  rw [← segments.whole] at whole head
  have runs := executeAll_reads noUrl_additive _ _ segments.parts httpParserInit
    (forgetUrl httpRequestInit.content) rfl (init_resumes _ _) segments.nonempty head whole
  have same := executeAll_map forgetUrl forgetUrl_commutes segments.parts httpRequestInit.parser
    httpRequestInit.content
  obtain ⟨out, runs', image⟩ := Option.map_eq_some_iff.mp (same.symm.trans runs)
  rw [Prod.mk.injEq] at image
  refine ⟨⟨out.1, out.2⟩, ?_, image.2⟩
  rw [addAll_executeAll, runs', Option.map_some]

end Reads

section Urls

variable (request : WellFormedRequest)

theorem url_run {u c : UInt8} {tail behind : Bytes} (url : request.url = u :: tail)
    (rest : request.rest = c :: behind) (ends : EndsUrl c) :
    Nonempty (UrlRun request.lead u tail c) ∧ ∀ d ∈ request.url, d ≠ 0 := by
  have whole := request_whole request
  have plain := request.urlPlain
  rw [url] at plain ⊢
  obtain ⟨started, methods, spacesState⟩ := method_glides request.method
  have line : request.bytes = (request.method.str.chars ++ [sp]) ++
      (List.replicate request.spaces sp ++ (u :: (tail ++ c :: behind))) := by
    simp [RequestText.bytes, RequestText.lead, List.replicate_succ, url, rest]
  rw [line] at whole
  obtain ⟨user, methodReads⟩ := read_glide _ _ _ _ (forgetUrl httpRequestInit.content) methods
  rw [methodReads] at whole
  obtain ⟨before, spaces, state, whole⟩ := spaces_glide _ _ _ _ spacesState whole
  obtain ⟨inside, starts, insideState, nonzero⟩ :=
    url_starts state (plain u List.mem_cons_self) whole
  rw [read_go starts] at whole
  obtain ⟨last, user', glides, lastState, clean, whole⟩ := url_glides _ tail inside _ insideState
    (fun d member => plain d (List.mem_cons_of_mem _ member)) whole
  obtain ⟨after, stops⟩ := url_stops lastState ends whole
  have leads : glide request.lead httpParserInit = some before := by
    have lead : request.lead = (request.method.str.chars ++ [sp]) ++
        List.replicate request.spaces sp := by
      simp [RequestText.lead, List.replicate_succ]
    rw [lead, glide_append, methods, Option.bind_some, spaces]
  refine ⟨⟨⟨before, inside, last, after, leads, starts, glides, stops, ?_, ?_⟩⟩, ?_⟩
  · simp [state, inBody]
  · revert lastState
    cases last.state <;> simp [inUrl, inBody]
  · intro d member
    rcases List.mem_cons.mp member with rfl | member
    · exact nonzero
    · exact clean d member

/-- `http_request_get_url` returns the URL up to the end of the segment in which it starts. -/
theorem getUrl_addAll (segments : Segmentation request.bytes) {front : List Bytes}
    {segment : Bytes} {back : List Bytes} (split : segments.parts = front ++ segment :: back)
    (opens : front.flatten.length ≤ request.lead.length)
    (reaches : request.lead.length < front.flatten.length + segment.length) {a : HttpRequest}
    (adds : httpRequestAddAll httpRequestInit segments.parts = some a) :
    httpRequestGetUrl a 1 = some (some
      (request.url.take (front.flatten.length + segment.length - request.lead.length))) := by
  obtain ⟨c, behind, rest, ends⟩ := request.urlEnds
  obtain ⟨u, tail, url⟩ := List.exists_cons_of_ne_nil request.urlPresent
  obtain ⟨⟨run⟩, nonzero⟩ := url_run request url rest ends
  rw [addAll_executeAll] at adds
  obtain ⟨out, runs, rfl⟩ := Option.map_eq_some_iff.mp adds
  -- the string at `url` is the pieces, and the first of them ends with the segment
  have viaUrl := executeAll_map _ url_commutes segments.parts httpParserInit httpRequestInit.content
  have viaPieces := executeAll_map _ pieces_commute segments.parts httpParserInit []
  rw [show httpRequestInit.parser = httpParserInit from rfl] at runs
  rw [runs, Option.map_some] at viaUrl
  obtain ⟨⟨q, pieces⟩, done, image⟩ := Option.map_eq_some_iff.mp (viaPieces.symm.trans viaUrl)
  rw [Prod.mk.injEq] at image
  have text : (front ++ segment :: back).flatten = request.lead ++ (u :: tail ++ c :: behind) := by
    rw [← split, segments.whole, RequestText.bytes, url, rest]
  obtain ⟨later, first⟩ := executeAll_url run (split ▸ segments.nonempty) text opens reaches
    (split ▸ done)
  rw [← url] at first
  have positive : 0 < front.flatten.length + segment.length - request.lead.length := by omega
  have nonempty : request.url.take
      (front.flatten.length + segment.length - request.lead.length) ≠ [] := by
    rw [ne_eq, List.take_eq_nil_iff, not_or]
    exact ⟨by omega, request.urlPresent⟩
  obtain ⟨string, more, stored, chars, starts⟩ := foldl_pushUrl nonempty
    (fun d member => nonzero d (List.mem_of_mem_take member)) later
  have known : out.2.url = some string := by
    rw [← stored, ← first]
    exact image.2.symm
  have plain : ∀ d ∈ request.url.take
      (front.flatten.length + segment.length - request.lead.length), d ≠ lf := by
    rintro d member rfl
    exact request.urlPlain _ (List.mem_of_mem_take member) (Or.inr (Or.inr rfl))
  simp only [httpRequestGetUrl, known, Option.map_some, chars]
  exact congrArg some (strtok_first nonempty plain starts)

end Urls

/-- What the connection handlers read of the two requests is the same. -/
structure SameRequest (a b : HttpRequest) : Prop where
  complete : httpRequestIsComplete a = httpRequestIsComplete b
  method : httpRequestGetMethod a = httpRequestGetMethod b
  url : httpRequestGetUrl a 1 = httpRequestGetUrl b 1
  header : ∀ name, httpRequestGetHeader a name 1 = httpRequestGetHeader b name 1
  data : httpRequestGetData a = httpRequestGetData b

/-- A request comes out of its segments as it does out of one call, exactly when no
segment ends strictly inside the URL. -/
theorem reassembles_iff_url_uncut (request : WellFormedRequest)
    (segments : Segmentation request.bytes) :
    (∃ a, httpRequestAddAll httpRequestInit segments.parts = some a ∧
        SameRequest a request.accepted) ↔
      ¬ segments.Cuts request.lead.length request.url.length := by
  have urlLength := List.length_pos_iff.mpr request.urlPresent
  obtain ⟨front, segment, back, split, opens, reaches⟩ :=
    segment_at request.lead.length segments.parts (by
      rw [segments.whole, RequestText.bytes, List.length_append, List.length_append]
      omega)
  have inOneCall : httpRequestGetUrl request.accepted 1 = some (some request.url) := by
    have nonempty : request.bytes ≠ [] := by simp [RequestText.bytes, request.urlPresent]
    have single := getUrl_addAll request
      ⟨⟨[request.bytes], by simpa using nonempty⟩, by simp⟩
      (List.nil_append [request.bytes]).symm (by simp)
      (by
        simp only [List.flatten_nil, List.length_nil, RequestText.bytes, List.length_append]
        omega)
      (a := request.accepted) (by simp [httpRequestAddAll, request.accepts])
    rw [single]
    simp [RequestText.bytes]
  obtain ⟨a, adds, same⟩ := addAll_forgets request segments
  have url := getUrl_addAll request segments split opens reaches adds
  rw [cuts_iff segments _ split opens reaches, not_lt]
  constructor
  · rintro ⟨b, adds', view⟩
    cases Option.some.inj (adds.symm.trans adds')
    have agree := view.url
    rw [url, inOneCall, Option.some.injEq, Option.some.injEq, List.take_eq_self_iff] at agree
    exact agree
  · intro beyond
    simp only [forgetUrl, RequestData.mk.injEq, true_and] at same
    obtain ⟨method, headers, -, data, complete⟩ := same
    refine ⟨a, adds, complete, method, ?_, ?_, ?_⟩
    · rw [url, inOneCall, List.take_of_length_le beyond]
    · intro name
      rw [httpRequestGetHeader, httpRequestGetHeader, headers]
    · rw [httpRequestGetData, httpRequestGetData, data]

/-! ## A URL in two segments -/

instance decidableHeadText (text : UInt8 → Prop) [DecidablePred text] :
    ∀ (data : Bytes) (p : HttpParser), Decidable (HeadText text data p)
  | [], _ => isTrue trivial
  | ch :: rest, p =>
      have := decidableHeadText text rest (round p ch 1).parser
      inferInstanceAs (Decidable ((_ → _) ∧ (_ → _)))

theorem single_of_parts {text : RequestText}
    (parts : ∀ n < text.bytes.length, (httpRequestAddData httpRequestInit (text.bytes.take n)).all
      (fun r => httpRequestIsComplete r = false)) (front behind : Bytes) (r : HttpRequest)
    (split : text.bytes = front ++ behind) (more : behind ≠ [])
    (adds : httpRequestAddData httpRequestInit front = some r) : httpRequestIsComplete r = false := by
  have front_eq : text.bytes.take front.length = front := by simp [split]
  have shorter : front.length < text.bytes.length := by
    rw [split, List.length_append]
    have := List.length_pos_iff.mpr more
    omega
  have early := parts front.length shorter
  rw [front_eq, adds] at early
  simpa using early

def infoText : RequestText :=
  ⟨.get, 0, bytesOf "/info", bytesOf " RTSP/1.0\r\nCSeq: 0\r\n\r\n"⟩

theorem infoText_single :
    ∀ n < infoText.bytes.length,
      (httpRequestAddData httpRequestInit (infoText.bytes.take n)).all
        (fun r => httpRequestIsComplete r = false) := by
  decide

def infoRequest : WellFormedRequest where
  toRequestText := infoText
  accepted := (httpRequestAddData httpRequestInit infoText.bytes).get (by decide)
  urlPresent := by decide
  urlPlain := by decide +kernel
  urlEnds := ⟨sp, bytesOf "RTSP/1.0\r\nCSeq: 0\r\n\r\n", by decide, Or.inl rfl⟩
  accepts := (Option.some_get _).symm
  fine := by decide
  complete := by decide
  single := single_of_parts infoText_single
  headText := by decide

/-- `GET /in` and `fo RTSP/1.0 ...` -/
def infoSegments : Segmentation infoRequest.bytes where
  parts := [infoText.bytes.take 7, infoText.bytes.drop 7]
  nonempty := by decide
  whole := by
    rw [List.flatten_cons, List.flatten_cons, List.flatten_nil, List.append_nil]
    exact List.take_append_drop 7 infoText.bytes

theorem infoSegments_lose_url :
    ¬ ∃ a, httpRequestAddAll httpRequestInit infoSegments.parts = some a ∧
      SameRequest a infoRequest.accepted := by
  rintro ⟨a, adds, same⟩
  have url : (httpRequestAddAll httpRequestInit infoSegments.parts).map
      (fun r => httpRequestGetUrl r 1) = some (some (some (bytesOf "/in"))) := by
    decide
  rw [adds, Option.map_some, same.url] at url
  have whole : httpRequestGetUrl infoRequest.accepted 1 = some (some (bytesOf "/info")) := by
    decide
  rw [whole] at url
  exact absurd url (by decide)

end AirCast.Http
