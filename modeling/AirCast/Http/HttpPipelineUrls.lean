import AirCast.Http.HttpPipeline

/-! # The URLs of several requests

One call hands out the URL of each request in one piece.  `on_url` puts a newline between
them, and `http_request_get_url` finds each at its number. -/

set_option autoImplicit false

namespace AirCast.Http

theorem strtokNth_joined :
    ∀ (texts : List Bytes) (index : ℕ), (∀ text ∈ texts, text ≠ [] ∧ ∀ c ∈ text, c ≠ lf) →
      strtokNth lf index ([lf].intercalate texts) = texts[index]? := by
  intro texts
  induction texts with
  | nil => intro index _; cases index <;> rfl
  | cons text rest ih =>
      intro index plain
      obtain ⟨nonempty, line⟩ := plain text List.mem_cons_self
      have others := fun index => ih index fun other member =>
        plain other (List.mem_cons_of_mem _ member)
      obtain ⟨tail, joined, starts, behind⟩ : ∃ tail, [lf].intercalate (text :: rest) = text ++ tail ∧
          (∀ c ∈ tail.head?, c = lf) ∧ tail.drop 1 = [lf].intercalate rest := by
        cases rest with
        | nil => exact ⟨[], by simp, by simp, rfl⟩
        | cons next more =>
            exact ⟨lf :: [lf].intercalate (next :: more), by simp [List.intercalate_cons_cons],
              by simp, rfl⟩
      have token := strtok_line nonempty line starts
      rw [joined]
      cases index with
      | zero => simp [strtokNth, token]
      | succ index =>
          rw [strtokNth, token, Option.bind_some, behind, others]
          rfl

theorem foldl_pushUrl_joined :
    ∀ (texts : List Bytes) (url : CString), url.chars ≠ [] →
      (∀ text ∈ texts, text ≠ [] ∧ ∀ c ∈ text, c ≠ 0) →
        ∃ final, texts.foldl pushUrl (some url) = some final ∧
          final.chars = [lf].intercalate (url.chars :: texts) := by
  intro texts
  induction texts with
  | nil => intro url _ _; exact ⟨url, rfl, by simp⟩
  | cons text rest ih =>
      intro url nonempty clean
      have long : url.strlen ≠ 0 := by simpa [CString.strlen] using nonempty
      have plain : (CString.ofBytes text).chars = text :=
        CString.ofBytes_chars fun zero => (clean text List.mem_cons_self).2 0 zero rfl
      have line : (CString.ofBytes newline.chars).chars = [lf] := by decide
      obtain ⟨final, folded, chars⟩ := ih (strncat (strncat url newline.chars) text)
        (by simp [strncat, nonempty]) fun other member => clean other (List.mem_cons_of_mem _ member)
      refine ⟨final, ?_, ?_⟩
      · simp only [List.foldl_cons, pushUrl, if_neg long]
        exact folded
      · rw [chars]
        simp only [strncat, plain, line]
        cases rest with
        | nil => simp [List.intercalate_cons_cons]
        | cons next more => simp [List.intercalate_cons_cons]

theorem read_glide_unmarked {ρ : Type} (settings : ParserSettings ρ) :
    ∀ (bytes : Bytes) (p q : HttpParser) (user : ρ), glide bytes p = some q →
      markOf p.state = none → read settings bytes p user = .ended q user := by
  intro bytes
  induction bytes with
  | nil =>
      intro p q user glides _
      cases Option.some.inj glides
      rfl
  | cons ch rest ih =>
      intro p q user glides unmarked
      have kept := glide_keeps [ch] p
      simp only [glide] at glides kept
      split at glides
      · rename_i quiet
        rw [if_pos quiet] at kept
        simp only [read, quiet.1, quiet.2.1, absorb, unmarked]
        exact ih _ q user glides ((kept _ rfl).1.trans unmarked)
      · cases glides

theorem read_glide_url :
    ∀ (bytes : Bytes) (p q : HttpParser) (urls : MessageUrls), glide bytes p = some q →
      markOf p.state = some .url →
        read messageUrls bytes p urls = .ended q { urls with current := urls.current ++ bytes } := by
  intro bytes
  induction bytes with
  | nil =>
      intro p q urls glides _
      cases Option.some.inj glides
      simp [read]
  | cons ch rest ih =>
      intro p q urls glides marked
      have kept := glide_keeps [ch] p
      simp only [glide] at glides kept
      split at glides
      · rename_i quiet
        rw [if_pos quiet] at kept
        simp only [read, quiet.1, quiet.2.1, absorb, marked]
        rw [ih _ q _ glides ((kept _ rfl).1.trans marked)]
        simp [messageUrls]
      · cases glides

theorem urls_simulate :
    Simulates messageUrls noUrlSettings fun urls r => urls.done ≠ [] ↔ r.complete = true where
  data := by
    intro m urls r text same
    rw [onData_complete, ← same]
    by_cases url : m = .url <;> simp [messageUrls, url]
  complete := by
    intro urls r method _
    simp [messageUrls, noUrlSettings, onMessageComplete]

section request

variable (request : WellFormedRequest)

/-- Up to the byte behind the URL nothing but the URL is handed out. -/
theorem read_url :
    ∃ (front behind : Bytes) (p : HttpParser), request.bytes = front ++ behind ∧
      p.httpErrno = .ok ∧ pastUrl p.state = true ∧ (∀ c ∈ request.url, c ≠ 0) ∧
        read messageUrls front httpParserInit .none = .ended p ⟨request.url, []⟩ := by
  obtain ⟨c, behind, rest, ends⟩ := request.urlEnds
  obtain ⟨u, tail, url⟩ := List.exists_cons_of_ne_nil request.urlPresent
  obtain ⟨⟨run⟩, nonzero⟩ := url_run request url rest ends
  have okBefore : run.before.httpErrno = .ok := (glide_keeps _ _ _ run.leads).2
  have okInside : run.inside.httpErrno = .ok := by
    have kept : (round run.before u 1).parser.httpErrno = run.before.httpErrno :=
      next_errno (by rw [run.starts]; rfl)
    rw [run.starts] at kept
    exact kept.trans okBefore
  have okLast : run.last.httpErrno = .ok := (glide_keeps _ _ _ run.glides).2.trans okInside
  have okAfter : run.after.httpErrno = .ok := by
    have kept : (round run.last c 1).parser.httpErrno = run.last.httpErrno :=
      next_errno (by rw [run.stops]; rfl)
    rw [run.stops] at kept
    exact kept.trans okLast
  have marked : markOf run.inside.state = some .url := by
    have step := round_urlStep run.before u 1 (by simp [run.starts, Reaction.go])
      (by rw [run.starts]; exact okInside)
    rw [run.starts] at step
    cases step with
    | starts _ next => exact (inUrl_iff _).mp next
    | past _ _ others => exact absurd (others (.mark .url) (by simp [Reaction.go])) (by simp [aside])
  have past : pastUrl run.after.state = true := by
    have step := round_urlStep run.last c 1 (by simp [run.stops, Reaction.go])
      (by rw [run.stops]; exact okAfter)
    rw [run.stops] at step
    cases step with
    | stops _ next => exact next
    | past _ next _ => exact next
  refine ⟨request.lead ++ (u :: (tail ++ [c])), behind, run.after, ?_, okAfter, past, nonzero, ?_⟩
  · simp [RequestText.bytes, url, rest]
  · rw [read_append, read_glide_unmarked _ _ _ _ _ run.leads rfl]
    simp only [Reading.andThen]
    rw [read_go run.starts, read_append, read_glide_url tail _ _ _ run.glides marked]
    simp only [Reading.andThen]
    rw [read_go run.stops, url]
    rfl

theorem read_urls_same (data : Bytes)
    (fits : ∀ t, read noUrlSettings data httpParserInit noContent ≠ .failed t) :
    SameReading (· ≤ ·) (fun urls r => urls.done ≠ [] ↔ r.complete = true)
      (read messageUrls data httpParserInit .none) (read noUrlSettings data httpParserInit noContent) :=
  read_follows countRelation_le urls_simulate data httpParserInit httpParserInit .none noContent
    (Ready.follows ⟨rfl, rfl⟩)
    (by simp [MessageUrls.none, noContent, forgetUrl, httpRequestInit])
    fun t failed => absurd failed (fits t)

theorem read_request_url :
    ∃ q, Ready q ∧ read messageUrls request.bytes httpParserInit .none =
      if request.upgrades then .left q ⟨[], [request.url]⟩ []
      else .ended q ⟨[], [request.url]⟩ := by
  obtain ⟨stands, alone⟩ := read_request request
  have complete := content_complete request
  obtain ⟨front, behind, p, split, ok, past, -, reads⟩ := read_url request
  have later : ∀ part, read messageUrls (front ++ part) httpParserInit .none =
      read messageUrls part p ⟨request.url, []⟩ := by
    intro part
    rw [read_append, reads]
    rfl
  -- in front of its last byte the message is not complete
  have single : ∀ part more t v, behind = part ++ more → more ≠ [] →
      read messageUrls part p ⟨request.url, []⟩ = .ended t v → v.done = [] := by
    intro part more t v parts some_ inside
    have cut : request.bytes = (front ++ part) ++ more := by
      rw [split, parts, List.append_assoc]
    obtain ⟨t', r, reads', incomplete⟩ := read_front request cut some_
    have same := read_urls_same (front ++ part) (by simp [reads'])
    rw [later, inside, reads'] at same
    cases same with
    | ended _ related =>
        rw [incomplete] at related
        simpa using related
  have same := read_urls_same request.bytes (by
    intro t failed
    rw [alone] at failed
    split at failed <;> cases failed)
  rw [alone, split, later] at same
  rw [split, later]
  have value : ∀ q final, (read messageUrls behind p ⟨request.url, []⟩).Whole q final →
      q.httpErrno = .ok → final.done ≠ [] → final = ⟨[], [request.url]⟩ := fun q final whole fine done =>
    (read_behind behind p ok past single whole fine done).1
  generalize read messageUrls behind p ⟨request.url, []⟩ = reading at same value
  by_cases upgrade : request.upgrades = true
  · simp only [upgrade, if_true] at same ⊢
    cases same with
    | left follows related =>
        have fine := follows.1.symm.trans stands.2
        exact ⟨_, ⟨follows.2.1.symm.trans stands.1, fine⟩,
          by rw [value _ _ (.inr rfl) fine (related.mpr complete)]⟩
  · simp only [upgrade, if_false, Bool.false_eq_true] at same ⊢
    cases same with
    | ended follows related =>
        have fine := follows.errno.symm.trans stands.2
        exact ⟨_, ⟨follows.state.symm.trans stands.1, fine⟩,
          by rw [value _ _ (.inl rfl) fine (related.mpr complete)]⟩

end request

def MessageUrls.next (urls : MessageUrls) (request : WellFormedRequest) : MessageUrls :=
  ⟨[], urls.done ++ [request.url]⟩

theorem foldl_next (requests : List WellFormedRequest) (done : List Bytes) :
    requests.foldl MessageUrls.next ⟨[], done⟩ = ⟨[], done ++ requests.map fun r => r.url⟩ := by
  induction requests generalizing done with
  | nil => simp
  | cons request rest ih => simp [MessageUrls.next, ih]

theorem urls_behind (done : List Bytes) :
    Simulates messageUrls messageUrls fun urls seen => seen = ⟨urls.current, done ++ urls.done⟩ where
  data := by
    rintro m urls _ text rfl
    by_cases url : m = .url <;> simp [messageUrls, url]
  complete := by
    rintro urls _ method rfl
    simp [messageUrls]

theorem read_url_behind (request : WellFormedRequest) {p : HttpParser} {urls : MessageUrls}
    (ready : Ready p) (fresh : urls.current = [])
    (fits : ∀ t, read messageUrls request.bytes p urls ≠ .failed t) :
    (urls.next request).current = [] ∧ ∃ q, Ready q ∧ read messageUrls request.bytes p urls =
      if request.upgrades then .left q (urls.next request) []
      else .ended q (urls.next request) := by
  obtain ⟨current, done⟩ := urls
  subst fresh
  refine ⟨rfl, ?_⟩
  have same := read_follows countRelation_le (urls_behind done) request.bytes httpParserInit p
    .none ⟨[], done⟩ ready.follows (by simp [MessageUrls.none]) fun t failed =>
      absurd failed (fits t)
  obtain ⟨t, stands, alone⟩ := read_request_url request
  rw [alone] at same
  generalize read messageUrls request.bytes p ⟨[], done⟩ = reading at same
  by_cases upgrade : request.upgrades = true
  · simp only [upgrade, if_true] at same ⊢
    cases same with
    | left behind related =>
        rw [related]
        exact ⟨_, ⟨behind.2.1.trans stands.1, behind.1.trans stands.2⟩, rfl⟩
  · simp only [upgrade, if_false, Bool.false_eq_true] at same ⊢
    cases same with
    | ended follows related =>
        rw [related]
        exact ⟨_, ⟨follows.state.trans stands.1, follows.errno.trans stands.2⟩, rfl⟩

def silent : ParserSettings Unit := ⟨fun _ _ _ => (), fun _ _ => ()⟩

theorem silent_commutes {ρ : Type} (settings : ParserSettings ρ) :
    Commutes settings silent fun _ => () := ⟨fun _ _ _ => rfl, fun _ _ => rfl⟩

theorem execute_same {ρ σ : Type} {settings : ParserSettings ρ} {others : ParserSettings σ}
    {p : HttpParser} {user : ρ} {seen : σ} {data : Bytes} {q t : HttpParser} {final : ρ} {last : σ}
    (first : httpParserExecute settings p user data = some (q, final))
    (second : httpParserExecute others p seen data = some (t, last)) : q = t := by
  have one := execute_map _ (silent_commutes settings) p user data
  have two := execute_map _ (silent_commutes others) p seen data
  rw [first] at one
  rw [second, one] at two
  exact congrArg Prod.fst (Option.some.inj two)

section requests

variable {request : WellFormedRequest} {requests : List WellFormedRequest} {r : HttpRequest}

theorem url_plain (request : WellFormedRequest) :
    request.url ≠ [] ∧ (∀ c ∈ request.url, c ≠ lf) ∧ ∀ c ∈ request.url, c ≠ 0 := by
  obtain ⟨-, -, -, -, -, -, nonzero, -⟩ := read_url request
  refine ⟨request.urlPresent, ?_, nonzero⟩
  rintro c member rfl
  exact request.urlPlain _ member (.inr (.inr rfl))

theorem parsed_cons (request : WellFormedRequest) (requests : List WellFormedRequest) :
    ∃ more, parsed (request :: requests) = request :: more := by
  rw [parsed]
  split_ifs
  · exact ⟨[], rfl⟩
  · exact ⟨parsed requests, rfl⟩

/-- The call hands out the URLs of the requests that the parser reads. -/
theorem execute_urls (fits : ∀ t, read noUrlSettings (bytesOfAll (request :: requests))
      httpParserInit noContent ≠ .failed t) :
    ∃ q, Ready q ∧
      httpParserExecute messageUrls httpParserInit .none (bytesOfAll (request :: requests)) =
        some (q, ⟨[], (parsed (request :: requests)).map fun other => other.url⟩) := by
  have same := read_urls_same _ fits
  have fits' : ∀ t, read messageUrls (bytesOfAll (request :: requests)) httpParserInit .none ≠
      .failed t := by
    intro t failed
    generalize read noUrlSettings (bytesOfAll (request :: requests)) httpParserInit noContent =
      reading at same fits
    rw [failed] at same
    cases same with
    | failed _ => exact fits _ rfl
  have nonempty : bytesOfAll (request :: requests) ≠ [] := by
    simp [bytesOfAll, bytes_ne_nil]
  have agrees := execute_agrees messageUrls_additive httpParserInit .none
    (bytesOfAll (request :: requests)) rfl nonempty (init_resumes _ _)
    (headText_requests _ _ ⟨rfl, rfl⟩)
  have each : ∀ other ∈ request :: requests, ∀ (p : HttpParser) (urls : MessageUrls), Ready p →
      urls.current = [] → (∀ t, read messageUrls other.bytes p urls ≠ .failed t) → _ :=
    fun other _ _ _ ready fresh fits => read_url_behind other ready fresh fits
  obtain ⟨q, ready, reads⟩ := read_each (request :: requests) httpParserInit .none each
    ⟨rfl, rfl⟩ rfl fits'
  rw [MessageUrls.none, foldl_next, List.nil_append] at reads
  refine ⟨q, ready, ?_⟩
  rcases reads with ended | ⟨rest, left⟩
  · rw [MessageUrls.none, ended] at agrees
    exact agrees.1
  · rw [MessageUrls.none, left] at agrees
    exact agrees.1

/-- `http_request_get_url` finds the URL of each request that the parser reads. -/
theorem getUrl_requests
    (adds : httpRequestAddData httpRequestInit (bytesOfAll (request :: requests)) = some r)
    (fits : ∀ t, read noUrlSettings (bytesOfAll (request :: requests)) httpParserInit noContent ≠
      .failed t) (index : ℕ) :
    httpRequestGetUrl r (index + 1) =
      some ((parsed (request :: requests)).map fun other => other.url)[index]? := by
  obtain ⟨q, ready, urls⟩ := execute_urls fits
  have nonempty : bytesOfAll (request :: requests) ≠ [] := by
    simp [bytesOfAll, bytes_ne_nil]
  obtain ⟨out, runs, rfl⟩ := Option.map_eq_some_iff.mp adds
  rw [show httpRequestInit.parser = httpParserInit from rfl] at runs
  cases execute_same runs urls
  have viaUrl := execute_map _ url_commutes httpParserInit httpRequestInit.content
    (bytesOfAll (request :: requests))
  have viaPieces := execute_map _ pieces_commute httpParserInit []
    (bytesOfAll (request :: requests))
  rw [runs, Option.map_some] at viaUrl
  obtain ⟨⟨t, pieces⟩, handed, image⟩ := Option.map_eq_some_iff.mp (viaPieces.symm.trans viaUrl)
  obtain ⟨rfl, known⟩ := Prod.mk.inj image
  have split := execute_pieces rfl nonempty handed urls rfl ready.2 ready.1
  obtain ⟨more, read⟩ := parsed_cons request requests
  rw [read, List.map_cons] at split ⊢
  rw [split, List.foldl_cons, pushUrl] at known
  have plain : (CString.ofBytes request.url).chars = request.url :=
    CString.ofBytes_chars fun zero => (url_plain request).2.2 0 zero rfl
  obtain ⟨string, joined, chars⟩ := foldl_pushUrl_joined (more.map fun other => other.url)
    (CString.ofBytes request.url) (by rw [plain]; exact request.urlPresent)
    (by
      intro text member
      obtain ⟨other, -, rfl⟩ := List.mem_map.mp member
      exact ⟨other.urlPresent, (url_plain other).2.2⟩)
  rw [joined] at known
  have number : ((index : ℤ) + 1 - 1).toNat = index := by omega
  have lines : ∀ text ∈ (request :: more).map fun other => other.url,
      text ≠ [] ∧ ∀ c ∈ text, c ≠ lf := by
    intro text member
    obtain ⟨other, -, rfl⟩ := List.mem_map.mp member
    exact ⟨other.urlPresent, (url_plain other).2.1⟩
  rw [httpRequestGetUrl, ← known, Option.map_some, number, chars, plain]
  exact congrArg some (strtokNth_joined _ index lines)

end requests

end AirCast.Http
