import AirCast.Http.HttpMessageUrls

/-! # Requests behind one another

The bytes of several requests that one request object is given: the headers and the bodies
of a request are put behind those of the requests before it, up to one that asks for an
upgrade, behind which the parser reads nothing more. -/

set_option autoImplicit false

namespace AirCast.Http

/-! ## Contents behind one another -/

/-- Every header has got its value. -/
structure Valued (r : RequestData) : Prop where
  even : r.headers.length % 2 = 0
  last : (r.headers = [] ∧ r.headersIndex = 0) ∨ r.headersIndex + 1 = r.headers.length

/-- A value came before any field, and there is no string for it. -/
def Headless (r : RequestData) : Prop := r.headers = [] ∧ r.headersIndex ≠ 0

/-- What the callbacks of a request leave that come behind those which left `front`. -/
def RequestData.behind (front r : RequestData) : RequestData :=
  { method := r.method.or front.method
    url := front.url
    headers := front.headers ++ r.headers
    headersIndex :=
      bif r.headers.isEmpty then front.headersIndex else front.headers.length + r.headersIndex
    data :=
      match r.data with
      | none => front.data
      | some data => some (front.data.getD [] ++ data)
    complete := front.complete || r.complete }

section behind

variable {front r : RequestData}

theorem isEmpty_false (nonempty : r.headers ≠ []) : r.headers.isEmpty = false := by
  simpa using nonempty

theorem Valued.not_headless (valued : Valued r) : ¬ Headless r := by
  rintro ⟨empty, index⟩
  rcases valued.last with ⟨_, zero⟩ | behind
  · exact index zero
  · rw [empty, List.length_nil] at behind
    omega

theorem Valued.behind (first : Valued front) (second : Valued r) : Valued (front.behind r) := by
  obtain ⟨even, last⟩ := first
  obtain ⟨even', last'⟩ := second
  constructor
  · simp only [RequestData.behind, List.length_append]
    omega
  · simp only [RequestData.behind, List.append_eq_nil_iff, List.length_append]
    rcases last' with ⟨empty, index⟩ | index
    · simp only [empty, and_true, List.isEmpty_nil, cond_true, List.length_nil, Nat.add_zero]
      exact last
    · right
      have nonempty : r.headers ≠ [] := by
        intro empty
        rw [empty, List.length_nil] at index
        omega
      rw [isEmpty_false nonempty, cond_false]
      omega

theorem openField_nonempty (sound : ¬ Headless r) : (openField r).headers ≠ [] := by
  by_cases empty : r.headers = []
  · have index : r.headersIndex = 0 := by
      by_contra other
      exact sound ⟨empty, other⟩
    simp [openField, empty, index]
  · unfold openField
    dsimp only
    split_ifs <;> simp [empty]

theorem openField_behind (valued : Valued front) (sound : ¬ Headless r) :
    openField (front.behind r) = front.behind (openField r) := by
  obtain ⟨even, last⟩ := valued
  by_cases empty : r.headers = []
  · have index : r.headersIndex = 0 := by
      by_contra other
      exact sound ⟨empty, other⟩
    rcases last with ⟨none_, zero⟩ | behind
    · simp [openField, RequestData.behind, empty, index, none_, zero]
    · have odd : front.headersIndex % 2 = 1 := by omega
      simp [openField, RequestData.behind, empty, index, odd, behind]
  · have parity : (front.headers.length + r.headersIndex) % 2 = r.headersIndex % 2 := by omega
    have allocated : (r.headers ++ [none, none]).isEmpty = false := by simp
    simp only [openField, RequestData.behind, isEmpty_false empty, cond_false, parity]
    by_cases odd : r.headersIndex % 2 = 1
    · simp only [if_pos odd, List.length_append, Nat.add_assoc, Nat.add_left_cancel_iff]
      by_cases full : r.headersIndex + 1 = r.headers.length
      · simp [full, allocated]
      · simp [full, isEmpty_false empty]
    · simp only [if_neg odd, List.length_append, Nat.add_left_cancel_iff]
      by_cases full : r.headersIndex = r.headers.length
      · simp [full, allocated]
      · simp [full, isEmpty_false empty]

theorem appendHeader_behind (text : Bytes) (nonempty : r.headers ≠ []) :
    appendHeader (front.behind r) text = front.behind (appendHeader r text) := by
  have place : front.headers.length ≤ front.headers.length + r.headersIndex := by omega
  have kept := isEmpty_false (r := appendHeader r text) (by simpa [appendHeader] using nonempty)
  simp only [appendHeader] at kept
  simp only [appendHeader, RequestData.behind, kept, isEmpty_false nonempty, cond_false]
  rw [List.set_append_right _ _ place, Nat.add_sub_cancel_left, List.getD_append_right _ _ _ _ place,
    Nat.add_sub_cancel_left]

theorem onHeaderField_behind (valued : Valued front) (sound : ¬ Headless r) (text : Bytes) :
    onHeaderField (front.behind r) text = front.behind (onHeaderField r text) := by
  rw [onHeaderField, openField_behind valued sound,
    appendHeader_behind text (openField_nonempty sound), onHeaderField]

theorem onHeaderValue_behind (valued : Valued front) (nonempty : r.headers ≠ []) (text : Bytes) :
    onHeaderValue (front.behind r) text = front.behind (onHeaderValue r text) := by
  have even := valued.even
  have parity : (front.headers.length + r.headersIndex) % 2 = r.headersIndex % 2 := by omega
  have opened : openValue (front.behind r) = front.behind (openValue r) := by
    simp only [openValue, RequestData.behind, isEmpty_false nonempty, cond_false, parity]
    split_ifs <;> simp [isEmpty_false nonempty, Nat.add_assoc]
  have kept : (openValue r).headers ≠ [] := by
    unfold openValue
    split_ifs <;> exact nonempty
  rw [onHeaderValue, opened, appendHeader_behind text kept, onHeaderValue]

theorem headless_field (headless : Headless r) (text : Bytes) : Headless (onHeaderField r text) := by
  obtain ⟨empty, index⟩ := headless
  have other : r.headersIndex ≠ r.headers.length := by simpa [empty] using index
  unfold onHeaderField openField appendHeader
  dsimp only
  constructor
  · split_ifs <;> simp_all
  · split_ifs <;> simp_all

theorem headless_value (text : Bytes) (empty : r.headers = []) : Headless (onHeaderValue r text) := by
  unfold onHeaderValue openValue appendHeader Headless
  split_ifs with parity
  · simp [empty]
  · simp only [empty, List.set_nil, true_and]
    omega

theorem onBody_behind (text : Bytes) : onBody (front.behind r) text = front.behind (onBody r text) := by
  cases data : r.data <;> simp [onBody, RequestData.behind, data]

theorem onMessageComplete_behind (method : HttpMethod) :
    onMessageComplete (front.behind r) method = front.behind (onMessageComplete r method) := by
  simp [onMessageComplete, RequestData.behind]

/-- The callbacks keep what is in front. -/
theorem behind_simulates (valued : Valued front) :
    Simulates noUrlSettings noUrlSettings fun r seen => Headless r ∨ seen = front.behind r where
  data := by
    rintro m r seen text (headless | rfl)
    · left
      cases m with
      | url => exact headless
      | headerField => exact headless_field headless text
      | headerValue => exact headless_value text headless.1
      | body => exact headless
    · by_cases sound : Headless r
      · left
        cases m with
        | url => exact sound
        | headerField => exact headless_field sound text
        | headerValue => exact headless_value text sound.1
        | body => exact sound
      · cases m with
        | url => exact .inr rfl
        | headerField => exact .inr (onHeaderField_behind valued sound text)
        | headerValue =>
            by_cases empty : r.headers = []
            · exact .inl (headless_value text empty)
            · exact .inr (onHeaderValue_behind valued empty text)
        | body => exact .inr (onBody_behind text)
  complete := by
    rintro r seen method (headless | rfl)
    · exact .inl headless
    · exact .inr (onMessageComplete_behind method)

end behind

/-! ## One request -/

abbrev noContent : RequestData := forgetUrl httpRequestInit.content

theorem noContent_valued : Valued noContent := ⟨rfl, .inl ⟨rfl, rfl⟩⟩

theorem noContent_fresh (front : RequestData) : front = front.behind noContent := by
  simp [RequestData.behind, noContent, forgetUrl, httpRequestInit]

section complete

variable {s t : ParserState} {method : HttpMethod} {ch : UInt8} {user : RequestData}

theorem onData_complete (m : Mark) (text : Bytes) :
    (noUrlSettings.onData m user text).complete = user.complete := by
  cases m with
  | url => rfl
  | headerField =>
      simp only [noUrlSettings, onHeaderField, appendHeader, openField]
      split_ifs <;> rfl
  | headerValue =>
      simp only [noUrlSettings, onHeaderValue, appendHeader, openValue]
      split_ifs <;> rfl
  | body => rfl

/-- Only the end of a message completes it. -/
theorem absorb_complete {actions : List Action} (goes : UrlStep s t actions)
    (completed : (absorb noUrlSettings s method ch user actions).complete = true) :
    user.complete = true ∨ t = .startReq := by
  cases goes with
  | completes _ next => exact .inr next
  | ends _ next => exact .inr next
  | past behind next others =>
      left
      unfold absorb at completed
      split at completed
      · cases marked : markOf s with
        | none => simpa [marked] using completed
        | some m => simpa [marked, onData_complete] using completed
      · simpa [onData_complete] using completed
      · simpa [onData_complete] using completed
      · exact absurd (others .messageComplete (by simp)) (by simp [aside])
      · exact absurd (others .messageComplete (by simp)) (by simp [aside])
      · exact completed
  | before _ _ | inside _ _ =>
      left
      simp only [absorb] at completed
      cases marked : markOf s with
      | none => simpa [marked] using completed
      | some m => simpa [marked, onData_complete] using completed
  | starts _ _ =>
      left
      simpa [absorb, onData_complete] using completed
  | stops _ _ => exact .inl completed

theorem absorb_stays (complete : user.complete = true) (actions : List Action) :
    (absorb noUrlSettings s method ch user actions).complete = true := by
  unfold absorb
  split
  · cases markOf s with
    | none => exact complete
    | some m => exact (onData_complete m _).trans complete
  · exact (onData_complete _ _).trans complete
  · exact (onData_complete _ _).trans complete
  · rfl
  · rfl
  · exact complete

theorem read_stays :
    ∀ (data : Bytes) (p : HttpParser) (user : RequestData), user.complete = true →
      (∀ q final, read noUrlSettings data p user = .ended q final → final.complete = true) ∧
        ∀ q final rest, read noUrlSettings data p user = .left q final rest →
          final.complete = true := by
  intro data
  induction data with
  | nil =>
      intro p user complete
      simp only [read, Reading.ended.injEq, reduceCtorEq, false_implies, implies_true, and_true]
      rintro q final ⟨-, rfl⟩
      exact complete
  | cons ch rest ih =>
      intro p user complete
      have stays := @absorb_stays p.state (round p ch 1).parser.method ch user complete
        (round p ch 1).actions
      simp only [read]
      cases flow : (round p ch 1).flow with
      | abort => simp
      | leave =>
          dsimp only
          split
          · simp only [reduceCtorEq, Reading.left.injEq, false_implies, implies_true, true_and]
            rintro q final rest ⟨-, rfl, -⟩
            exact stays
          · simp
      | next => exact ih _ _ stays

/-- A message that the last byte completes leaves the parser in front of the next one. -/
theorem read_complete {q : HttpParser} {final : RequestData} :
    ∀ (data : Bytes) (p : HttpParser) (user : RequestData), p.httpErrno = .ok →
      user.complete = false →
      (∀ front back t v, data = front ++ back → back ≠ [] →
        read noUrlSettings front p user = .ended t v → v.complete = false) →
      read noUrlSettings data p user = .ended q final → final.complete = true →
        q.state = .startReq := by
  intro data
  induction data with
  | nil =>
      intro p user _ incomplete _ reads completed
      simp only [read, Reading.ended.injEq] at reads
      rw [reads.2, completed] at incomplete
      cases incomplete
  | cons ch rest ih =>
      intro p user ok incomplete single reads completed
      simp only [read] at reads
      cases flow : (round p ch 1).flow with
      | abort => simp [flow] at reads
      | leave =>
          simp only [flow] at reads
          split at reads <;> simp at reads
      | next =>
          simp only [flow] at reads
          have kept := (next_errno flow).trans ok
          have goes := round_urlStep p ch 1 (by simp [flow]) kept
          cases early : (absorb noUrlSettings p.state (round p ch 1).parser.method ch user
              (round p ch 1).actions).complete with
          | false =>
              refine ih _ _ kept early ?_ reads completed
              intro front back t v split more inside
              refine single (ch :: front) back t v (by rw [split, List.cons_append]) more ?_
              simp only [read, flow]
              exact inside
          | true =>
              have state := (absorb_complete goes early).resolve_left (by simp [incomplete])
              cases rest with
              | nil =>
                  simp only [read, Reading.ended.injEq] at reads
                  rw [← reads.1]
                  exact state
              | cons d more =>
                  have not_yet := single [ch] (d :: more) (round p ch 1).parser _ rfl (by simp)
                    (by simp only [read, flow]; rfl)
                  rw [early] at not_yet
                  cases not_yet

end complete

def Ready (p : HttpParser) : Prop := p.state = .startReq ∧ p.httpErrno = .ok

theorem Ready.follows {p : HttpParser} (ready : Ready p) : Follows (· ≤ ·) httpParserInit p :=
  { state := ready.1
    errno := ready.2
    counted := Nat.zero_le _
    chunk := fun chunk => by cases chunk
    message := fun started => absurd rfl started
    header := fun header => by cases header
    major := fun major => by cases major
    minor := fun minor => by cases minor
    upgrade := fun upgrade => by cases upgrade }

section request

variable (request : WellFormedRequest)

def WellFormedRequest.content : RequestData := forgetUrl request.accepted.content

def WellFormedRequest.upgrades : Bool := request.accepted.parser.upgrade

theorem bytes_ne_nil : request.bytes ≠ [] := by
  simp [RequestText.bytes, request.urlPresent]

theorem content_complete : request.content.complete = true := request.complete

/-- In front of its last byte a request is not complete. -/
theorem read_front {front behind : Bytes} (split : request.bytes = front ++ behind)
    (more : behind ≠ []) :
    ∃ t v, read noUrlSettings front httpParserInit noContent = .ended t v ∧ v.complete = false := by
  have whole := request_whole request
  rw [split, Reading.Whole, read_append] at whole
  cases reading : read noUrlSettings front httpParserInit noContent with
  | ended t v =>
      refine ⟨t, v, rfl, ?_⟩
      by_cases started : front = []
      · subst started
        simp only [read, Reading.ended.injEq] at reading
        rw [← reading.2]
        rfl
      · have head := request.headText
        rw [split] at head
        have headFront := (headText_append noUrlSettings behind front httpParserInit noContent
          head).1
        have agrees := execute_agrees noUrl_additive httpParserInit noContent front rfl started
          (init_resumes _ _) headFront
        rw [reading] at agrees
        obtain ⟨r, adds, same⟩ := execute_remembers agrees.1
        have incomplete := request.single front behind r split more adds
        rw [← same]
        exact incomplete
  | left t v rest =>
      rw [reading] at whole
      simp [Reading.andThen, more] at whole
  | failed t =>
      rw [reading] at whole
      simp [Reading.andThen] at whole
  | aborted =>
      rw [reading] at whole
      simp [Reading.andThen] at whole

theorem read_request :
    Ready request.accepted.parser ∧
      read noUrlSettings request.bytes httpParserInit noContent =
        if request.upgrades then .left request.accepted.parser request.content []
        else .ended request.accepted.parser request.content := by
  have fine : request.accepted.parser.httpErrno = .ok := by
    simpa [httpRequestHasError] using request.fine
  have upgrade := @read_upgrade _ noUrlSettings request.accepted.parser request.content
    request.bytes httpParserInit noContent rfl
  rcases request_whole request with ended | left
  · have state := read_complete request.bytes httpParserInit noContent rfl rfl
      (fun front back t v split more reads => by
        obtain ⟨t', v', reads', incomplete⟩ := read_front request split more
        rw [reads] at reads'
        cases reads'
        exact incomplete) ended (content_complete request)
    rw [WellFormedRequest.upgrades, upgrade.1 ended, if_neg Bool.false_ne_true]
    exact ⟨⟨state, fine⟩, ended⟩
  · have agrees := execute_agrees noUrl_additive httpParserInit noContent request.bytes rfl
      (bytes_ne_nil request) (init_resumes _ _) request.headText
    rw [left] at agrees
    rw [WellFormedRequest.upgrades, upgrade.2 [] left, if_pos rfl]
    exact ⟨⟨agrees.2.2, fine⟩, left⟩

end request

/-! ## Several requests -/

def bytesOfAll (requests : List WellFormedRequest) : Bytes :=
  (requests.map fun request => request.bytes).flatten

/-- The requests that the parser reads: it stops behind the first upgrade. -/
def parsed : List WellFormedRequest → List WellFormedRequest
  | [] => []
  | request :: rest => if request.upgrades then [request] else request :: parsed rest

def contentOf (front : RequestData) (requests : List WellFormedRequest) : RequestData :=
  requests.foldl (fun front request => front.behind request.content) front

section requests

variable {p : HttpParser} {front : RequestData}

theorem read_behind_others (request : WellFormedRequest) (ready : Ready p) (valued : Valued front)
    (own : Valued request.content)
    (fits : ∀ t, read noUrlSettings request.bytes p front ≠ .failed t) :
    ∃ q, Ready q ∧ read noUrlSettings request.bytes p front =
      if request.upgrades then .left q (front.behind request.content) []
      else .ended q (front.behind request.content) := by
  have same := read_follows countRelation_le (behind_simulates valued) request.bytes httpParserInit
    p noContent front ready.follows (.inr (noContent_fresh front)) fun t failed =>
      absurd failed (fits t)
  obtain ⟨stands, alone⟩ := read_request request
  rw [alone] at same
  generalize read noUrlSettings request.bytes p front = reading at same
  by_cases upgrade : request.upgrades = true
  · simp only [upgrade, if_true] at same ⊢
    cases same with
    | left behind related =>
        rw [related.resolve_left own.not_headless]
        exact ⟨_, ⟨behind.2.1.trans stands.1, behind.1.trans stands.2⟩, rfl⟩
  · simp only [upgrade, if_false, Bool.false_eq_true] at same ⊢
    cases same with
    | ended follows related =>
        rw [related.resolve_left own.not_headless]
        exact ⟨_, ⟨follows.state.trans stands.1, follows.errno.trans stands.2⟩, rfl⟩

/-- What the callbacks leave behind several requests, if they make `step` of each. -/
theorem read_each {ρ : Type} {settings : ParserSettings ρ} {step : ρ → WellFormedRequest → ρ}
    {Fine : ρ → Prop} :
    ∀ (requests : List WellFormedRequest) (p : HttpParser) (user : ρ),
      (∀ request ∈ requests, ∀ (p : HttpParser) (user : ρ), Ready p → Fine user →
        (∀ t, read settings request.bytes p user ≠ .failed t) →
          Fine (step user request) ∧ ∃ q, Ready q ∧ read settings request.bytes p user =
            if request.upgrades then .left q (step user request) []
            else .ended q (step user request)) →
      Ready p → Fine user → (∀ t, read settings (bytesOfAll requests) p user ≠ .failed t) →
        ∃ q, Ready q ∧
          (read settings (bytesOfAll requests) p user =
              .ended q ((parsed requests).foldl step user) ∨
            ∃ rest, read settings (bytesOfAll requests) p user =
              .left q ((parsed requests).foldl step user) rest) := by
  intro requests
  induction requests with
  | nil =>
      intro p user _ ready _ _
      exact ⟨p, ready, .inl rfl⟩
  | cons request requests ih =>
      intro p user one ready fine fits
      have split : bytesOfAll (request :: requests) = request.bytes ++ bytesOfAll requests := rfl
      rw [split, read_append] at fits ⊢
      obtain ⟨fine', q, stands, reads⟩ := one request List.mem_cons_self p user ready fine
        fun t failed => by
          rw [failed] at fits
          exact fits t rfl
      rw [reads] at fits ⊢
      rw [parsed]
      by_cases upgrade : request.upgrades = true
      · simp only [upgrade, if_true] at fits ⊢
        exact ⟨q, stands, .inr ⟨_, rfl⟩⟩
      · simp only [upgrade, if_false, Bool.false_eq_true] at fits ⊢
        exact ih q _ (fun other member => one other (List.mem_cons_of_mem _ member)) stands fine' fits

theorem read_requests (requests : List WellFormedRequest) (ready : Ready p) (valued : Valued front)
    (own : ∀ request ∈ requests, Valued request.content)
    (fits : ∀ t, read noUrlSettings (bytesOfAll requests) p front ≠ .failed t) :
    ∃ q, Ready q ∧
      (read noUrlSettings (bytesOfAll requests) p front =
          .ended q (contentOf front (parsed requests)) ∨
        ∃ rest, read noUrlSettings (bytesOfAll requests) p front =
          .left q (contentOf front (parsed requests)) rest) :=
  read_each requests p front (fun request member _ _ ready valued fits =>
    ⟨valued.behind (own request member),
      read_behind_others request ready valued (own request member) fits⟩) ready valued fits

end requests

/-! ## The text of the heads -/

theorem headText_follows {text : UInt8 → Prop} :
    ∀ (data : Bytes) (p q : HttpParser), Follows (· ≤ ·) p q → HeadText text data p →
      HeadText text data q := by
  intro data
  induction data with
  | nil => intro p q _ _; trivial
  | cons ch rest ih =>
      intro p q follows head
      refine ⟨fun inHead => head.1 (by rwa [← follows.state]), fun next => ?_⟩
      by_cases full : OverLimit q
      · rw [round_overLimit full] at next
        cases next
      · have same := round_follows ch 1 countRelation_le follows full
        rw [same.flow] at next
        exact ih _ _ (same.goes next) (head.2 next)

theorem headText_join (settings : ParserSettings RequestData) {text : UInt8 → Prop} (second : Bytes) :
    ∀ (first : Bytes) (p : HttpParser) (user : RequestData), HeadText text first p →
      (∀ q final, read settings first p user = .ended q final → HeadText text second q) →
        HeadText text (first ++ second) p := by
  intro first
  induction first with
  | nil => intro p user _ behind; exact behind p user rfl
  | cons ch rest ih =>
      intro p user head behind
      refine ⟨head.1, fun next => ?_⟩
      refine ih _ (absorb settings p.state (round p ch 1).parser.method ch user
        (round p ch 1).actions) (head.2 next) fun q final reads => behind q final ?_
      simp only [read, next]
      exact reads

theorem ready_behind {request : WellFormedRequest} {p q : HttpParser} {front final : RequestData}
    (ready : Ready p) (reads : read noUrlSettings request.bytes p front = .ended q final) :
    Ready q := by
  have any : Simulates noUrlSettings noUrlSettings fun _ _ => True := by
    constructor <;> intros <;> trivial
  have same := read_follows countRelation_le any request.bytes httpParserInit p noContent front
    ready.follows trivial fun t failed => by
      rw [reads] at failed
      cases failed
  obtain ⟨stands, alone⟩ := read_request request
  rw [alone, reads] at same
  split at same
  · cases same
  · cases same with
    | ended follows _ => exact ⟨follows.state.trans stands.1, follows.errno.trans stands.2⟩

theorem headText_requests :
    ∀ (requests : List WellFormedRequest) (p : HttpParser), Ready p →
      HeadText (· ≠ 0) (bytesOfAll requests) p := by
  intro requests
  induction requests with
  | nil => intro p _; trivial
  | cons request requests ih =>
      intro p ready
      have own := headText_follows request.bytes httpParserInit p ready.follows request.headText
      exact headText_join noUrlSettings (bytesOfAll requests) request.bytes p noContent own
        fun q final reads => ih q (ready_behind ready reads)

/-! ## Counting the requests -/

def isCSeq (field : CString) : Bool := strcasecmpEq field (.lit "CSeq")

def WellFormedRequest.cseqs (request : WellFormedRequest) : ℕ :=
  countFields isCSeq request.accepted.content.headers

theorem countFields_append (same : CString → Bool) (second : List (Option CString)) :
    ∀ first : List (Option CString), first.length % 2 = 0 →
      countFields same (first ++ second) = countFields same first + countFields same second := by
  intro first
  induction first using List.twoStepInduction with
  | nil => intro _; simp [countFields]
  | singleton field => intro even; simp at even
  | cons_cons field value rest ih _ =>
      intro even
      have shorter : rest.length % 2 = 0 := by
        simp only [List.length_cons] at even
        omega
      simp only [List.cons_append, countFields, ih shorter, Nat.add_assoc]

theorem countFields_contentOf (requests : List WellFormedRequest) :
    ∀ front : RequestData, Valued front → (∀ request ∈ requests, Valued request.content) →
      countFields isCSeq (contentOf front requests).headers =
        countFields isCSeq front.headers + (requests.map WellFormedRequest.cseqs).sum := by
  induction requests with
  | nil => intro front _ _; rfl
  | cons request requests ih =>
      intro front valued own
      have first := own request List.mem_cons_self
      have more := ih (front.behind request.content) (valued.behind first)
        fun other member => own other (List.mem_cons_of_mem _ member)
      have joined := countFields_append isCSeq request.content.headers front.headers valued.even
      rw [contentOf, List.foldl_cons, ← contentOf, more, List.map_cons, List.sum_cons,
        RequestData.behind, joined, Nat.add_assoc]
      rfl

theorem complete_contentOf (requests : List WellFormedRequest) :
    ∀ front : RequestData, front.complete = true →
      (contentOf front requests).complete = true := by
  induction requests with
  | nil => intro front complete; exact complete
  | cons request requests ih =>
      intro front complete
      exact ih (front.behind request.content) (by simp [RequestData.behind, complete])

end AirCast.Http
