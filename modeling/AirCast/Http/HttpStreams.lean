import AirCast.Http.HttpPipeline
import AirCast.Http.HttpdTable

/-! # Streams of requests

What the thread makes of the bytes of one connection: the request object that takes a
segment is dispatched and destroyed when a message in it is complete, with all the bytes it
was given.  Requests come out whole where every segment that reaches the end of a request
stops at the end of one. -/

set_option autoImplicit false

namespace AirCast.Http

/-! ## One connection -/

/-- The bytes of one `recv`, with what the handlers will answer. -/
structure Segment where
  bytes : Bytes
  received : bytes ≠ []
  responses : Httpd.Responses

/-- A request object that was dispatched: the bytes it had been given, and how often
`conn_request` was called with it. -/
structure Dispatched where
  fed : Bytes
  calls : ℕ

/-- A connection of the HTTP branch, with the bytes that its request object was given. -/
structure HttpStream where
  connected : Bool
  request : Option HttpRequest
  fed : Bytes
  dispatched : List Dispatched

/-- One of the first answers asks to disconnect. -/
def disconnects (responses : Httpd.Responses) (calls : ℕ) : Bool :=
  (List.range calls).any fun index => responses (index + 1) = some true

/-- The calls from `index` on that have the request object.  An answer that asks to disconnect
destroys it, and the calls behind that get NULL. -/
def callsAlive (responses : Httpd.Responses) : ℕ → ℕ → ℕ
  | 0, _ => 0
  | left + 1, index =>
      if responses index = some true then 1 else callsAlive responses left (index + 1) + 1

theorem callsAlive_le (responses : Httpd.Responses) :
    ∀ left index : ℕ, callsAlive responses left index ≤ left := by
  intro left
  induction left with
  | zero => intro index; exact le_rfl
  | succ left ih =>
      intro index
      have rest := ih (index + 1)
      rw [callsAlive]
      split_ifs <;> omega

theorem callsAlive_iff (responses : Httpd.Responses) :
    ∀ left index : ℕ, callsAlive responses left index = left ↔
      DisconnectsLast responses left index := by
  intro left
  induction left with
  | zero => intro index; exact iff_of_true rfl fun j lower upper => by omega
  | succ left ih =>
      intro index
      have rest := ih (index + 1)
      rw [callsAlive]
      by_cases leaves : responses index = some true
      · rw [if_pos leaves]
        constructor
        · intro only j lower upper
          omega
        · intro last
          by_contra more
          exact last index le_rfl (by omega) leaves
      · rw [if_neg leaves, Nat.add_right_cancel_iff, rest]
        constructor
        · intro last j lower upper
          rcases Nat.eq_or_lt_of_le lower with rfl | later
          · exact leaves
          · exact last j later (by omega)
        · exact fun last j lower upper => last j (by omega) (by omega)

namespace HttpStream

def start : HttpStream := ⟨true, none, [], []⟩

/-- The round of the loop for a connection that has received a segment. -/
def receive (s : HttpStream) (segment : Segment) : Option HttpStream :=
  if s.connected then
    (receiveHttp (s.request.getD httpRequestInit) segment.bytes).map fun
      | .skipped => { s with request := some (s.request.getD httpRequestInit) }
      | .invalidMethod => { s with request := none, fed := [] }
      | .parseError => { s with connected := false, request := none, fed := [] }
      | .complete request =>
          let calls := httpRequestGetRequestCount request
          { connected := !disconnects segment.responses calls
            request := none
            fed := []
            dispatched := s.dispatched ++
              [⟨s.fed ++ segment.bytes, callsAlive segment.responses calls 1⟩] }
      | .waiting request => { s with request := some request, fed := s.fed ++ segment.bytes }
  else some s

def receiveAll : HttpStream → List Segment → Option HttpStream
  | s, [] => some s
  | s, segment :: rest => (s.receive segment).bind fun next => next.receiveAll rest

end HttpStream

section table

variable {n : ℕ}

/-- The calls of `conn_request` with user data, and a request, that is not destroyed. -/
def requestCalls (gone : List ℕ) : List HttpdCall → ℕ
  | [] => 0
  | .connDestroy user :: calls => requestCalls (gone ++ user.toList) calls
  | .connRequest user _ :: calls =>
      requestCalls gone calls + if user.any (· ∉ gone) then 1 else 0
  | _ :: calls => requestCalls gone calls

/-- A connection of the RTSP or the AirPlay server is as the stream says, and `before` calls
were made earlier. -/
structure ShowsStream (i : Fin n) (before : ℕ) (s : Httpd n) (t : HttpStream) : Prop where
  running : s.running = true
  http : s.mId ≠ 1
  connected : (s.connections i).connected = t.connected
  request : (s.connections i).request = t.request
  alive : t.connected = true → ∃ u, (s.connections i).userData = some u ∧
    u ∉ destroyedUsers s.calls
  calls : requestCalls [] s.calls = before + (t.dispatched.map Dispatched.calls).sum

variable {i : Fin n} {before : ℕ} {s : Httpd n} {t : HttpStream}

theorem requestCalls_append (first second : List HttpdCall) (gone : List ℕ) :
    requestCalls gone (first ++ second) =
      requestCalls gone first + requestCalls (gone ++ destroyedUsers first) second := by
  induction first generalizing gone with
  | nil => simp [requestCalls, destroyedUsers]
  | cons call first ih =>
      rw [List.cons_append]
      cases call with
      | connDestroy user =>
          cases user <;> simp [requestCalls, ih, destroyedUsers, List.append_assoc]
      | connRequest user index =>
          simp only [requestCalls, ih]
          rw [show destroyedUsers (.connRequest user index :: first) = destroyedUsers first from rfl]
          omega
      | accept fd => exact ih gone
      | close fd => exact ih gone
      | connInit user => exact ih gone

theorem removeConnection_calls (s : Httpd n) (i : Fin n) :
    requestCalls [] (s.removeConnection i).calls = requestCalls [] s.calls ∧
      destroyedUsers (s.removeConnection i).calls =
        destroyedUsers s.calls ++ (s.connections i).userData.toList := by
  constructor
  · rw [Httpd.removeConnection, requestCalls_append]
    rfl
  · rw [Httpd.removeConnection, destroyedUsers_append]
    cases (s.connections i).userData <;> rfl

theorem connRequest_calls {u : ℕ} (known : (s.connections i).userData = some u) (index : ℕ) :
    requestCalls [] (s.connRequest i index).calls =
        requestCalls [] s.calls + (if u ∈ destroyedUsers s.calls then 0 else 1) ∧
      destroyedUsers (s.connRequest i index).calls = destroyedUsers s.calls := by
  constructor
  · rw [Httpd.connRequest, requestCalls_append, known]
    simp [requestCalls]
  · rw [Httpd.connRequest, destroyedUsers_append]
    exact List.append_nil _

/-- The loop over the requests calls `conn_request` for each and may remove the connection;
the calls behind that have no request. -/
theorem dispatchFrom_shows (responses : Httpd.Responses) (i : Fin n) {u : ℕ} :
    ∀ (left index : ℕ) (s : Httpd n), (s.connections i).userData = some u →
      let t := Httpd.dispatchFrom responses i left index s
      let leaves := (List.range left).any fun k => responses (index + k) = some true
      t.mId = s.mId ∧ (t.connections i).userData = some u ∧
        (t.connections i).connected = ((s.connections i).connected && !leaves) ∧
        (leaves = false → destroyedUsers t.calls = destroyedUsers s.calls) ∧
        requestCalls [] t.calls = requestCalls [] s.calls +
          (if u ∈ destroyedUsers s.calls then 0 else callsAlive responses left index) := by
  intro left
  induction left with
  | zero => intro index s known; simp [Httpd.dispatchFrom, callsAlive, known]
  | succ left ih =>
      intro index s known
      obtain ⟨asked, kept⟩ := connRequest_calls known index
      have later : ((List.range left).map Nat.succ).any
          (fun k => decide (responses (index + k) = some true)) =
            (List.range left).any fun k => decide (responses (index + 1 + k) = some true) := by
        rw [List.any_map]
        simp only [Function.comp_def, Nat.succ_eq_add_one, Nat.add_assoc, Nat.add_comm 1]
      rw [Httpd.dispatchFrom, callsAlive, List.range_succ_eq_map, List.any_cons, later, Nat.add_zero]
      by_cases leaves : responses index = some true
      · -- the user data is destroyed, and no later call counts
        obtain ⟨same, gone⟩ := removeConnection_calls (s.connRequest i index) i
        have user : ((s.connRequest i index).removeConnection i |>.connections i).userData =
            some u := by
          simpa [Httpd.removeConnection, Httpd.connRequest] using known
        have destroyed : u ∈ destroyedUsers ((s.connRequest i index).removeConnection i).calls := by
          rw [gone, show ((s.connRequest i index).connections i).userData = some u from known]
          simp
        obtain ⟨id, owned, connected, -, calls⟩ :=
          ih (index + 1) ((s.connRequest i index).removeConnection i) user
        rw [if_pos leaves, if_pos leaves]
        refine ⟨id, owned, ?_, by simp [leaves], ?_⟩
        · rw [connected]
          simp [Httpd.removeConnection, leaves]
        · rw [calls, same, asked, if_pos destroyed, Nat.add_zero]
      · obtain ⟨id, owned, connected, stays, calls⟩ :=
          ih (index + 1) (s.connRequest i index) known
        rw [if_neg leaves, if_neg leaves]
        refine ⟨id, owned, ?_, ?_, ?_⟩
        · rw [connected]
          simp [Httpd.connRequest, leaves]
        · intro none_
          rw [stays (by simpa [leaves] using none_), kept]
        · rw [calls, asked, kept]
          split_ifs <;> omega

def Segment.event (segment : Segment) (i : Fin n) : HttpdEvent n :=
  .receive i (.segment segment.bytes segment.responses)

/-- The server does to a connection what the stream says. -/
theorem httpdStep_shows (shows : ShowsStream i before s t) (segment : Segment) :
    Option.Rel (ShowsStream i before) (httpdStep s (segment.event i)) (t.receive segment) := by
  obtain ⟨running, http, connected, request, alive, calls⟩ := shows
  by_cases open_ : t.connected = true
  · obtain ⟨u, known, live⟩ := alive open_
    have current : s.currentRequest i = t.request.getD httpRequestInit := by
      rw [Httpd.currentRequest, request]
    rw [Segment.event, httpdStep, if_pos ⟨running, connected.trans open_⟩, Httpd.serve,
      if_neg http, current, HttpStream.receive, if_pos open_]
    cases receiveHttp (t.request.getD httpRequestInit) segment.bytes with
    | none => exact .none
    | some outcome =>
        refine .some ?_
        cases outcome with
        | skipped =>
            exact ⟨running, http, by simp [Httpd.setRequest, connected],
              by simp [Httpd.setRequest], fun _ => ⟨u, by simp [Httpd.setRequest, known], live⟩,
              calls⟩
        | invalidMethod =>
            exact ⟨running, http, by simp [Httpd.setRequest, connected],
              by simp [Httpd.setRequest], fun _ => ⟨u, by simp [Httpd.setRequest, known], live⟩,
              calls⟩
        | parseError =>
            exact ⟨running, http, by simp [Httpd.removeConnection],
              by simp [Httpd.removeConnection], fun up => absurd up Bool.false_ne_true,
              (removeConnection_calls s i).1.trans calls⟩
        | waiting r =>
            exact ⟨running, http, by simp [Httpd.setRequest, connected],
              by simp [Httpd.setRequest], fun _ => ⟨u, by simp [Httpd.setRequest, known], live⟩,
              calls⟩
        | complete r =>
            have user : ((s.setRequest i (some r)).connections i).userData = some u := by
              simp [Httpd.setRequest, known]
            have runs := dispatchFrom_running (i := i) segment.responses
              (httpRequestGetRequestCount r) 1 (s.setRequest i (some r))
            obtain ⟨id, owned, left, kept, made⟩ := dispatchFrom_shows segment.responses i
              (httpRequestGetRequestCount r) 1 (s.setRequest i (some r)) user
            have all : ((List.range (httpRequestGetRequestCount r)).any
                fun k => decide (segment.responses (1 + k) = some true)) =
                  disconnects segment.responses (httpRequestGetRequestCount r) := by
              simp only [disconnects, Nat.add_comm 1]
            rw [all] at left kept
            refine ⟨runs.trans running, fun mirror => http (id.symm.trans mirror), ?_,
              by simp [Httpd.dispatch, Httpd.setRequest], ?_, ?_⟩
            · simp only [Httpd.dispatch, Httpd.setRequest, Function.update_self] at left ⊢
              rw [left, connected, open_, Bool.true_and]
            · intro up
              refine ⟨u, by simpa [Httpd.dispatch, Httpd.setRequest] using owned, ?_⟩
              have stays := kept (by simpa using up)
              exact fun member => live (stays ▸ member)
            · simp only [Httpd.dispatch, List.map_append, List.sum_append, List.map_singleton,
                List.sum_singleton]
              rw [← Nat.add_assoc, ← calls]
              exact made.trans (by rw [if_neg]; rfl; exact live)
  · have shut : ¬ (s.running = true ∧ (s.connections i).connected = true) := fun both =>
      open_ (connected.symm.trans both.2)
    rw [Segment.event, httpdStep, if_neg shut, HttpStream.receive, if_neg open_]
    exact .some ⟨running, http, connected, request, alive, calls⟩

theorem receiveAll_shows (segments : List Segment) (shows : ShowsStream i before s t) :
    Option.Rel (ShowsStream i before)
      ((segments.map fun segment => segment.event i).foldlM httpdStep s)
      (t.receiveAll segments) := by
  induction segments generalizing s t with
  | nil => exact .some shows
  | cons segment rest ih =>
      have step := httpdStep_shows shows segment
      simp only [List.map_cons, List.foldlM_cons, HttpStream.receiveAll]
      generalize httpdStep s (segment.event i) = served, t.receive segment = received at step
      cases step with
      | none => exact .none
      | some next => exact ih next

end table

/-! ## A request object and its bytes -/

/-- The request object has been given these bytes, and waits for more. -/
structure Waits (request : HttpRequest) (fed : Bytes) : Prop where
  reads : read noUrlSettings fed httpParserInit noContent =
    .ended request.parser (forgetUrl request.content)
  fine : request.parser.httpErrno = .ok
  resumes : Resumes noUrlSettings request.parser.state (forgetUrl request.content)

theorem waits_init : Waits httpRequestInit [] := ⟨rfl, rfl, init_resumes _ _⟩

/-- What a request object is after bytes that are read so. -/
def Outcome (fed : Bytes) (outcome : Option HttpOutcome) : Reading RequestData → Prop
  | .ended _ content =>
      ∃ r, Waits r fed ∧ forgetUrl r.content = content ∧
        outcome = some (if content.complete then .complete r else .waiting r)
  | .left _ content _ =>
      ∃ r, forgetUrl r.content = content ∧
        outcome = some (if content.complete then .complete r else .waiting r)
  | .failed _ => outcome = some .invalidMethod ∨ outcome = some .parseError
  | .aborted => outcome = none

section segment

variable {request : HttpRequest} {fed : Bytes}

/-- A segment that is not skipped is read behind the bytes before it. -/
theorem receiveHttp_reads (waits : Waits request fed) {data : Bytes} (nonempty : data ≠ [])
    (unlike : ¬ okReply <+: data) (head : HeadText (· ≠ 0) (fed ++ data) httpParserInit) :
    Outcome (fed ++ data) (receiveHttp request data)
      (read noUrlSettings (fed ++ data) httpParserInit noContent) := by
  obtain ⟨reads, fine, resumes⟩ := waits
  have headData := (headText_append noUrlSettings data fed httpParserInit noContent head).2 _ _ reads
  have agrees := execute_agrees noUrl_additive request.parser (forgetUrl request.content) data fine
    nonempty resumes headData
  have same := execute_map forgetUrl forgetUrl_commutes request.parser request.content data
  have behind : read noUrlSettings (fed ++ data) httpParserInit noContent =
      read noUrlSettings data request.parser (forgetUrl request.content) := by
    rw [read_append, reads]
    rfl
  have whole := behind
  rw [behind, receiveHttp, if_neg unlike, httpRequestAddData]
  rw [same] at agrees
  cases reading : read noUrlSettings data request.parser (forgetUrl request.content) with
  | ended q content =>
      rw [reading] at agrees whole
      obtain ⟨adds, ok, resumed⟩ := agrees
      obtain ⟨out, runs, image⟩ := Option.map_eq_some_iff.mp adds
      obtain ⟨rfl, rfl⟩ := Prod.mk.inj image
      refine ⟨⟨out.1, out.2⟩, ⟨whole, ok, resumed⟩, rfl, ?_⟩
      simp only [runs, Option.map_some, httpRequestHasError, ok, ne_eq, not_true, decide_false,
        Bool.false_eq_true, if_false, httpRequestIsComplete]
      rfl
  | left q content rest =>
      rw [reading] at agrees
      obtain ⟨adds, ok, -⟩ := agrees
      obtain ⟨out, runs, image⟩ := Option.map_eq_some_iff.mp adds
      obtain ⟨rfl, rfl⟩ := Prod.mk.inj image
      refine ⟨⟨out.1, out.2⟩, rfl, ?_⟩
      simp only [runs, Option.map_some, httpRequestHasError, ok, ne_eq, not_true, decide_false,
        Bool.false_eq_true, if_false, httpRequestIsComplete]
      rfl
  | failed q =>
      rw [reading] at agrees
      obtain ⟨user, adds, error⟩ := agrees
      obtain ⟨out, runs, image⟩ := Option.map_eq_some_iff.mp adds
      obtain ⟨rfl, -⟩ := Prod.mk.inj image
      simp only [Outcome, runs, Option.map_some, httpRequestHasError, ne_eq, error,
        not_false_eq_true, decide_true, if_true]
      split_ifs
      · exact .inl rfl
      · exact .inr rfl
  | aborted =>
      rw [reading] at agrees
      have none_ := Option.map_eq_none_iff.mp agrees
      simp [Outcome, none_]

end segment

/-! ## Requests that end in one segment -/

/-- A request as clients send it: every header has its value, and there is at most one
`CSeq`. -/
structure Regular (request : WellFormedRequest) : Prop where
  valued : Valued request.content
  numbered : request.cseqs ≤ 1

/-- The parser makes no error of the requests in one call. -/
def Accepted (requests : List WellFormedRequest) : Prop :=
  ∀ r, httpRequestAddData httpRequestInit (bytesOfAll requests) = some r →
    httpRequestHasError r = false

/-- Two requests that are counted as two where they are read in one call. -/
structure Joins (request next : WellFormedRequest) : Prop where
  numbered : request.cseqs = 1
  next : next.cseqs = 1
  stays : request.upgrades = false

def callsFor (requests : List WellFormedRequest) : ℕ :=
  let counted := ((parsed requests).map WellFormedRequest.cseqs).sum
  if counted = 0 then 1 else counted

section requests

variable {request : WellFormedRequest} {requests : List WellFormedRequest}

theorem bytesOfAll_cons (request : WellFormedRequest) (requests : List WellFormedRequest) :
    bytesOfAll (request :: requests) = request.bytes ++ bytesOfAll requests := rfl

theorem bytesOfAll_append (first second : List WellFormedRequest) :
    bytesOfAll (first ++ second) = bytesOfAll first ++ bytesOfAll second := by
  rw [bytesOfAll, List.map_append, List.flatten_append]
  rfl

theorem bytesOfAll_flatten (groups : List (List WellFormedRequest)) :
    bytesOfAll groups.flatten = (groups.map bytesOfAll).flatten := by
  induction groups with
  | nil => rfl
  | cons group groups ih =>
      rw [List.flatten_cons, bytesOfAll_append, ih, List.map_cons, List.flatten_cons]

theorem bytesOfAll_eq_nil : bytesOfAll requests = [] ↔ requests = [] := by
  cases requests with
  | nil => simp [bytesOfAll]
  | cons request requests => simp [bytesOfAll_cons, bytes_ne_nil]

/-- An error of the call is one of the reading. -/
theorem accepted_iff (request : WellFormedRequest) (requests : List WellFormedRequest) :
    Accepted (request :: requests) ↔
      ∀ t, read noUrlSettings (bytesOfAll (request :: requests)) httpParserInit noContent ≠
        .failed t := by
  have nonempty : bytesOfAll (request :: requests) ≠ [] := by simp [bytesOfAll_eq_nil]
  have agrees := execute_agrees noUrl_additive httpParserInit noContent
    (bytesOfAll (request :: requests)) rfl nonempty (init_resumes _ _)
    (headText_requests _ _ ⟨rfl, rfl⟩)
  have same := execute_map forgetUrl forgetUrl_commutes httpParserInit httpRequestInit.content
    (bytesOfAll (request :: requests))
  rw [same] at agrees
  rw [Accepted, httpRequestAddData]
  constructor
  · rintro accepts t reading
    rw [reading] at agrees
    obtain ⟨user, adds, error⟩ := agrees
    obtain ⟨out, runs, image⟩ := Option.map_eq_some_iff.mp adds
    obtain ⟨rfl, -⟩ := Prod.mk.inj image
    have fine := accepts ⟨out.1, out.2⟩ (by
      rw [show httpRequestInit.parser = httpParserInit from rfl, runs, Option.map_some])
    exact error (by simpa [httpRequestHasError] using fine)
  · intro fine r adds
    obtain ⟨out, runs, rfl⟩ := Option.map_eq_some_iff.mp adds
    rw [show httpRequestInit.parser = httpParserInit from rfl] at runs
    rw [runs, Option.map_some] at agrees
    cases reading : read noUrlSettings (bytesOfAll (request :: requests)) httpParserInit noContent with
    | ended q final =>
        rw [reading] at agrees
        obtain ⟨same, _⟩ := Prod.mk.inj (Option.some.inj agrees.1)
        simp [httpRequestHasError, same, agrees.2.1]
    | left q final rest =>
        rw [reading] at agrees
        obtain ⟨same, _⟩ := Prod.mk.inj (Option.some.inj agrees.1)
        simp [httpRequestHasError, same, agrees.2.1]
    | failed t => exact absurd reading (fine t)
    | aborted =>
        rw [reading] at agrees
        cases agrees

theorem counted_le (regular : ∀ request ∈ requests, request.cseqs ≤ 1) :
    ((parsed requests).map WellFormedRequest.cseqs).sum ≤ requests.length := by
  induction requests with
  | nil => exact le_rfl
  | cons request requests ih =>
      have own := regular request List.mem_cons_self
      have rest := ih fun other member => regular other (List.mem_cons_of_mem _ member)
      rw [parsed]
      split_ifs
      · simp only [List.map_cons, List.map_nil, List.sum_cons, List.sum_nil, List.length_cons]
        omega
      · simp only [List.map_cons, List.sum_cons, List.length_cons]
        omega

theorem counted_cons (regular : ∀ other ∈ request :: requests, other.cseqs ≤ 1)
    (more : requests ≠ []) :
    ((parsed (request :: requests)).map WellFormedRequest.cseqs).sum =
        (request :: requests).length ↔
      request.upgrades = false ∧ request.cseqs = 1 ∧
        ((parsed requests).map WellFormedRequest.cseqs).sum = requests.length := by
  have own := regular request List.mem_cons_self
  have rest := counted_le fun other member => regular other (List.mem_cons_of_mem _ member)
  have positive := List.length_pos_iff.mpr more
  rw [parsed]
  cases request.upgrades with
  | true =>
      simp only [if_true, List.map_cons, List.map_nil, List.sum_cons, List.sum_nil,
        List.length_cons, Bool.true_eq_false, false_and, iff_false]
      omega
  | false =>
      simp only [Bool.false_eq_true, if_false, List.map_cons, List.sum_cons, List.length_cons,
        true_and]
      omega

theorem counted_single (request : WellFormedRequest) :
    ((parsed [request]).map WellFormedRequest.cseqs).sum = request.cseqs := by
  rw [parsed, parsed]
  split_ifs <;> simp

theorem counted_iff : ∀ (requests : List WellFormedRequest) (request next : WellFormedRequest),
    (∀ other ∈ request :: next :: requests, other.cseqs ≤ 1) →
      (((parsed (request :: next :: requests)).map WellFormedRequest.cseqs).sum =
        (request :: next :: requests).length ↔ (request :: next :: requests).IsChain Joins) := by
  intro requests
  induction requests with
  | nil =>
      intro request next regular
      rw [counted_cons regular (List.cons_ne_nil next []), counted_single, List.isChain_cons_cons,
        and_iff_left (List.isChain_singleton next)]
      constructor
      · rintro ⟨stays, first, second⟩
        exact ⟨first, second, stays⟩
      · rintro ⟨first, second, stays⟩
        exact ⟨stays, first, second⟩
  | cons third requests ih =>
      intro request next regular
      rw [counted_cons regular (List.cons_ne_nil next _), List.isChain_cons_cons,
        ih next third fun other member => regular other (List.mem_cons_of_mem _ member)]
      constructor
      · rintro ⟨stays, first, chain⟩
        exact ⟨⟨first, (List.isChain_cons_cons.mp chain).1.numbered, stays⟩, chain⟩
      · rintro ⟨⟨first, _, stays⟩, chain⟩
        exact ⟨stays, first, chain⟩

theorem callsFor_iff (regular : ∀ other ∈ request :: requests, other.cseqs ≤ 1) :
    callsFor (request :: requests) ≤ (request :: requests).length ∧
      (callsFor (request :: requests) = (request :: requests).length ↔
        (request :: requests).IsChain Joins) := by
  have bound := counted_le regular
  cases requests with
  | nil =>
      have single := counted_single request
      have own := regular request List.mem_cons_self
      have once : callsFor [request] = 1 := by
        simp only [callsFor, single]
        split_ifs <;> omega
      rw [once]
      exact ⟨le_rfl, iff_of_true rfl (List.isChain_singleton request)⟩
  | cons next requests =>
      rw [← counted_iff requests request next regular]
      simp only [callsFor, List.length_cons] at bound ⊢
      split_ifs <;> constructor <;> omega

theorem parsed_mem {other : WellFormedRequest} (member : other ∈ parsed requests) :
    other ∈ requests := by
  induction requests with
  | nil => exact member
  | cons request requests ih =>
      rw [parsed] at member
      split_ifs at member
      · exact List.mem_cons.mpr (.inl (List.mem_singleton.mp member))
      · rcases List.mem_cons.mp member with rfl | later
        · exact List.mem_cons_self
        · exact List.mem_cons_of_mem _ (ih later)

theorem complete_parsed (request : WellFormedRequest) (requests : List WellFormedRequest) :
    (contentOf noContent (parsed (request :: requests))).complete = true := by
  have first : (noContent.behind request.content).complete = true := by
    simp [RequestData.behind, content_complete]
  rw [parsed]
  split_ifs
  · exact complete_contentOf [] _ first
  · exact complete_contentOf (parsed requests) _ first

theorem requestCount_parsed (valued : ∀ other ∈ requests, Valued other.content) {r : HttpRequest}
    (same : forgetUrl r.content = contentOf noContent (parsed requests)) :
    httpRequestGetRequestCount r = callsFor requests := by
  have headers : r.content.headers = (contentOf noContent (parsed requests)).headers := by
    rw [← same]
    rfl
  have counted := countFields_contentOf (parsed requests) noContent noContent_valued
    fun other member => valued other (parsed_mem member)
  have count : countFields isCSeq r.content.headers =
      ((parsed requests).map WellFormedRequest.cseqs).sum := by
    rw [headers, counted]
    exact Nat.zero_add _
  rw [callsFor, ← count]
  rfl

end requests

section outcomes

variable {object : HttpRequest} {fed data : Bytes} {request : WellFormedRequest}
  {requests : List WellFormedRequest} (waits : Waits object fed) (nonempty : data ≠ [])
  (unlike : ¬ okReply <+: data)

include waits nonempty unlike

theorem receiveHttp_inside {behind : Bytes} (split : request.bytes = fed ++ data ++ behind)
    (more : behind ≠ []) :
    ∃ r, receiveHttp object data = some (.waiting r) ∧ Waits r (fed ++ data) := by
  have head := request.headText
  rw [split] at head
  have outcome := receiveHttp_reads waits nonempty unlike
    (headText_append noUrlSettings behind _ httpParserInit noContent head).1
  obtain ⟨t, v, reads, incomplete⟩ := read_front request split more
  rw [reads] at outcome
  obtain ⟨r, waits', same, received⟩ := outcome
  refine ⟨r, ?_, waits'⟩
  rw [received, incomplete, if_neg Bool.false_ne_true]

/-- A segment that reaches the end of the first request completes the object, unless it
brings an error. -/
theorem receiveHttp_reaches {behind : Bytes} (split : fed ++ data = request.bytes ++ behind)
    (head : HeadText (· ≠ 0) (fed ++ data) httpParserInit) :
    receiveHttp object data = none ∨ receiveHttp object data = some .invalidMethod ∨
      receiveHttp object data = some .parseError ∨
        ∃ r, receiveHttp object data = some (.complete r) := by
  have outcome := receiveHttp_reads waits nonempty unlike head
  obtain ⟨-, alone⟩ := read_request request
  have complete := content_complete request
  cases reading : read noUrlSettings (fed ++ data) httpParserInit noContent with
  | failed t =>
      rw [reading] at outcome
      rcases outcome with method | error
      · exact .inr (.inl method)
      · exact .inr (.inr (.inl error))
  | aborted =>
      rw [reading] at outcome
      exact .inl outcome
  | ended q content =>
      have finished : content.complete = true := by
        rw [split, read_append, alone] at reading
        split at reading
        · cases reading
        · exact (read_stays behind _ _ complete).1 _ _ reading
      rw [reading] at outcome
      obtain ⟨r, -, -, received⟩ := outcome
      rw [finished, if_pos rfl] at received
      exact .inr (.inr (.inr ⟨r, received⟩))
  | left q content rest =>
      have finished : content.complete = true := by
        rw [split, read_append, alone] at reading
        split at reading
        · simp only [Reading.andThen, Reading.left.injEq] at reading
          rw [← reading.2.1]
          exact complete
        · exact (read_stays behind _ _ complete).2 _ _ _ reading
      rw [reading] at outcome
      obtain ⟨r, -, received⟩ := outcome
      rw [finished, if_pos rfl] at received
      exact .inr (.inr (.inr ⟨r, received⟩))

/-- Whole requests are dispatched where the parser accepts them. -/
theorem receiveHttp_whole (text : fed ++ data = bytesOfAll (request :: requests))
    (valued : ∀ other ∈ request :: requests, Valued other.content) :
    (Accepted (request :: requests) → ∃ r, receiveHttp object data = some (.complete r)) ∧
      ∀ r, receiveHttp object data = some (.complete r) →
        Accepted (request :: requests) ∧
          httpRequestGetRequestCount r = callsFor (request :: requests) := by
  have head := headText_requests (request :: requests) httpParserInit ⟨rfl, rfl⟩
  rw [← text] at head
  have outcome := receiveHttp_reads waits nonempty unlike head
  rw [accepted_iff, ← text]
  have reads := read_requests (p := httpParserInit) (request :: requests) ⟨rfl, rfl⟩
    noContent_valued valued
  rw [← text] at reads
  have finished := complete_parsed request requests
  constructor
  · intro accepts
    obtain ⟨q, -, ended | ⟨rest, left⟩⟩ := reads accepts
    · rw [ended] at outcome
      obtain ⟨r, -, -, received⟩ := outcome
      rw [finished, if_pos rfl] at received
      exact ⟨r, received⟩
    · rw [left] at outcome
      obtain ⟨r, -, received⟩ := outcome
      rw [finished, if_pos rfl] at received
      exact ⟨r, received⟩
  · intro r completes
    have accepts : ∀ t, read noUrlSettings (fed ++ data) httpParserInit noContent ≠ .failed t := by
      intro t failed
      rw [failed, completes] at outcome
      rcases outcome with method | error
      · cases method
      · cases error
    refine ⟨accepts, ?_⟩
    obtain ⟨q, -, ended | ⟨rest, left⟩⟩ := reads accepts
    · rw [ended] at outcome
      obtain ⟨r', -, same, received⟩ := outcome
      rw [completes, finished, if_pos rfl] at received
      cases received
      exact requestCount_parsed valued same
    · rw [left] at outcome
      obtain ⟨r', same, received⟩ := outcome
      rw [completes, finished, if_pos rfl] at received
      cases received
      exact requestCount_parsed valued same

end outcomes

end AirCast.Http
