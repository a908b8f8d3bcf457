import AirCast.Http.HttpStreams

/-! # Stretches of segments

The requests of a connection come out whole exactly if its segments fall into stretches:
each ends with the end of a request, and in its last segment alone requests end. -/

set_option autoImplicit false

namespace AirCast.Http

def bytesReceived (segments : List Segment) : Bytes := (segments.map Segment.bytes).flatten

/-- Each request is dispatched once, by an object that was given all its bytes. -/
def Whole (requests : List WellFormedRequest) (dispatched : List Dispatched) : Prop :=
  (dispatched.map Dispatched.calls).sum = requests.length ∧
    ∃ groups : List (List WellFormedRequest), groups.flatten = requests ∧
      dispatched.map Dispatched.fed = groups.map bytesOfAll

/-- What the connection makes of the segments. -/
def DeliversAll (segments : List Segment) (requests : List WellFormedRequest) : Prop :=
  ∃ s, HttpStream.start.receiveAll segments = some s ∧ Whole requests s.dispatched

/-- The server calls `conn_request` once for each request, with an object that was given all
its bytes. -/
def ServesAll {n : ℕ} (i : Fin n) (s : Httpd n) (segments : List Segment)
    (requests : List WellFormedRequest) : Prop :=
  ∃ t stream, (segments.map fun segment => segment.event i).foldlM httpdStep s = some t ∧
    requestCalls [] t.calls = requestCalls [] s.calls + requests.length ∧
    HttpStream.start.receiveAll segments = some stream ∧
    ∃ groups : List (List WellFormedRequest), groups.flatten = requests ∧
      stream.dispatched.map Dispatched.fed = groups.map bytesOfAll

/-- The first requests end in the last segment of the stretch, and the segments before it
lie inside the first of them.  No answer but the last one asks to disconnect. -/
structure Stretch (first : WellFormedRequest) (group : List WellFormedRequest)
    (waiting : List Segment) (last : Segment) : Prop where
  unlike : ∀ segment ∈ waiting ++ [last], ¬ okReply <+: segment.bytes
  inside : ∃ behind, behind ≠ [] ∧ first.bytes = bytesReceived waiting ++ behind
  ends : bytesReceived (waiting ++ [last]) = bytesOfAll (first :: group)
  joined : (first :: group).IsChain Joins
  accepted : Accepted (first :: group)
  calm : DisconnectsLast last.responses (first :: group).length 1

/-- The segments fall into stretches, and the connection stays up to the last of them. -/
inductive InStretches : List WellFormedRequest → List Segment → Prop
  | done : InStretches [] []
  | stretch {first : WellFormedRequest} {group back : List WellFormedRequest}
      {waiting rest : List Segment} {last : Segment} (own : Stretch first group waiting last)
      (stays : back = [] ∨ disconnects last.responses (first :: group).length = false)
      (behind : InStretches back rest) :
      InStretches (first :: group ++ back) (waiting ++ last :: rest)

section bytes

variable {segments rest : List Segment} {segment : Segment}

theorem bytesReceived_cons : bytesReceived (segment :: rest) = segment.bytes ++ bytesReceived rest :=
  rfl

theorem bytesReceived_append :
    bytesReceived (segments ++ rest) = bytesReceived segments ++ bytesReceived rest := by
  rw [bytesReceived, List.map_append, List.flatten_append]
  rfl

theorem bytesReceived_single : bytesReceived [segment] = segment.bytes := List.append_nil _

theorem bytesReceived_eq_nil (empty : bytesReceived segments = []) : segments = [] := by
  cases segments with
  | nil => rfl
  | cons segment rest =>
      rw [bytesReceived_cons, List.append_eq_nil_iff] at empty
      exact absurd empty.1 segment.received

end bytes

section run

variable {s t : HttpStream} {segments : List Segment} {segment : Segment}

theorem receive_fed (step : s.receive segment = some t) :
    ∃ new : List Dispatched, t.dispatched = s.dispatched ++ new ∧
      (new.map Dispatched.fed).flatten.length + t.fed.length ≤
        s.fed.length + segment.bytes.length := by
  unfold HttpStream.receive at step
  split_ifs at step
  · obtain ⟨outcome, -, rfl⟩ := Option.map_eq_some_iff.mp step
    cases outcome with
    | skipped => exact ⟨[], by simp, by simp⟩
    | invalidMethod => exact ⟨[], by simp, by simp⟩
    | parseError => exact ⟨[], by simp, by simp⟩
    | waiting r => exact ⟨[], by simp, by simp⟩
    | complete r => exact ⟨_, rfl, by simp⟩
  · cases step
    exact ⟨[], by simp, by simp⟩

theorem receiveAll_fed (run : s.receiveAll segments = some t) :
    ∃ new : List Dispatched, t.dispatched = s.dispatched ++ new ∧
      (new.map Dispatched.fed).flatten.length + t.fed.length ≤
        s.fed.length + (bytesReceived segments).length := by
  induction segments generalizing s with
  | nil =>
      cases run
      exact ⟨[], by simp, by simp [bytesReceived]⟩
  | cons segment rest ih =>
      obtain ⟨next, step, later⟩ := Option.bind_eq_some_iff.mp run
      obtain ⟨first, same, fed⟩ := receive_fed step
      obtain ⟨new, behind, total⟩ := ih later
      refine ⟨first ++ new, by rw [behind, same, List.append_assoc], ?_⟩
      rw [bytesReceived_cons, List.map_append, List.flatten_append, List.length_append,
        List.length_append]
      omega

theorem receiveAll_append (first second : List Segment) :
    s.receiveAll (first ++ second) = (s.receiveAll first).bind fun t => t.receiveAll second := by
  induction first generalizing s with
  | nil => rfl
  | cons segment rest ih =>
      simp only [List.cons_append, HttpStream.receiveAll, Option.bind_assoc]
      exact congrArg _ (funext fun next => ih)

theorem receiveAll_closed (closed : s.connected = false) : s.receiveAll segments = some s := by
  induction segments with
  | nil => rfl
  | cons segment rest ih =>
      rw [HttpStream.receiveAll, HttpStream.receive, closed, if_neg Bool.false_ne_true]
      exact ih

end run

/-! ## Inside a request -/

/-- The connection has an object for the segments behind the last dispatch. -/
structure Listens (s : HttpStream) (waited : List Segment) : Prop where
  connected : s.connected = true
  waits : Waits (s.request.getD httpRequestInit) s.fed
  fed : s.fed = bytesReceived waited
  unlike : ∀ segment ∈ waited, ¬ okReply <+: segment.bytes

section inside

variable {s t : HttpStream} {waited : List Segment} {segment : Segment} {first : WellFormedRequest}

theorem listens_again (dispatched : List Dispatched) :
    Listens ⟨true, none, [], dispatched⟩ [] := ⟨rfl, waits_init, rfl, by simp⟩

theorem Listens.inside (listens : Listens s waited) (unlike : ¬ okReply <+: segment.bytes)
    {behind : Bytes} (split : first.bytes = s.fed ++ segment.bytes ++ behind) (more : behind ≠ []) :
    ∃ t, s.receive segment = some t ∧ t.dispatched = s.dispatched ∧
      Listens t (waited ++ [segment]) := by
  obtain ⟨connected, waits, fed, before⟩ := listens
  obtain ⟨r, received, waits'⟩ := receiveHttp_inside waits segment.received unlike split more
  refine ⟨{ s with request := some r, fed := s.fed ++ segment.bytes }, ?_, rfl, connected, waits',
    ?_, ?_⟩
  · rw [HttpStream.receive, if_pos connected, received]
    rfl
  · rw [bytesReceived_append, ← fed, bytesReceived_single]
  · intro other member
    rcases List.mem_append.mp member with earlier | same
    · exact before other earlier
    · rw [List.mem_singleton.mp same]
      exact unlike

theorem Listens.insideAll {behind : Bytes} (more : behind ≠ []) :
    ∀ (segments : List Segment) (s : HttpStream) (waited : List Segment), Listens s waited →
      (∀ segment ∈ segments, ¬ okReply <+: segment.bytes) →
      first.bytes = s.fed ++ bytesReceived segments ++ behind →
        ∃ t, s.receiveAll segments = some t ∧ t.dispatched = s.dispatched ∧
          Listens t (waited ++ segments) := by
  intro segments
  induction segments with
  | nil =>
      intro s waited listens _ _
      exact ⟨s, rfl, rfl, by rwa [List.append_nil]⟩
  | cons segment rest ih =>
      intro s waited listens unlike split
      rw [bytesReceived_cons, ← List.append_assoc, List.append_assoc _ _ behind] at split
      obtain ⟨next, step, same, listens'⟩ := listens.inside
        (unlike segment List.mem_cons_self) split (by simp [more])
      have fed : next.fed = s.fed ++ segment.bytes := by
        rw [listens'.fed, bytesReceived_append, ← listens.fed, bytesReceived_single]
      obtain ⟨t, run, kept, later⟩ := ih next (waited ++ [segment]) listens'
        (fun other member => unlike other (List.mem_cons_of_mem _ member))
        (by rw [fed, split, List.append_assoc _ _ behind])
      refine ⟨t, ?_, kept.trans same, ?_⟩
      · rw [HttpStream.receiveAll, step]
        exact run
      · rwa [List.append_assoc, List.singleton_append] at later

end inside

/-! ## The end of a stretch -/

def HttpStream.dispatch (s : HttpStream) (segment : Segment) (calls : ℕ) : HttpStream :=
  ⟨!disconnects segment.responses calls, none, [],
    s.dispatched ++ [⟨s.fed ++ segment.bytes, callsAlive segment.responses calls 1⟩]⟩

section ends

variable {s t : HttpStream} {waited : List Segment} {segment : Segment} {first : WellFormedRequest}
  {group : List WellFormedRequest}

theorem Listens.complete (listens : Listens s waited) {r : HttpRequest}
    (received : receiveHttp (s.request.getD httpRequestInit) segment.bytes = some (.complete r)) :
    s.receive segment = some (s.dispatch segment (httpRequestGetRequestCount r)) := by
  rw [HttpStream.receive, if_pos listens.connected, received]
  rfl

theorem Listens.reaches (listens : Listens s waited) (unlike : ¬ okReply <+: segment.bytes)
    {behind : Bytes} (split : s.fed ++ segment.bytes = first.bytes ++ behind)
    (head : HeadText (· ≠ 0) (s.fed ++ segment.bytes) httpParserInit)
    (step : s.receive segment = some t) :
    (t.dispatched = s.dispatched ∧ t.fed = []) ∨
      ∃ r, receiveHttp (s.request.getD httpRequestInit) segment.bytes = some (.complete r) ∧
        t = s.dispatch segment (httpRequestGetRequestCount r) := by
  rcases receiveHttp_reaches listens.waits segment.received unlike split head with
    aborts | invalid | error | ⟨r, complete⟩
  · rw [HttpStream.receive, if_pos listens.connected, aborts] at step
    cases step
  · rw [HttpStream.receive, if_pos listens.connected, invalid] at step
    cases step
    exact .inl ⟨rfl, rfl⟩
  · rw [HttpStream.receive, if_pos listens.connected, error] at step
    cases step
    exact .inl ⟨rfl, rfl⟩
  · rw [listens.complete complete] at step
    cases step
    exact .inr ⟨r, complete, rfl⟩

theorem Stretch.receives {waiting : List Segment} {last : Segment}
    (own : Stretch first group waiting last)
    (regular : ∀ request ∈ first :: group, Regular request) (dispatched : List Dispatched) :
    (⟨true, none, [], dispatched⟩ : HttpStream).receiveAll (waiting ++ [last]) =
      some ⟨!disconnects last.responses (first :: group).length, none, [],
        dispatched ++ [⟨bytesOfAll (first :: group), (first :: group).length⟩]⟩ := by
  obtain ⟨unlike, ⟨behind, more, inside⟩, ends, joined, accepted, calm⟩ := own
  obtain ⟨s, run, same, listens⟩ := Listens.insideAll more waiting _ [] (listens_again dispatched)
    (fun segment member => unlike segment (List.mem_append_left _ member)) inside
  rw [List.nil_append] at listens
  rw [bytesReceived_append, bytesReceived_single, ← listens.fed] at ends
  obtain ⟨completes, counts⟩ := receiveHttp_whole listens.waits last.received
    (unlike last (by simp)) ends fun request member => (regular request member).valued
  obtain ⟨r, complete⟩ := completes accepted
  have count : httpRequestGetRequestCount r = (first :: group).length := by
    rw [(counts r complete).2]
    exact (callsFor_iff fun request member => (regular request member).numbered).2.mpr joined
  rw [receiveAll_append, run, Option.bind_some, HttpStream.receiveAll, listens.complete complete,
    Option.bind_some, HttpStream.receiveAll, HttpStream.dispatch, count, same, ends,
    (callsAlive_iff _ _ _).mpr calm]

end ends

/-! ## Whole runs -/

theorem inStretches_nil {segments : List Segment} (none_ : InStretches [] segments) :
    segments = [] := by
  generalize nothing : ([] : List WellFormedRequest) = requests at none_
  cases none_ with
  | done => rfl
  | stretch own stays behind => simp at nothing

theorem whole_nil : Whole [] [] := ⟨rfl, [], rfl, rfl⟩

theorem Whole.append {group back : List WellFormedRequest} {dispatched : List Dispatched}
    (behind : Whole back dispatched) :
    Whole (group ++ back) (⟨bytesOfAll group, group.length⟩ :: dispatched) := by
  obtain ⟨count, groups, flat, fed⟩ := behind
  refine ⟨by rw [List.map_cons, List.sum_cons, count, List.length_append], group :: groups, ?_, ?_⟩
  · rw [List.flatten_cons, flat]
  · rw [List.map_cons, List.map_cons, fed]

theorem InStretches.whole {requests : List WellFormedRequest} {segments : List Segment}
    (stretches : InStretches requests segments) (regular : ∀ request ∈ requests, Regular request)
    (dispatched : List Dispatched) :
    ∃ t new, (⟨true, none, [], dispatched⟩ : HttpStream).receiveAll segments = some t ∧
      t.dispatched = dispatched ++ new ∧ Whole requests new := by
  induction stretches generalizing dispatched with
  | done => exact ⟨_, [], rfl, (List.append_nil _).symm, whole_nil⟩
  | @stretch first group back waiting rest last own stays behind ih =>
      have run := own.receives (fun request member => regular request
        (List.mem_append_left _ member)) dispatched
      have joined : waiting ++ last :: rest = waiting ++ [last] ++ rest := by simp
      rw [joined, receiveAll_append, run, Option.bind_some]
      by_cases leaves : disconnects last.responses (first :: group).length = true
      · have none_ : back = [] := stays.resolve_right fun up => by
          rw [leaves] at up
          cases up
        subst none_
        have nothing := inStretches_nil behind
        subst nothing
        exact ⟨_, _, rfl, rfl, whole_nil.append⟩
      · rw [Bool.not_eq_true] at leaves
        rw [leaves]
        obtain ⟨t, new, later, same, whole⟩ := ih
          (fun request member => regular request (List.mem_append_right _ member)) _
        exact ⟨t, _, later, by rw [same, List.append_assoc]; rfl, whole.append⟩

/-! ## What whole runs look like -/

def EndsInside (fed : Bytes) : List WellFormedRequest → Prop
  | [] => fed = []
  | first :: _ => ∃ behind, behind ≠ [] ∧ first.bytes = fed ++ behind

theorem endsInside_nil : ∀ requests : List WellFormedRequest, EndsInside [] requests
  | [] => rfl
  | first :: _ => ⟨first.bytes, bytes_ne_nil first, rfl⟩

section converse

variable {s t next : HttpStream} {waited rest : List Segment} {segment : Segment}
  {requests : List WellFormedRequest} {groups : List (List WellFormedRequest)}
  {new : List Dispatched}

theorem not_lost (text : s.fed ++ bytesReceived (segment :: rest) = bytesOfAll requests)
    (flat : groups.flatten = requests) (fed : new.map Dispatched.fed = groups.map bytesOfAll)
    (run : next.receiveAll rest = some t) (dispatched : t.dispatched = s.dispatched ++ new)
    (same : next.dispatched = s.dispatched)
    (lost : next.fed.length < s.fed.length + segment.bytes.length) : False := by
  obtain ⟨later, grows, total⟩ := receiveAll_fed run
  rw [dispatched, same, List.append_cancel_left_eq] at grows
  have all := congrArg List.length text
  rw [← grows, fed, ← bytesOfAll_flatten, flat, ← text] at total
  simp only [bytesReceived_cons, List.length_append] at total
  omega

theorem Listens.stretch {first : WellFormedRequest} {group : List WellFormedRequest}
    (listens : Listens s waited) (unlike : ¬ okReply <+: segment.bytes)
    (inside : EndsInside s.fed (first :: group))
    (text : s.fed ++ segment.bytes = bytesOfAll (first :: group))
    (joined : (first :: group).IsChain Joins) (accepted : Accepted (first :: group))
    (calm : DisconnectsLast segment.responses (first :: group).length 1) :
    Stretch first group waited segment where
  unlike := by
    intro other member
    rcases List.mem_append.mp member with earlier | same
    · exact listens.unlike other earlier
    · rw [List.mem_singleton.mp same]
      exact unlike
  inside := by rwa [EndsInside, listens.fed] at inside
  ends := by rw [bytesReceived_append, bytesReceived_single, ← listens.fed, text]
  joined := joined
  accepted := accepted
  calm := calm

theorem dispatched_first {calls : ℕ} {fed : Bytes} (nonempty : fed ≠ [])
    (dispatched : (⟨fed, calls⟩ :: new).map Dispatched.fed = groups.map bytesOfAll) :
    ∃ first group back, groups = (first :: group) :: back ∧ fed = bytesOfAll (first :: group) ∧
      new.map Dispatched.fed = back.map bytesOfAll := by
  cases groups with
  | nil => simp at dispatched
  | cons group back =>
      rw [List.map_cons, List.map_cons, List.cons.injEq] at dispatched
      cases group with
      | nil => exact absurd dispatched.1 nonempty
      | cons first group => exact ⟨first, group, back, rfl, dispatched.1, dispatched.2⟩

theorem cut_first {first : WellFormedRequest} {others : List WellFormedRequest}
    {fed data behind : Bytes} (text : fed ++ (data ++ behind) = bytesOfAll (first :: others)) :
    (∃ more, more ≠ [] ∧ first.bytes = fed ++ data ++ more) ∨
      ∃ more, fed ++ data = first.bytes ++ more ∧ bytesOfAll others = more ++ behind := by
  rw [bytesOfAll_cons, ← List.append_assoc, List.append_eq_append_iff] at text
  rcases text with ⟨more, split, rest⟩ | ⟨more, split, rest⟩
  · by_cases ends : more = []
    · subst ends
      exact .inr ⟨[], by simpa using split.symm, by simpa using rest.symm⟩
    · exact .inl ⟨more, ends, split⟩
  · exact .inr ⟨more, split, rest⟩

/-- If the objects dispatched on the way from `s` to `t` were given whole requests, there
are at most as many calls, and as many only for stretches. -/
def OnlyStretches (s t : HttpStream) (waited segments : List Segment) : Prop :=
  ∀ (requests : List WellFormedRequest) (groups : List (List WellFormedRequest))
    (new : List Dispatched), EndsInside s.fed requests →
    (∀ request ∈ requests, Regular request) →
    s.fed ++ bytesReceived segments = bytesOfAll requests →
    t.dispatched = s.dispatched ++ new → groups.flatten = requests →
    new.map Dispatched.fed = groups.map bytesOfAll →
      (new.map Dispatched.calls).sum ≤ requests.length ∧
        ((new.map Dispatched.calls).sum = requests.length →
          InStretches requests (waited ++ segments))

theorem closed_behind {calls : ℕ} {back : List (List WellFormedRequest)}
    (leaves : disconnects segment.responses calls = true)
    (later : (s.dispatch segment calls).receiveAll rest = some t)
    (grows : t.dispatched = (s.dispatch segment calls).dispatched ++ new)
    (fed : new.map Dispatched.fed = back.map bytesOfAll)
    (text : bytesReceived rest = bytesOfAll back.flatten) :
    new = [] ∧ back = [] ∧ rest = [] := by
  rw [receiveAll_closed (by simp [HttpStream.dispatch, leaves])] at later
  rw [← Option.some.inj later, List.self_eq_append_right] at grows
  subst grows
  rw [List.map_nil, eq_comm, List.map_eq_nil_iff] at fed
  subst fed
  exact ⟨rfl, rfl, bytesReceived_eq_nil text⟩

/-- A completed object was given the requests of a stretch. -/
theorem Listens.onlyStretches {r : HttpRequest} (listens : Listens s waited)
    (unlike : ¬ okReply <+: segment.bytes)
    (complete : receiveHttp (s.request.getD httpRequestInit) segment.bytes = some (.complete r))
    (later : (s.dispatch segment (httpRequestGetRequestCount r)).receiveAll rest = some t)
    (goes : disconnects segment.responses (httpRequestGetRequestCount r) = false →
      OnlyStretches (s.dispatch segment (httpRequestGetRequestCount r)) t [] rest) :
    OnlyStretches s t waited (segment :: rest) := by
  intro requests groups new inside regular text dispatched flat fed
  obtain ⟨new', grows, -⟩ := receiveAll_fed later
  have front : new = ⟨s.fed ++ segment.bytes,
      callsAlive segment.responses (httpRequestGetRequestCount r) 1⟩ :: new' := by
    rw [dispatched, HttpStream.dispatch, List.append_assoc] at grows
    exact List.append_cancel_left grows
  subst front
  obtain ⟨first, group, back, rfl, given, fed'⟩ :=
    dispatched_first (by simp [segment.received]) fed
  rw [List.flatten_cons] at flat
  subst flat
  have own : ∀ request ∈ first :: group, Regular request := fun request member =>
    regular request (List.mem_append_left back.flatten member)
  obtain ⟨accepted, counts⟩ := (receiveHttp_whole listens.waits segment.received unlike given
    fun request member => (own request member).valued).2 r complete
  obtain ⟨atMost, exactly⟩ := callsFor_iff fun request member => (own request member).numbered
  rw [← counts] at atMost exactly
  have alive := callsAlive_le segment.responses (httpRequestGetRequestCount r) 1
  -- where each call of the stretch has the object, no answer but the last disconnects
  have calm : callsAlive segment.responses (httpRequestGetRequestCount r) 1 =
      (first :: group).length → httpRequestGetRequestCount r = (first :: group).length ∧
        DisconnectsLast segment.responses (first :: group).length 1 := by
    intro all
    have calls : httpRequestGetRequestCount r = (first :: group).length := by omega
    exact ⟨calls, (callsAlive_iff _ _ _).mp (calls ▸ all)⟩
  have behind : bytesReceived rest = bytesOfAll back.flatten := by
    rw [bytesReceived_cons, ← List.append_assoc, given, bytesOfAll_append] at text
    exact List.append_cancel_left text
  rw [List.map_cons, List.sum_cons, List.length_append]
  by_cases leaves : disconnects segment.responses (httpRequestGetRequestCount r) = true
  · obtain ⟨rfl, rfl, rfl⟩ := closed_behind leaves later grows fed' behind
    rw [List.map_nil, List.sum_nil, List.flatten_nil, List.length_nil]
    refine ⟨by simpa using alive.trans atMost, fun all => ?_⟩
    obtain ⟨calls, last⟩ := calm (by simpa using all)
    exact .stretch (listens.stretch unlike inside given (exactly.mp calls) accepted last)
      (.inl rfl) .done
  · rw [Bool.not_eq_true] at leaves
    obtain ⟨few, alike⟩ := goes leaves back.flatten back new' (endsInside_nil _)
      (fun request member => regular request (List.mem_append_right (first :: group) member))
      behind grows rfl fed'
    refine ⟨Nat.add_le_add (alive.trans atMost) few, fun all => ?_⟩
    dsimp only at all
    obtain ⟨calls, last⟩ := calm (by omega)
    exact .stretch (listens.stretch unlike inside given (exactly.mp calls) accepted last)
      (.inr (calls ▸ leaves)) (alike (by omega))

/-- A run that loses nothing goes over stretches. -/
theorem receiveAll_onlyStretches :
    ∀ (segments : List Segment) (s : HttpStream) (waited : List Segment), Listens s waited →
      s.receiveAll segments = some t → OnlyStretches s t waited segments := by
  intro segments
  induction segments with
  | nil =>
      intro s waited listens run requests groups new inside _ text dispatched _ _
      rw [← Option.some.inj run, List.self_eq_append_right] at dispatched
      subst dispatched
      cases requests with
      | nil =>
          have nothing : bytesReceived waited = [] := listens.fed.symm.trans inside
          rw [bytesReceived_eq_nil nothing]
          exact ⟨le_rfl, fun _ => .done⟩
      | cons first others =>
          obtain ⟨behind, more, split⟩ := inside
          have short := congrArg List.length text
          have long := congrArg List.length split
          have positive := List.length_pos_iff.mpr more
          simp only [bytesReceived, bytesOfAll_cons, List.map_nil, List.flatten_nil,
            List.length_append, List.length_nil] at short long
          omega
  | cons segment rest ih =>
      intro s waited listens run requests groups new inside regular text dispatched flat fed
      obtain ⟨next, step, later⟩ := Option.bind_eq_some_iff.mp run
      have some_ := List.length_pos_iff.mpr segment.received
      by_cases unlike : okReply <+: segment.bytes
      · -- the segment is skipped, and its bytes are given to no object
        rw [HttpStream.receive, if_pos listens.connected, receiveHttp, if_pos unlike] at step
        cases step
        exact (not_lost text flat fed later dispatched rfl (Nat.lt_add_of_pos_right some_)).elim
      · cases requests with
        | nil => simp [bytesOfAll, bytesReceived_cons, segment.received] at text
        | cons first others =>
            rcases cut_first text with ⟨behind, more, split⟩ | ⟨behind, split, -⟩
            · -- the segment ends inside the request
              obtain ⟨next', step', same, listens'⟩ := listens.inside unlike split more
              rw [step] at step'
              cases step'
              have given : next.fed = s.fed ++ segment.bytes := by
                rw [listens'.fed, bytesReceived_append, ← listens.fed, bytesReceived_single]
              have goes := ih next (waited ++ [segment]) listens' later (first :: others) groups new
                ⟨behind, more, by rw [given]; exact split⟩ regular
                (by rw [given, List.append_assoc]; exact text) (by rw [same]; exact dispatched)
                flat fed
              rwa [List.append_assoc, List.singleton_append] at goes
            · -- the segment brings the end of the request
              have head : HeadText (· ≠ 0) (s.fed ++ segment.bytes) httpParserInit := by
                have all := headText_requests (first :: others) httpParserInit ⟨rfl, rfl⟩
                rw [← text, bytesReceived_cons, ← List.append_assoc] at all
                exact (headText_append noUrlSettings _ _ httpParserInit noContent all).1
              rcases listens.reaches unlike split head step with ⟨same, empty⟩ | ⟨r, complete, rfl⟩
              · refine (not_lost text flat fed later dispatched same ?_).elim
                rw [empty, List.length_nil]
                omega
              · refine listens.onlyStretches unlike complete later (fun stays => ?_)
                  (first :: others) groups new inside regular text dispatched flat fed
                refine ih _ [] ?_ later
                rw [HttpStream.dispatch, stays]
                exact listens_again _

end converse

theorem deliversAll_iff (requests : List WellFormedRequest) (segments : List Segment)
    (regular : ∀ request ∈ requests, Regular request)
    (stream : bytesReceived segments = bytesOfAll requests) :
    DeliversAll segments requests ↔ InStretches requests segments := by
  constructor
  · rintro ⟨s, run, count, groups, flat, fed⟩
    exact (receiveAll_onlyStretches segments .start [] (listens_again []) run requests groups
      s.dispatched (endsInside_nil requests) regular stream rfl flat fed).2 count
  · intro stretches
    obtain ⟨t, new, run, same, whole⟩ := stretches.whole regular []
    exact ⟨t, run, by rwa [same]⟩

section server

variable {n : ℕ} {i : Fin n} {s : Httpd n} {segments : List Segment}
  {requests : List WellFormedRequest}

theorem servesAll_iff (shows : ShowsStream i (requestCalls [] s.calls) s .start) :
    ServesAll i s segments requests ↔ DeliversAll segments requests := by
  have related := receiveAll_shows segments shows
  constructor
  · rintro ⟨t, stream, served, count, run, groups, flat, fed⟩
    rw [served, run] at related
    cases related with
    | some last => exact ⟨stream, run, Nat.add_left_cancel (last.calls ▸ count), groups, flat, fed⟩
  · rintro ⟨stream, run, count, groups, flat, fed⟩
    rw [run] at related
    generalize reached : (segments.map fun segment => segment.event i).foldlM httpdStep s = served
      at related
    cases related with
    | some last =>
        exact ⟨_, stream, reached, by rw [last.calls, count], run, groups, flat, fed⟩

/-- A client that has just been accepted is served each of its requests, whole and once,
exactly if its segments fall into stretches. -/
theorem delivers_iff_inStretches (shows : ShowsStream i (requestCalls [] s.calls) s .start)
    (regular : ∀ request ∈ requests, Regular request)
    (stream : bytesReceived segments = bytesOfAll requests) :
    ServesAll i s segments requests ↔ InStretches requests segments := by
  rw [servesAll_iff shows, deliversAll_iff requests segments regular stream]

end server

/-! ## One client -/

theorem infoRequest_regular : Regular infoRequest := ⟨⟨by decide, by decide⟩, by decide⟩

def oneClient : Httpd 1 :=
  { httpdInit 1 0 with running := true }.acceptConnection (.client false true)

theorem oneClient_shows : ShowsStream 0 (requestCalls [] oneClient.calls) oneClient .start where
  running := rfl
  http := by decide
  connected := rfl
  request := rfl
  alive := fun _ => ⟨0, rfl, by decide⟩
  calls := rfl

def noAnswer : Httpd.Responses := fun _ => none

def secondLeaves : Httpd.Responses := fun index => if index = 2 then some true else none

/-- `GET /info ...` in two segments, and then twice in one. -/
def cutInfo : List Segment :=
  [⟨infoText.bytes.take 7, by decide, noAnswer⟩, ⟨infoText.bytes.drop 7, by decide, noAnswer⟩,
    ⟨infoText.bytes ++ infoText.bytes, by decide, secondLeaves⟩]

theorem twoInfos_accepted : Accepted [infoRequest, infoRequest] := by
  have fine : (httpRequestAddData httpRequestInit (bytesOfAll [infoRequest, infoRequest])).map
      httpRequestHasError = some false := by
    decide
  intro r adds
  rw [adds, Option.map_some, Option.some.injEq] at fine
  exact fine

theorem cutInfo_served :
    ServesAll 0 oneClient cutInfo [infoRequest, infoRequest, infoRequest] := by
  have alone : Accepted [infoRequest] := by
    intro r adds
    have same : bytesOfAll [infoRequest] = infoRequest.bytes := List.append_nil _
    rw [same, infoRequest.accepts] at adds
    cases adds
    exact infoRequest.fine
  have cut : Stretch infoRequest [] [⟨infoText.bytes.take 7, by decide, noAnswer⟩]
      ⟨infoText.bytes.drop 7, by decide, noAnswer⟩ :=
    { unlike := by decide
      inside := ⟨infoText.bytes.drop 7, by decide, by decide⟩
      ends := by decide
      joined := List.isChain_singleton _
      accepted := alone
      calm := fun j lower upper => by simp [noAnswer] }
  have twice : Stretch infoRequest [infoRequest] []
      ⟨infoText.bytes ++ infoText.bytes, by decide, secondLeaves⟩ :=
    { unlike := by decide
      inside := ⟨infoRequest.bytes, by decide, rfl⟩
      ends := by decide
      joined := .cons_cons ⟨by decide, by decide, by decide⟩ (List.isChain_singleton _)
      accepted := twoInfos_accepted
      calm := fun j lower upper => by
        have first : j = 1 := by simp at upper; omega
        simp [first, secondLeaves] }
  exact (delivers_iff_inStretches oneClient_shows (by simp [infoRequest_regular])
    (by decide)).mpr (.stretch cut (.inr rfl) (.stretch twice (.inl rfl) .done))

def overlapping : List Segment :=
  [⟨infoText.bytes ++ infoText.bytes.take 7, by decide, noAnswer⟩,
    ⟨infoText.bytes.drop 7, by decide, noAnswer⟩]

theorem overlapping_loses :
    Regular infoRequest ∧ bytesReceived overlapping = bytesOfAll [infoRequest, infoRequest] ∧
      ¬ ServesAll 0 oneClient overlapping [infoRequest, infoRequest] := by
  refine ⟨infoRequest_regular, by decide, ?_⟩
  rintro ⟨t, stream, served, count, -⟩
  have once : ((overlapping.map fun segment => segment.event 0).foldlM httpdStep oneClient).map
      (fun t => requestCalls [] t.calls) = some 1 := by
    decide
  rw [served, Option.map_some, count] at once
  exact absurd once (by decide)

end AirCast.Http
