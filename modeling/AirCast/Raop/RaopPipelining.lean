import AirCast.Http.HttpPipelineFields
import AirCast.Lib.Slices
import AirCast.Raop.RaopHandlers

/-! # Pipelined requests

Several requests in one buffer share one `http_request_t`.  `conn_request` is called for each
with its number; it sees the fields of that request alone exactly if the requests agree where
the object keeps one value for all of them, and differ where it tells them apart. -/

set_option autoImplicit false

namespace AirCast.Raop

open AirCast.Http AirCast.Lib

/-! ## What one call observes -/

/-- The body for `conn_request`: SET_PARAMETER cuts it out of the data by the lengths in the
headers, and the other handlers take the data. -/
def observedBody (abi : Abi) (r : HttpRequest) (index : ℤ) : Except Fault Bytes :=
  if httpRequestGetMethod r = some (.lit "SET_PARAMETER") then do
    let range ← parameterRange abi r index
    readRange r range
  else .ok ((httpRequestGetData r).1.getD [])

def AsksDigest (password : Bool) (r : HttpRequest) : Prop :=
  password = true ∧ httpRequestGetMethod r ≠ some (.lit "OPTIONS")

instance (password : Bool) (r : HttpRequest) : Decidable (AsksDigest password r) :=
  inferInstanceAs (Decidable (_ ∧ _))

/-- The headers that the handlers look up with the number 1, whatever request they handle. -/
def firstHeaders (password : Bool) (r : HttpRequest) : List CString :=
  let contentType := CString.lit "Content-Type"
  let plist := httpRequestGetHeader r contentType 1 = some binaryPlist
  let method := httpRequestGetMethod r
  (if AsksDigest password r then [.lit "Authorization"] else []) ++
    if method = some (.lit "SETUP") then
      contentType :: .lit "User-Agent" :: if plist then [] else [.lit "Transport"]
    else if method = some (.lit "FLUSH") then [.lit "RTP-Info"]
    else if method = some (.lit "TEARDOWN") then [contentType]
    else []

def firstIheaders (r : HttpRequest) : List CString :=
  if httpRequestGetMethod r = some (.lit "SETUP") then [.lit "X-Apple-PD"] else []

/-- What the handlers look up with the number 1 is the same in both. -/
structure SameFirst (password : Bool) (r own : HttpRequest) : Prop where
  header : ∀ name ∈ firstHeaders password own,
    httpRequestGetHeader r name 1 = httpRequestGetHeader own name 1
  iheader : ∀ name ∈ firstIheaders own,
    httpRequestGetIheader r name 1 = httpRequestGetIheader own name 1
  url : AsksDigest password own → httpRequestGetUrl r 1 = httpRequestGetUrl own 1

/-- The call with this number observes this request; `password` says whether one is set. -/
structure Observes (abi : Abi) (password : Bool) (r : HttpRequest) (index : ℤ)
    (own : WellFormedRequest) : Prop where
  method : httpRequestGetMethod r = httpRequestGetMethod own.accepted
  url : httpRequestGetUrl r index = httpRequestGetUrl own.accepted 1
  header : ∀ name, httpRequestGetHeader r name index = httpRequestGetHeader own.accepted name 1
  iheader : ∀ name, httpRequestGetIheader r name index = httpRequestGetIheader own.accepted name 1
  first : SameFirst password r own.accepted
  body : observedBody abi r index = .ok own.body

/-- The requests are given to one object in one buffer, are all counted, and each is observed
by the call with its number. -/
def StayApart (abi : Abi) (password : Bool) (requests : List WellFormedRequest) : Prop :=
  ∃ r, httpRequestAddData httpRequestInit (bytesOfAll requests) = some r ∧
    httpRequestHasError r = false ∧ httpRequestGetRequestCount r = requests.length ∧
      ∀ front own back, requests = front ++ own :: back →
        Observes abi password r (front.length + 1) own

/-! ## When the requests stay apart -/

def allBodies (requests : List WellFormedRequest) : Bytes :=
  (requests.map WellFormedRequest.body).flatten

def declaredLength (abi : Abi) (request : WellFormedRequest) : Option ℤ :=
  contentLength abi request.accepted 1

def IsSetParameter (request : WellFormedRequest) : Prop :=
  request.content.method = some (.lit "SET_PARAMETER")

/-- SET_PARAMETER requests declare the lengths of their bodies; of others, one alone may have
a body. -/
structure BodiesFit (abi : Abi) (requests : List WellFormedRequest) : Prop where
  declared : (∀ request ∈ requests, IsSetParameter request) → ∀ request ∈ requests,
    ∃ length, declaredLength abi request = some length ∧
      request.body.length = min length.toNat (allBodies requests).length
  empty : (∃ request ∈ requests, ¬ IsSetParameter request) →
    requests.length = 1 ∨ ∀ request ∈ requests, request.body = []

def folded (name : CString) : Bytes := name.chars.map toLower

def cseq : CString := .lit "CSeq"

structure Pipelined (abi : Abi) (password : Bool) (requests : List WellFormedRequest) : Prop where
  accepted : Accepted requests
  stays : ∀ request ∈ requests.dropLast, request.upgrades = false
  method : ∀ a ∈ requests, ∀ b ∈ requests, a.content.method = b.content.method
  header : Separable id cseq (requests.map WellFormedRequest.pairs)
  iheader : Separable folded cseq (requests.map WellFormedRequest.pairs)
  first : ∀ first ∈ requests.head?, ∀ own ∈ requests,
    SameFirst password first.accepted own.accepted
  bodies : BodiesFit abi requests

/-- A request as RTSP has it: each header line has a value, and one of them is `CSeq`. -/
structure Numbered (request : WellFormedRequest) : Prop where
  valued : Valued request.content
  numbered : request.cseqs = 1

section headers

variable {φ : Type} [DecidableEq φ] {fold : CString → φ} {same : CString → CString → Bool}
  {requests : List WellFormedRequest} {r : HttpRequest}

theorem findHeader_requests (agree : ∀ a b, same a b = true ↔ fold a = fold b)
    (valued : ∀ request ∈ requests, Valued request.content)
    (holds : forgetUrl r.content = contentOf noContent requests) (name : CString) (skip : ℕ) :
    findHeader same name r.content.headers (skip + 1) =
      lookupBehind fold cseq name skip (requests.map WellFormedRequest.pairs).flatten := by
  have headers : r.content.headers = (requests.map fun request => request.content.headers).flatten := by
    have joined := headers_contentOf requests noContent
    rw [← holds] at joined
    exact joined
  have filled : ∀ header ∈ r.content.headers, header ≠ none := by
    rw [headers]
    intro header member
    obtain ⟨group, inside, own⟩ := List.mem_flatten.mp member
    obtain ⟨request, given, rfl⟩ := List.mem_map.mp inside
    exact headers_filled (valued request given) header own
  have even : ∀ group ∈ requests.map fun request => request.content.headers,
      group.length % 2 = 0 := by
    intro group inside
    obtain ⟨request, given, rfl⟩ := List.mem_map.mp inside
    exact (valued request given).even
  rw [findHeader_pairs agree name _ skip filled, headers, headerPairs_flatten _ even, List.map_map]
  rfl

theorem findHeader_own (agree : ∀ a b, same a b = true ↔ fold a = fold b)
    {own : WellFormedRequest} (valued : Valued own.content) (name : CString) :
    findHeader same name own.accepted.content.headers 1 = lookupKey fold name own.pairs := by
  have looked := findHeader_pairs agree name own.content.headers 0 (headers_filled valued)
  rw [lookupBehind_zero] at looked
  exact looked

omit [DecidableEq φ] in
theorem map_split {groups : List (List (CString × CString))} {front back : List (List (CString × CString))}
    {group : List (CString × CString)} (all : groups = requests.map WellFormedRequest.pairs)
    (split : groups = front ++ group :: back) :
    ∃ before own after, requests = before ++ own :: after ∧ before.length = front.length ∧
      own.pairs = group := by
  obtain ⟨before, behind, rfl, rfl, rest⟩ := List.map_eq_append_iff.mp (all.symm.trans split)
  obtain ⟨own, after, rfl, rfl, rfl⟩ := List.map_eq_cons_iff.mp rest
  exact ⟨before, own, after, rfl, (List.length_map _).symm, rfl⟩

theorem lookups_separate (agree : ∀ a b, same a b = true ↔ fold a = fold b)
    (valued : ∀ request ∈ requests, Valued request.content)
    (holds : forgetUrl r.content = contentOf noContent requests) :
    (∀ front own back, requests = front ++ own :: back → ∀ name,
        findHeader same name r.content.headers (front.length + 1) =
          findHeader same name own.accepted.content.headers 1) ↔
      SeparateGroups fold cseq (requests.map WellFormedRequest.pairs) := by
  constructor
  · intro looked front group back split name
    obtain ⟨before, own, after, rfl, length, rfl⟩ := map_split rfl split
    have found := looked before own after rfl name
    rw [findHeader_requests agree valued holds,
      findHeader_own agree (valued own (by simp)), length] at found
    exact found
  · rintro separate front own back rfl name
    rw [findHeader_requests agree valued holds, findHeader_own agree (valued own (by simp))]
    have found := separate (front.map WellFormedRequest.pairs) own.pairs
      (back.map WellFormedRequest.pairs) (by simp) name
    rwa [List.length_map] at found

end headers

theorem strcmp_agree (a b : CString) : decide (a = b) = true ↔ id a = id b := by simp

theorem strcasecmp_agree (a b : CString) : strcasecmpEq a b = true ↔ folded a = folded b := by
  simp [strcasecmpEq, folded]

theorem separate_requests {φ : Type} [DecidableEq φ] {fold : CString → φ}
    {requests : List WellFormedRequest} (respects : ∀ a b, fold a = fold b → folded a = folded b)
    (numbered : ∀ request ∈ requests, request.cseqs = 1) :
    SeparateGroups fold cseq (requests.map WellFormedRequest.pairs) ↔
      Separable fold cseq (requests.map WellFormedRequest.pairs) := by
  have alike : ∀ a b, fold a = fold b → isCSeq a = isCSeq b := by
    intro a b same
    have cases_alike := respects a b same
    simp only [folded] at cases_alike
    simp [isCSeq, strcasecmpEq, cases_alike]
  refine separate_iff alike (by decide) fun group member => ?_
  obtain ⟨request, given, rfl⟩ := List.mem_map.mp member
  rw [WellFormedRequest.pairs, ← countFields_pairs]
  exact numbered request given

section bodies

variable {requests : List WellFormedRequest} {r : HttpRequest}

theorem data_requests (holds : forgetUrl r.content = contentOf noContent requests) :
    (httpRequestGetData r).1.getD [] = allBodies requests := by
  have joined := data_contentOf requests noContent
  rw [← holds] at joined
  exact joined

theorem readRange_cut {data : Bytes} (known : (httpRequestGetData r).1.getD [] = data) (offset : ℕ)
    (length : ℤ) :
    readRange r (offset, min length (httpRequestGetData r).2) =
      (cut data offset length.toNat).elim (.error .outOfBounds) .ok := by
  have size : (httpRequestGetData r).2 = data.length := congrArg List.length known
  have taken : (min length (data.length : ℤ)).toNat = min length.toNat data.length := by omega
  rw [size, readRange, known, cut]
  dsimp only
  rw [copyFrom, taken]
  by_cases nothing : min length.toNat data.length = 0
  · rw [if_pos nothing, if_pos (by omega)]
    rfl
  · rw [if_neg nothing, if_neg (by omega)]
    split_ifs <;> rfl

def declaredPart (abi : Abi) (request : WellFormedRequest) : Bytes × ℕ :=
  (request.body, ((declaredLength abi request).getD 0).toNat)

theorem allBodies_parts (abi : Abi) (requests : List WellFormedRequest) :
    ((requests.map (declaredPart abi)).map Prod.fst).flatten = allBodies requests := by
  rw [List.map_map]
  rfl

theorem dataOffset_declared (abi : Abi) (lengths : ℤ → Option ℤ) (front : List WellFormedRequest) :
    (∀ before own after, front = before ++ own :: after →
      lengths (before.length + 1) = declaredLength abi own ∧ (declaredLength abi own).isSome = true) →
      ∀ carried, dataOffset lengths front.length carried =
        ((front.map (declaredPart abi)).map Prod.snd).sum := by
  induction front using List.reverseRecOn with
  | nil => intro _ _; rfl
  | append_singleton init last ih =>
      intro declared carried
      obtain ⟨number, some_⟩ := declared init last [] rfl
      obtain ⟨length, own⟩ := Option.isSome_iff_exists.mp some_
      have others := ih fun before own after split => declared before own (after ++ [last])
        (by rw [split]; simp)
      rw [List.length_append, List.length_singleton, dataOffset]
      simp only [number, own, Option.getD_some, others, List.map_append, List.map_cons, List.map_nil,
        List.sum_append, List.sum_singleton, declaredPart]
      exact Nat.add_comm _ _

section numbered

variable {abi : Abi} (holds : forgetUrl r.content = contentOf noContent requests)
  (numbers : ∀ front own back, requests = front ++ own :: back →
    contentLength abi r (front.length + 1) = declaredLength abi own)

include holds numbers

theorem parameterRange_cut
    (declared : ∀ request ∈ requests, (declaredLength abi request).isSome = true)
    {front back : List WellFormedRequest} {own : WellFormedRequest}
    (split : requests = front ++ own :: back) :
    (parameterRange abi r (front.length + 1) >>= readRange r) =
      (cut (allBodies requests) ((front.map (declaredPart abi)).map Prod.snd).sum
        (declaredPart abi own).2).elim (.error .outOfBounds) .ok := by
  obtain ⟨length, own_length⟩ := Option.isSome_iff_exists.mp (declared own (by simp [split]))
  have offset := dataOffset_declared abi (contentLength abi r) front
    (fun before other after inside =>
      ⟨numbers before other (after ++ own :: back) (by simp [split, inside]),
        declared other (by simp [split, inside])⟩) length
  have number : ((front.length : ℤ) + 1 - 1).toNat = front.length := by omega
  rw [parameterRange, numbers front own back split, own_length]
  dsimp only
  rw [number, offset, declaredPart, own_length]
  exact readRange_cut (data_requests holds) _ length

/-- With SET_PARAMETER each call finds its body exactly if the lengths are declared. -/
theorem declared_bodies :
    (∀ front own back, requests = front ++ own :: back →
        (parameterRange abi r (front.length + 1) >>= readRange r) = .ok own.body) ↔
      ∀ request ∈ requests, ∃ length, declaredLength abi request = some length ∧
        request.body.length = min length.toNat (allBodies requests).length := by
  have parts := parts_found_iff (requests.map (declaredPart abi))
  rw [allBodies_parts abi] at parts
  have elim_ok : ∀ {found : Option Bytes} {body : Bytes},
      found.elim (.error .outOfBounds) .ok = (.ok body : Except Fault Bytes) ↔ found = some body := by
    intro found body
    cases found <;> simp
  constructor
  · intro found
    have declared : ∀ request ∈ requests, (declaredLength abi request).isSome = true := by
      intro request member
      obtain ⟨front, back, split⟩ := List.append_of_mem member
      have own := found front request back split
      by_contra missing
      rw [Option.not_isSome_iff_eq_none] at missing
      rw [parameterRange, numbers front request back split, missing] at own
      cases own
    have fits := parts.mp fun front part back split => by
      obtain ⟨before, behind, rfl, rfl, rest⟩ := List.map_eq_append_iff.mp split
      obtain ⟨own, after, rfl, rfl, rfl⟩ := List.map_eq_cons_iff.mp rest
      have own_found := found before own after rfl
      rw [parameterRange_cut holds numbers declared rfl] at own_found
      exact elim_ok.mp own_found
    intro request member
    obtain ⟨length, own⟩ := Option.isSome_iff_exists.mp (declared request member)
    have fit := fits (declaredPart abi request) (List.mem_map_of_mem member)
    simp only [declaredPart, own, Option.getD_some] at fit
    exact ⟨length, own, fit⟩
  · intro fits front own back split
    have declared : ∀ request ∈ requests, (declaredLength abi request).isSome = true := by
      intro request member
      obtain ⟨length, known, -⟩ := fits request member
      rw [known, Option.isSome_some]
    have found := parts.mpr (fun part member => by
      obtain ⟨request, given, rfl⟩ := List.mem_map.mp member
      obtain ⟨length, known, fit⟩ := fits request given
      simp only [declaredPart, known, Option.getD_some]
      exact fit) (front.map (declaredPart abi)) (declaredPart abi own) (back.map (declaredPart abi)) (by simp [split])
    rw [parameterRange_cut holds numbers declared split]
    exact elim_ok.mpr found

end numbered

theorem same_bodies (nonempty : requests ≠ []) :
    (∀ request ∈ requests, allBodies requests = request.body) ↔
      requests.length = 1 ∨ ∀ request ∈ requests, request.body = [] := by
  constructor
  · intro same
    obtain ⟨first, rest, rfl⟩ := List.exists_cons_of_ne_nil nonempty
    cases rest with
    | nil => exact .inl rfl
    | cons second rest =>
        right
        have one := congrArg List.length (same first (by simp))
        have two := congrArg List.length (same second (by simp))
        have all : (allBodies (first :: second :: rest)).length = 0 := by
          simp only [allBodies, List.map_cons, List.flatten_cons, List.length_append] at one two ⊢
          omega
        intro request member
        rw [← same request member]
        exact List.length_eq_zero_iff.mp all
  · rintro (single | empty) request member
    · obtain ⟨only_, rfl⟩ := List.length_eq_one_iff.mp single
      rw [List.mem_singleton.mp member]
      simp [allBodies]
    · rw [empty request member, allBodies, List.flatten_eq_nil_iff]
      intro body given
      obtain ⟨other, inside, rfl⟩ := List.mem_map.mp given
      exact empty other inside

end bodies

section fields

variable {requests : List WellFormedRequest} {r : HttpRequest}

theorem method_last (nonempty : requests ≠ [])
    (holds : forgetUrl r.content = contentOf noContent requests) :
    ∃ last ∈ requests, httpRequestGetMethod r = last.content.method := by
  obtain ⟨front, last, rfl⟩ := List.eq_nil_or_concat requests |>.resolve_left nonempty
  rw [List.concat_eq_append] at holds ⊢
  have method := method_contentOf front last noContent
  rw [← holds] at method
  exact ⟨last, by simp, method⟩

/-- The bodies fit exactly if each call observes that of its request. -/
theorem bodies_iff (abi : Abi) (nonempty : requests ≠ [])
    (holds : forgetUrl r.content = contentOf noContent requests)
    (method : ∀ request ∈ requests, httpRequestGetMethod r = request.content.method)
    (numbers : ∀ front own back, requests = front ++ own :: back →
      contentLength abi r (front.length + 1) = declaredLength abi own) :
    (∀ front own back, requests = front ++ own :: back →
        observedBody abi r (front.length + 1) = .ok own.body) ↔ BodiesFit abi requests := by
  by_cases sets : httpRequestGetMethod r = some (.lit "SET_PARAMETER")
  · have all : ∀ request ∈ requests, IsSetParameter request := fun request member =>
      (method request member).symm.trans sets
    simp only [observedBody, if_pos sets]
    rw [declared_bodies holds numbers]
    constructor
    · intro declared
      exact ⟨fun _ => declared, fun ⟨request, member, other⟩ => absurd (all request member) other⟩
    · exact fun fit => fit.declared all
  · have other : ∀ request ∈ requests, ¬ IsSetParameter request := fun request member same =>
      sets ((method request member).trans same)
    simp only [observedBody, if_neg sets, data_requests holds, Except.ok.injEq]
    have each : (∀ front own back, requests = front ++ own :: back → allBodies requests = own.body) ↔
        ∀ request ∈ requests, allBodies requests = request.body := by
      constructor
      · intro found request member
        obtain ⟨front, back, split⟩ := List.append_of_mem member
        exact found front request back split
      · exact fun same front own back split => same own (by simp [split])
    rw [each, same_bodies nonempty]
    obtain ⟨first, member⟩ := List.exists_mem_of_ne_nil requests nonempty
    constructor
    · intro empty
      exact ⟨fun all => absurd (all first member) (other first member), fun _ => empty⟩
    · exact fun fit => fit.empty ⟨first, member, other first member⟩

theorem sameFirst_iff {password : Bool} {first own : WellFormedRequest}
    (headers : ∀ name, httpRequestGetHeader r name 1 = httpRequestGetHeader first.accepted name 1)
    (iheaders : ∀ name,
      httpRequestGetIheader r name 1 = httpRequestGetIheader first.accepted name 1)
    (url : httpRequestGetUrl r 1 = httpRequestGetUrl first.accepted 1) :
    SameFirst password r own.accepted ↔ SameFirst password first.accepted own.accepted := by
  constructor
  · rintro ⟨header, iheader, digest⟩
    exact ⟨fun name asked => (headers name).symm.trans (header name asked),
      fun name asked => (iheaders name).symm.trans (iheader name asked),
      fun asks => url.symm.trans (digest asks)⟩
  · rintro ⟨header, iheader, digest⟩
    exact ⟨fun name asked => (headers name).trans (header name asked),
      fun name asked => (iheaders name).trans (iheader name asked),
      fun asks => url.trans (digest asks)⟩

/-- What the calls observe of an object that holds all requests. -/
theorem observes_iff (abi : Abi) (password : Bool) (nonempty : requests ≠ [])
    (numbered : ∀ request ∈ requests, Numbered request)
    (holds : forgetUrl r.content = contentOf noContent requests)
    (urls : ∀ front own back, requests = front ++ own :: back →
      httpRequestGetUrl r (front.length + 1) = httpRequestGetUrl own.accepted 1) :
    (∀ front own back, requests = front ++ own :: back →
        Observes abi password r (front.length + 1) own) ↔
      (∀ a ∈ requests, ∀ b ∈ requests, a.content.method = b.content.method) ∧
        Separable id cseq (requests.map WellFormedRequest.pairs) ∧
          Separable folded cseq (requests.map WellFormedRequest.pairs) ∧
            (∀ first ∈ requests.head?, ∀ own ∈ requests,
              SameFirst password first.accepted own.accepted) ∧ BodiesFit abi requests := by
  have valued : ∀ request ∈ requests, Valued request.content := fun request member =>
    (numbered request member).valued
  have single : ∀ request ∈ requests, request.cseqs = 1 := fun request member =>
    (numbered request member).numbered
  have groups : SeparateGroups id cseq (requests.map WellFormedRequest.pairs) ↔ Separable id cseq _ :=
    separate_requests (fun _ _ same => congrArg folded same) single
  have foldedGroups : SeparateGroups folded cseq (requests.map WellFormedRequest.pairs) ↔
      Separable folded cseq _ :=
    separate_requests (fun _ _ same => same) single
  have exact_ := (lookups_separate strcmp_agree valued holds).trans groups
  have alike := (lookups_separate strcasecmp_agree valued holds).trans foldedGroups
  obtain ⟨last, inside, method⟩ := method_last nonempty holds
  rw [← exact_, ← alike]
  constructor
  · intro observes
    have methods : ∀ request ∈ requests, httpRequestGetMethod r = request.content.method := by
      intro request member
      obtain ⟨front, back, split⟩ := List.append_of_mem member
      exact (observes front request back split).method
    refine ⟨fun a first b second => (methods a first).symm.trans (methods b second),
      fun front own back split => (observes front own back split).header,
      fun front own back split => (observes front own back split).iheader,
      fun first head own member => ?_, ?_⟩
    · obtain ⟨rest, rfl⟩ := List.head?_eq_some_iff.mp head
      obtain ⟨front, back, split⟩ := List.append_of_mem member
      have one := observes [] first rest rfl
      exact (sameFirst_iff one.header one.iheader one.url).mp (observes front own back split).first
    refine (bodies_iff abi nonempty holds methods fun front own back split => ?_).mp
      fun front own back split => (observes front own back split).body
    exact congrArg _ ((observes front own back split).iheader (.lit "Content-Length"))
  · rintro ⟨same, headers, iheaders, firsts, fit⟩ front own back split
    have methods : ∀ request ∈ requests, httpRequestGetMethod r = request.content.method :=
      fun request member => method.trans (same last inside request member)
    refine ⟨methods own (by simp [split]), urls front own back split, headers front own back split,
      iheaders front own back split, ?_, ?_⟩
    · obtain ⟨first, rest, rfl⟩ := List.exists_cons_of_ne_nil nonempty
      exact (sameFirst_iff (headers [] first rest rfl) (iheaders [] first rest rfl)
        (urls [] first rest rfl)).mpr (firsts first rfl own (by simp [split]))
    exact (bodies_iff abi nonempty holds methods fun front own back split =>
      congrArg _ (iheaders front own back split (.lit "Content-Length"))).mpr fit front own back split

end fields

section apart

variable {request : WellFormedRequest} {requests : List WellFormedRequest} {r : HttpRequest}

theorem requestCount_numbered (numbered : ∀ other ∈ request :: requests, Numbered other)
    (holds : forgetUrl r.content = contentOf noContent (parsed (request :: requests))) :
    httpRequestGetRequestCount r = (parsed (request :: requests)).length := by
  rw [requestCount_parsed (fun other member => (numbered other member).valued) holds, callsFor]
  have each : (parsed (request :: requests)).map WellFormedRequest.cseqs =
      List.replicate (parsed (request :: requests)).length 1 := by
    rw [List.eq_replicate_iff, List.length_map]
    refine ⟨rfl, fun count member => ?_⟩
    obtain ⟨other, inside, rfl⟩ := List.mem_map.mp member
    exact (numbered other (parsed_mem inside)).numbered
  obtain ⟨more, read⟩ := parsed_cons request requests
  rw [each, List.sum_replicate, smul_eq_mul, mul_one, read, List.length_cons]
  simp

theorem accepted_single (own : WellFormedRequest) : Accepted [own] := by
  intro r adds
  have same : bytesOfAll [own] = own.bytes := List.append_nil _
  rw [same, own.accepts] at adds
  cases adds
  exact own.fine

theorem urls_requests (accepted : Accepted (request :: requests))
    (stays : ∀ other ∈ (request :: requests).dropLast, other.upgrades = false)
    (adds : httpRequestAddData httpRequestInit (bytesOfAll (request :: requests)) = some r)
    {front back : List WellFormedRequest} {own : WellFormedRequest}
    (split : request :: requests = front ++ own :: back) :
    httpRequestGetUrl r (front.length + 1) = httpRequestGetUrl own.accepted 1 := by
  have adds_own : httpRequestAddData httpRequestInit (bytesOfAll [own]) = some own.accepted := by
    rw [show bytesOfAll [own] = own.bytes from List.append_nil _]
    exact own.accepts
  have alone := getUrl_requests adds_own ((accepted_iff own []).mp (accepted_single own)) 0
  have url := getUrl_requests adds ((accepted_iff request requests).mp accepted) front.length
  have single : parsed [own] = [own] := by simp [parsed]
  rw [parsed_all _ stays, split] at url
  rw [single] at alone
  simp only [Nat.cast_zero, zero_add] at alone
  rw [url, alone]
  simp

/-- Pipelined requests stay apart exactly if the object can tell them apart. -/
theorem stayApart_iff_pipelined (abi : Abi) (password : Bool) (request : WellFormedRequest)
    (requests : List WellFormedRequest) (numbered : ∀ other ∈ request :: requests, Numbered other) :
    StayApart abi password (request :: requests) ↔ Pipelined abi password (request :: requests) := by
  have valued : ∀ other ∈ request :: requests, Valued other.content := fun other member =>
    (numbered other member).valued
  constructor
  · rintro ⟨r, adds, fine, count, observes⟩
    have accepted : Accepted (request :: requests) := by
      intro r' adds'
      cases adds.symm.trans adds'
      exact fine
    obtain ⟨r', adds', -, holds⟩ := add_requests valued accepted
    cases adds.symm.trans adds'
    have stays := (parsed_length (request :: requests)).mp
      ((requestCount_numbered numbered holds).symm.trans count)
    rw [parsed_all _ stays] at holds
    obtain ⟨method, header, iheader, first, bodies⟩ :=
      (observes_iff abi password (List.cons_ne_nil request requests) numbered holds fun front own back split =>
        urls_requests accepted stays adds split).mp observes
    exact ⟨accepted, stays, method, header, iheader, first, bodies⟩
  · rintro ⟨accepted, stays, method, header, iheader, first, bodies⟩
    obtain ⟨r, adds, fine, holds⟩ := add_requests valued accepted
    have count := requestCount_numbered numbered holds
    rw [parsed_all _ stays] at holds count
    exact ⟨r, adds, fine, count,
      (observes_iff abi password (List.cons_ne_nil request requests) numbered holds
        fun front own back split =>
          urls_requests accepted stays adds split).mpr ⟨method, header, iheader, first, bodies⟩⟩

end apart

/-! ## Two requests in one buffer -/

theorem infoRequest_numbered : Numbered infoRequest := ⟨⟨by decide, by decide⟩, by decide⟩

theorem infoRequests_apart : StayApart .arm64V8a true [infoRequest, infoRequest] := by
  have marker : ∀ group ∈ [infoRequest, infoRequest].map WellFormedRequest.pairs,
      ∃ value, group = [(cseq, value)] := by
    intro group member
    have same : group = infoRequest.pairs := by simpa using member
    exact ⟨.lit "0", same.trans (by decide)⟩
  have alike : ∀ other ∈ [infoRequest, infoRequest], other = infoRequest := by simp
  refine (stayApart_iff_pipelined .arm64V8a true infoRequest [infoRequest] fun other member =>
    alike other member ▸ infoRequest_numbered).mpr
    { accepted := ?_
      stays := fun other member => ?_
      method := fun a first b second => by rw [alike a first, alike b second]
      header := separable_markers marker
      iheader := separable_markers marker
      first := fun first head own member => ?_
      bodies := ⟨fun all => ?_, fun _ => .inr fun other member => ?_⟩ }
  · intro r adds
    have fine : (httpRequestAddData httpRequestInit (bytesOfAll [infoRequest, infoRequest])).all
        (fun r => httpRequestHasError r = false) := by decide
    rw [adds] at fine
    simpa using fine
  · rw [alike other (List.dropLast_subset _ member)]
    decide
  · obtain rfl : infoRequest = first := Option.some.inj head
    rw [alike own member]
    exact ⟨fun _ _ => rfl, fun _ _ => rfl, fun _ => rfl⟩
  · exact absurd (all infoRequest (by simp)) (by unfold IsSetParameter; decide)
  · rw [alike other member]
    decide

def optionsText : RequestText :=
  ⟨.options, 0, bytesOf "*", bytesOf " RTSP/1.0\r\nCSeq: 1\r\n\r\n"⟩

theorem optionsText_single :
    ∀ n < optionsText.bytes.length,
      (httpRequestAddData httpRequestInit (optionsText.bytes.take n)).all
        (fun r => httpRequestIsComplete r = false) := by
  decide

def optionsRequest : WellFormedRequest where
  toRequestText := optionsText
  accepted := (httpRequestAddData httpRequestInit optionsText.bytes).get (by decide)
  urlPresent := by decide
  urlPlain := by decide +kernel
  urlEnds := ⟨sp, bytesOf "RTSP/1.0\r\nCSeq: 1\r\n\r\n", by decide, Or.inl rfl⟩
  accepts := (Option.some_get _).symm
  fine := by decide
  complete := by decide
  single := single_of_parts optionsText_single
  headText := by decide

theorem infoOptions_mixed :
    (∀ other ∈ [infoRequest, optionsRequest], Numbered other) ∧
      ¬ StayApart .arm64V8a false [infoRequest, optionsRequest] := by
  have options : Numbered optionsRequest := ⟨⟨by decide, by decide⟩, by decide⟩
  refine ⟨by simp [infoRequest_numbered, options], ?_⟩
  rintro ⟨r, adds, -, -, observes⟩
  have method := (observes [] infoRequest [optionsRequest] rfl).method
  have last : (httpRequestAddData httpRequestInit (bytesOfAll [infoRequest, optionsRequest])).map
      httpRequestGetMethod = some (some (.lit "OPTIONS")) := by decide
  have first : httpRequestGetMethod infoRequest.accepted = some (.lit "GET") := by decide
  rw [adds, Option.map_some, method, first] at last
  exact absurd last (by decide)

end AirCast.Raop
