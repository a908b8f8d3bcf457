import AirCast.Http.HttpStreams
import AirCast.Http.HttpPipelineUrls
import AirCast.Lib.NumberedGroups

/-! # Headers, method and body of several requests

The headers of requests in one object are groups of pairs behind one another, which a lookup
tells apart by their `CSeq`.  The method is that of the last request, and the bodies are one
text. -/

set_option autoImplicit false

namespace AirCast.Http

open AirCast.Lib

/-- The strings up to the last one are there, and a complete request has a method. -/
structure Present (r : RequestData) : Prop where
  filled : ∀ i ≤ r.headersIndex, r.headers[i]? ≠ some none
  method : r.complete = true → r.method.isSome = true

theorem appendHeader_filled {r : RequestData} (text : Bytes)
    (before : ∀ i < r.headersIndex, r.headers[i]? ≠ some none) :
    ∀ i ≤ (appendHeader r text).headersIndex, (appendHeader r text).headers[i]? ≠ some none := by
  intro i within
  simp only [appendHeader, List.getElem?_set] at within ⊢
  split_ifs with here inside
  · simp
  · simp
  · exact before i (by omega)

theorem openField_filled {r : RequestData} (filled : ∀ i ≤ r.headersIndex, r.headers[i]? ≠ some none) :
    ∀ i < (openField r).headersIndex, (openField r).headers[i]? ≠ some none := by
  intro i below
  unfold openField at below ⊢
  dsimp only at below ⊢
  split_ifs at below ⊢ with odd full full
  · dsimp only at below full ⊢
    rw [List.getElem?_append_left (by omega)]
    exact filled i (by omega)
  · exact filled i (by dsimp only at below; omega)
  · dsimp only at below full ⊢
    rw [List.getElem?_append_left (by omega)]
    exact filled i (by omega)
  · exact filled i (by omega)

theorem openValue_filled {r : RequestData} (filled : ∀ i ≤ r.headersIndex, r.headers[i]? ≠ some none) :
    ∀ i < (openValue r).headersIndex, (openValue r).headers[i]? ≠ some none := by
  intro i below
  unfold openValue at below ⊢
  split_ifs at below ⊢
  · exact filled i (by dsimp only at below; omega)
  · exact filled i (by omega)

theorem onData_method (m : Mark) (r : RequestData) (text : Bytes) :
    (noUrlSettings.onData m r text).method = r.method := by
  cases m with
  | url => rfl
  | headerField =>
      simp only [noUrlSettings, onHeaderField, appendHeader, openField]
      split_ifs <;> rfl
  | headerValue =>
      simp only [noUrlSettings, onHeaderValue, appendHeader, openValue]
      split_ifs <;> rfl
  | body => rfl

theorem present_simulates : Simulates silent noUrlSettings fun _ r => Present r where
  data := by
    rintro m _ r text ⟨filled, method⟩
    refine ⟨?_, by rwa [onData_complete, onData_method]⟩
    cases m with
    | url => exact filled
    | headerField => exact appendHeader_filled text (openField_filled filled)
    | headerValue => exact appendHeader_filled text (openValue_filled filled)
    | body => exact filled
  complete := fun _ r method present => ⟨present.filled, fun _ => rfl⟩

theorem content_present (request : WellFormedRequest) : Present request.content := by
  have alone := (read_request request).2
  have same := read_follows countRelation_le present_simulates request.bytes httpParserInit
    httpParserInit () noContent (Ready.follows ⟨rfl, rfl⟩)
    ⟨by simp [noContent, forgetUrl, httpRequestInit], by simp [noContent, forgetUrl, httpRequestInit]⟩
    fun t failed => by
      rw [alone] at failed
      split at failed <;> cases failed
  rw [alone] at same
  generalize read silent request.bytes httpParserInit () = reading at same
  split at same
  · cases same with
    | left _ present => exact present
  · cases same with
    | ended _ present => exact present

theorem headers_filled {request : WellFormedRequest} (valued : Valued request.content) :
    ∀ header ∈ request.content.headers, header ≠ none := by
  rintro header member rfl
  obtain ⟨i, inside, found⟩ := List.getElem_of_mem member
  rcases valued.last with ⟨empty, -⟩ | last
  · rw [empty] at member
    cases member
  · refine (content_present request).filled i (by omega) ?_
    rw [List.getElem?_eq_getElem inside, found]

def WellFormedRequest.body (request : WellFormedRequest) : Bytes := request.content.data.getD []

theorem headers_contentOf (requests : List WellFormedRequest) (front : RequestData) :
    (contentOf front requests).headers =
      front.headers ++ (requests.map fun request => request.content.headers).flatten := by
  induction requests generalizing front with
  | nil => simp [contentOf]
  | cons request rest ih =>
      rw [contentOf, List.foldl_cons, ← contentOf, ih]
      simp [RequestData.behind]

theorem data_contentOf (requests : List WellFormedRequest) (front : RequestData) :
    (contentOf front requests).data.getD [] =
      front.data.getD [] ++ (requests.map WellFormedRequest.body).flatten := by
  induction requests generalizing front with
  | nil => simp [contentOf]
  | cons request rest ih =>
      rw [contentOf, List.foldl_cons, ← contentOf, ih]
      cases data : request.content.data <;> simp [RequestData.behind, WellFormedRequest.body, data]

theorem method_contentOf (requests : List WellFormedRequest) (last : WellFormedRequest)
    (front : RequestData) :
    (contentOf front (requests ++ [last])).method = last.content.method := by
  rw [contentOf, List.foldl_append, List.foldl_cons, List.foldl_nil, RequestData.behind]
  exact Option.or_of_isSome ((content_present last).method (content_complete last))

def headerPairs : List (Option CString) → List (CString × CString)
  | field :: value :: rest =>
      (field.getD (.lit ""), value.getD (.lit "")) :: headerPairs rest
  | _ => []

def WellFormedRequest.pairs (request : WellFormedRequest) : List (CString × CString) :=
  headerPairs request.content.headers

theorem headerPairs_append (second : List (Option CString)) :
    ∀ first : List (Option CString), first.length % 2 = 0 →
      headerPairs (first ++ second) = headerPairs first ++ headerPairs second := by
  intro first
  induction first using List.twoStepInduction with
  | nil => intro _; rfl
  | singleton field => intro even; simp at even
  | cons_cons field value rest ih _ =>
      intro even
      have shorter : rest.length % 2 = 0 := by
        simp only [List.length_cons] at even
        omega
      simp only [List.cons_append, headerPairs, ih shorter]

theorem headerPairs_flatten :
    ∀ groups : List (List (Option CString)), (∀ group ∈ groups, group.length % 2 = 0) →
      headerPairs groups.flatten = (groups.map headerPairs).flatten := by
  intro groups
  induction groups with
  | nil => intro _; rfl
  | cons group rest ih =>
      intro even
      rw [List.flatten_cons, headerPairs_append _ _ (even group List.mem_cons_self), List.map_cons,
        List.flatten_cons, ih fun other member => even other (List.mem_cons_of_mem _ member)]

theorem countFields_pairs (same : CString → Bool) (headers : List (Option CString)) :
    countFields same headers = (headerPairs headers).countP fun pair => same pair.1 := by
  induction headers using List.twoStepInduction with
  | nil => rfl
  | singleton field => rfl
  | cons_cons field value rest ih _ =>
      rw [countFields, ih, headerPairs, List.countP_cons, Nat.add_comm]

section lookup

variable {φ : Type} [DecidableEq φ] {fold : CString → φ} {same : CString → CString → Bool}

/-- The loop of the getters is a lookup behind `CSeq` pairs. -/
theorem findHeader_pairs (agree : ∀ a b, same a b = true ↔ fold a = fold b) (name : CString) :
    ∀ (headers : List (Option CString)) (skip : ℕ), (∀ header ∈ headers, header ≠ none) →
      findHeader same name headers (skip + 1) =
        lookupBehind fold (.lit "CSeq") name skip (headerPairs headers) := by
  intro headers
  induction headers using List.twoStepInduction with
  | nil => intro skip _; cases skip <;> rfl
  | singleton field => intro skip _; cases skip <;> rfl
  | cons_cons field value rest ih _ =>
      intro skip filled
      obtain ⟨text, rfl⟩ := Option.ne_none_iff_exists'.mp (filled value (by simp))
      have others : ∀ header ∈ rest, header ≠ none := fun header member =>
        filled header (by simp [member])
      cases skip with
      | zero =>
          have first := ih 0 others
          simp only [lookupBehind_zero, Nat.cast_zero, zero_add] at first ⊢
          simp only [findHeader, headerPairs, lookupKey, agree, first, Option.getD_some, ne_eq,
            not_true, if_false]
      | succ skip =>
          have more : ((skip + 1 : ℕ) : ℤ) + 1 ≠ 1 := by omega
          simp only [findHeader, headerPairs, lookupBehind, if_pos more]
          by_cases marked : fold (field.getD (.lit "")) = fold (.lit "CSeq")
          · rw [if_pos ((agree _ _).mpr marked), if_pos marked, ← ih skip others]
            congr 1
            omega
          · rw [if_neg (fun yes => marked ((agree _ _).mp yes)), if_neg marked]
            exact ih (skip + 1) others

end lookup

theorem parsed_length : ∀ requests : List WellFormedRequest,
    (parsed requests).length = requests.length ↔
      ∀ request ∈ requests.dropLast, request.upgrades = false := by
  intro requests
  induction requests with
  | nil => simp [parsed]
  | cons request rest ih =>
      cases rest with
      | nil => simp [parsed]
      | cons next more =>
          rw [parsed, List.dropLast_cons_cons]
          by_cases upgrade : request.upgrades = true
          · simp [upgrade]
          · simp only [upgrade, if_false, Bool.false_eq_true, List.length_cons, List.forall_mem_cons,
              true_and]
            rw [← ih, List.length_cons]
            omega

theorem parsed_all : ∀ requests : List WellFormedRequest,
    (∀ request ∈ requests.dropLast, request.upgrades = false) → parsed requests = requests := by
  intro requests
  induction requests with
  | nil => intro _; rfl
  | cons request rest ih =>
      intro stays
      cases rest with
      | nil => simp [parsed]
      | cons next more =>
          rw [List.dropLast_cons_cons, List.forall_mem_cons] at stays
          rw [parsed, if_neg (by simp [stays.1]), ih stays.2]

section object

variable {request : WellFormedRequest} {requests : List WellFormedRequest}

theorem add_requests (valued : ∀ other ∈ request :: requests, Valued other.content)
    (accepted : Accepted (request :: requests)) :
    ∃ r, httpRequestAddData httpRequestInit (bytesOfAll (request :: requests)) = some r ∧
      httpRequestHasError r = false ∧
        forgetUrl r.content = contentOf noContent (parsed (request :: requests)) := by
  have fits := (accepted_iff request requests).mp accepted
  have nonempty : bytesOfAll (request :: requests) ≠ [] := by simp [bytesOfAll_eq_nil]
  have agrees := execute_agrees noUrl_additive httpParserInit noContent
    (bytesOfAll (request :: requests)) rfl nonempty (init_resumes _ _)
    (headText_requests _ _ ⟨rfl, rfl⟩)
  have runs : ∃ q, httpParserExecute noUrlSettings httpParserInit noContent
      (bytesOfAll (request :: requests)) =
        some (q, contentOf noContent (parsed (request :: requests))) := by
    obtain ⟨q, -, ended | ⟨rest, left⟩⟩ := read_requests (p := httpParserInit) (request :: requests)
      ⟨rfl, rfl⟩ noContent_valued valued fits
    · rw [ended] at agrees
      exact ⟨q, agrees.1⟩
    · rw [left] at agrees
      exact ⟨q, agrees.1⟩
  obtain ⟨q, runs⟩ := runs
  obtain ⟨r, adds, same⟩ := execute_remembers runs
  exact ⟨r, adds, accepted r adds, same⟩

end object

end AirCast.Http
