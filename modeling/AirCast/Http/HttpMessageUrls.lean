import AirCast.Http.HttpParserFollows
import AirCast.Http.HttpRequestSegments

/-! # One URL in each message

Behind the URL of a message no other one begins before the message is complete.  The
URLs that one call hands out are therefore those of its messages, one piece each. -/

set_option autoImplicit false

namespace AirCast.Http

/-! ## Where a message stands -/

def beforeUrl : ParserState → Bool
  | .startReq | .reqMethod | .reqSpacesBeforeUrl => true
  | _ => false

def pastUrl (s : ParserState) : Bool := !beforeUrl s && !inUrl s

/-- What a round of a parser in state `s` does to the order of a message: only the last
one leads in front of a URL again, and only an upgraded message makes the parser leave. -/
structure Passes (s : ParserState) (upgrade : Bool) (r : Reaction) : Prop where
  again : r.flow = .next → beforeUrl r.parser.state = true →
    beforeUrl s = true ∨ .messageComplete ∈ r.actions
  url : .mark .url ∈ r.actions → s = .reqSpacesBeforeUrl
  complete : .messageComplete ∈ r.actions → beforeUrl s = false
  upgrade : r.flow = .next → r.parser.upgrade = upgrade ∨ r.parser.upgrade = false
  leaves : r.flow = .leave → r.parser.httpErrno = .ok → r.parser.upgrade = true

section Rounds

variable {p : HttpParser} {s : ParserState}

theorem passes_fail {upgrade : Bool} {errno : HttpErrno} (error : errno ≠ .ok) :
    Passes s upgrade (.fail p errno) where
  again := fun next => by cases next
  url := fun member => by cases member
  complete := fun member => by cases member
  upgrade := fun next => by cases next
  leaves := fun _ fine => absurd fine error

theorem passes_abort {upgrade : Bool} : Passes s upgrade ⟨p, [], 0, .abort⟩ where
  again := fun next => by cases next
  url := fun member => by cases member
  complete := fun member => by cases member
  upgrade := fun next => by cases next
  leaves := fun leave => by cases leave

theorem passes_complete {actions : List Action} {skip : ℕ} (late : beforeUrl s = false)
    (url : .mark .url ∉ actions) (complete : .messageComplete ∈ actions) :
    Passes s p.upgrade ⟨p, actions, skip, .next⟩ where
  again := fun _ _ => Or.inr complete
  url := fun member => absurd member url
  complete := fun _ => late
  upgrade := fun _ => Or.inl rfl
  leaves := fun leave => by cases leave

variable (p) {q : HttpParser}

theorem passes_inside {actions : List Action} {skip : ℕ} (upgrade : q.upgrade = p.upgrade)
    (again : beforeUrl q.state = true → beforeUrl s = true)
    (url : .mark .url ∉ actions) (complete : .messageComplete ∉ actions) :
    Passes s p.upgrade ⟨q, actions, skip, .next⟩ where
  again := fun _ before => Or.inl (again before)
  url := fun member => absurd member url
  complete := fun member => absurd member complete
  upgrade := fun _ => Or.inl upgrade
  leaves := fun leave => by cases leave

theorem passes_same (upgrade : q.upgrade = p.upgrade) (state : q.state = s) :
    Passes s p.upgrade (.go q []) :=
  passes_inside p upgrade (fun before => state ▸ before) (by simp) (by simp)

theorem passes_late (upgrade : q.upgrade = p.upgrade) (late : beforeUrl q.state = false) :
    Passes s p.upgrade (.go q []) :=
  passes_inside p upgrade (by simp [late]) (by simp) (by simp)

theorem passes_value {actions : List Action} (upgrade : q.upgrade = p.upgrade)
    (late : beforeUrl q.state = false) (url : .mark .url ∉ actions)
    (complete : .messageComplete ∉ actions) : Passes s p.upgrade (.go q actions) :=
  passes_inside p upgrade (by simp [late]) url complete

variable (ch : UInt8) (available : ℕ)

theorem startReq_passes (state : p.state = .startReq) :
    Passes .startReq p.upgrade (startReq p ch) := by
  unfold startReq
  split
  · exact passes_same p rfl state
  · dsimp only
    split
    · exact passes_fail (by decide)
    · split
      · exact passes_fail (by decide)
      · exact passes_inside p rfl (fun _ => rfl) (by simp) (by simp)

theorem reqMethod_passes (state : p.state = .reqMethod) :
    Passes .reqMethod p.upgrade (reqMethod p ch) := by
  unfold reqMethod
  split
  · exact passes_fail (by decide)
  · split
    · exact passes_inside p rfl (fun _ => rfl) (by simp) (by simp)
    · split
      · exact passes_same p rfl state
      · split
        · rename_i invalid _
          exact passes_fail (by cases invalid <;> decide)
        · exact passes_same p rfl state

theorem parseUrlChar_late (from_ : ParserState) : beforeUrl (parseUrlChar from_ ch) = false := by
  unfold parseUrlChar
  split
  · rfl
  · cases from_ <;> dsimp only <;> (repeat' split) <;> rfl

theorem urlChar_passes (from_ : ParserState) (actions : List Action)
    (url : .mark .url ∈ actions → s = .reqSpacesBeforeUrl)
    (complete : .messageComplete ∉ actions) :
    Passes s p.upgrade (urlChar p from_ ch actions) := by
  unfold urlChar
  dsimp only
  split
  · exact passes_fail (by decide)
  · exact ⟨fun _ before => absurd before (by simp [Reaction.go, parseUrlChar_late]), url,
      fun member => absurd member complete, fun _ => Or.inl rfl, fun leave => by cases leave⟩

theorem reqSpacesBeforeUrl_passes (state : p.state = .reqSpacesBeforeUrl) :
    Passes .reqSpacesBeforeUrl p.upgrade (reqSpacesBeforeUrl p ch) := by
  unfold reqSpacesBeforeUrl
  split
  · exact passes_same p rfl state
  · exact urlChar_passes p ch _ _ (fun _ => rfl) (by simp)

theorem reqSchema_passes : Passes s p.upgrade (reqSchema p ch) := by
  unfold reqSchema
  split
  · exact passes_fail (by decide)
  · exact urlChar_passes p ch _ _ (by simp) (by simp)

theorem reqUrl_passes : Passes s p.upgrade (reqUrl p ch) := by
  unfold reqUrl
  split
  · exact passes_value p rfl rfl (by simp) (by simp)
  · split
    · refine passes_value p rfl ?_ (by simp) (by simp)
      dsimp only
      split <;> rfl
    · exact urlChar_passes p ch _ _ (by simp) (by simp)

theorem reqHttpStart_passes (state : p.state = s) : Passes s p.upgrade (reqHttpStart p ch) := by
  unfold reqHttpStart
  split
  · exact passes_late p rfl rfl
  · split
    · exact passes_same p rfl state
    · exact passes_fail (by decide)

theorem reqFirstHttpMajor_passes : Passes s p.upgrade (reqFirstHttpMajor p ch) := by
  unfold reqFirstHttpMajor
  split
  · exact passes_fail (by decide)
  · exact passes_late p rfl rfl

theorem reqHttpMajor_passes (state : p.state = s) : Passes s p.upgrade (reqHttpMajor p ch) := by
  unfold reqHttpMajor
  split
  · exact passes_late p rfl rfl
  · split
    · exact passes_fail (by decide)
    · dsimp only
      split
      · exact passes_fail (by decide)
      · exact passes_same p rfl state

theorem reqFirstHttpMinor_passes : Passes s p.upgrade (reqFirstHttpMinor p ch) := by
  unfold reqFirstHttpMinor
  split
  · exact passes_fail (by decide)
  · exact passes_late p rfl rfl

theorem reqHttpMinor_passes (state : p.state = s) : Passes s p.upgrade (reqHttpMinor p ch) := by
  unfold reqHttpMinor
  split
  · exact passes_late p rfl rfl
  · split
    · exact passes_late p rfl rfl
    · split
      · exact passes_fail (by decide)
      · dsimp only
        split
        · exact passes_fail (by decide)
        · exact passes_same p rfl state

theorem reqLineAlmostDone_passes : Passes s p.upgrade (reqLineAlmostDone p ch) := by
  unfold reqLineAlmostDone
  split
  · exact passes_fail (by decide)
  · exact passes_late p rfl rfl

variable {p} in
theorem Passes.cleared {old new : Bool} {r : Reaction} (passes : Passes s old r)
    (cleared : old = false) : Passes s new r where
  again := passes.again
  url := passes.url
  complete := passes.complete
  upgrade := fun next => Or.inr ((passes.upgrade next).elim (fun same => same.trans cleared) id)
  leaves := passes.leaves

theorem headersDone_passes {upgrade : Bool} (late : beforeUrl s = false) :
    Passes s upgrade (headersDone p) := by
  unfold headersDone
  dsimp only
  split
  · rename_i upgraded
    exact ⟨fun next => (by cases next), by simp, fun _ => late, fun next => (by cases next),
      fun _ _ => upgraded⟩
  · rename_i kept
    refine Passes.cleared (?_ : Passes s p.upgrade _) (by simpa using kept)
    have complete : ∀ {t : HttpParser}, t.upgrade = p.upgrade →
        Passes s p.upgrade (.go t [.messageComplete]) := fun same =>
      same ▸ passes_complete late (by simp) (by simp)
    split_ifs
    · exact complete rfl
    · exact passes_late p rfl rfl
    · exact complete rfl
    · exact passes_late p rfl rfl
    · exact complete rfl

theorem headersAlmostDone_passes (late : beforeUrl s = false) :
    Passes s p.upgrade (headersAlmostDone p) := by
  unfold headersAlmostDone
  split
  · exact passes_complete (p := { p with state := .startReq }) late (by simp) (by simp)
  · exact headersDone_passes _ late

theorem headerFieldStart_passes (late : beforeUrl s = false) :
    Passes s p.upgrade (headerFieldStart p ch) := by
  unfold headerFieldStart
  split
  · exact passes_late p rfl rfl
  · split
    · exact headersAlmostDone_passes { p with state := .headersAlmostDone } late
    · split
      · exact passes_fail (by decide)
      · exact passes_value p rfl rfl (by simp) (by simp)

theorem headerField_passes (state : p.state = s) : Passes s p.upgrade (headerField p ch) := by
  unfold headerField
  split
  · split
    · exact passes_abort
    · exact passes_same p rfl state
  · split
    · exact passes_value p rfl rfl (by simp) (by simp)
    · split
      · exact passes_value p rfl rfl (by simp) (by simp)
      · split
        · exact passes_value p rfl rfl (by simp) (by simp)
        · exact passes_fail (by decide)

theorem headerValueStart_passes (state : p.state = s) : Passes s p.upgrade (headerValueStart p ch) := by
  unfold headerValueStart
  split
  · exact passes_same p rfl state
  · dsimp only
    split
    · exact passes_value p rfl rfl (by simp) (by simp)
    · split
      · exact passes_value p rfl rfl (by simp) (by simp)
      · split
        · exact passes_value p rfl rfl (by simp) (by simp)
        · exact passes_value p rfl rfl (by simp) (by simp)
        · split
          · exact passes_fail (by decide)
          · exact passes_value p rfl rfl (by simp) (by simp)
        · exact passes_value p rfl rfl (by simp) (by simp)
        · exact passes_value p rfl rfl (by simp) (by simp)

theorem headerValue_passes (state : p.state = .headerValue) :
    Passes .headerValue p.upgrade (headerValue p ch) := by
  have late : beforeUrl p.state = false := by simp [state, beforeUrl]
  have quiet : ∀ {q : HttpParser}, q.upgrade = p.upgrade → beforeUrl q.state = false →
      Passes .headerValue p.upgrade (.go q []) :=
    fun upgrade inside => passes_late p upgrade inside
  unfold headerValue
  split
  · exact passes_value p rfl rfl (by simp) (by simp)
  · split
    · exact passes_value p rfl rfl (by simp) (by simp)
    · dsimp only
      split
      · exact quiet rfl late
      · exact passes_abort
      · exact passes_abort
      · split
        · exact quiet rfl late
        · split
          · exact passes_fail (by decide)
          · split
            · exact passes_fail (by decide)
            · exact quiet rfl late
      · exact quiet rfl late
      · exact quiet rfl late
      · exact quiet rfl late
      · exact quiet rfl late
      · exact quiet rfl late
      · exact quiet rfl late
      · exact quiet rfl rfl

theorem headerValueLws_passes :
    Passes .headerValueLws p.upgrade (headerValueLws p ch) := by
  unfold headerValueLws
  split
  · exact passes_late p rfl rfl
  · exact headerFieldStart_passes { p with state := .headerFieldStart } ch
      rfl

theorem passes_check {upgrade holds : Bool} {rest : Reaction} (passes : Passes s upgrade rest) :
    Passes s upgrade (.check holds p rest) := by
  unfold Reaction.check
  split
  · exact passes
  · exact passes_abort

theorem bodyIdentity_passes (state : p.state = .bodyIdentity) :
    Passes .bodyIdentity p.upgrade (bodyIdentity p available) := by
  refine passes_check p ?_
  dsimp only
  split
  · exact passes_complete (p := { p with contentLength := _, state := .startReq })
      rfl (by simp) (by simp)
  · exact passes_inside p rfl (fun before => state ▸ before) (by simp) (by simp)

theorem chunkSizeStart_passes : Passes s p.upgrade (chunkSizeStart p ch) := by
  refine passes_check p ?_
  split
  · exact passes_fail (by decide)
  · exact passes_late p rfl rfl

theorem chunkSize_passes (state : p.state = s) : Passes s p.upgrade (chunkSize p ch) := by
  refine passes_check p ?_
  split
  · exact passes_late p rfl rfl
  · split
    · split
      · exact passes_late p rfl rfl
      · exact passes_fail (by decide)
    · split
      · exact passes_fail (by decide)
      · exact passes_same p rfl state

theorem chunkParameters_passes (state : p.state = s) : Passes s p.upgrade (chunkParameters p ch) := by
  refine passes_check p ?_
  split
  · exact passes_late p rfl rfl
  · exact passes_same p rfl state

theorem chunkSizeAlmostDone_passes : Passes s p.upgrade (chunkSizeAlmostDone p) := by
  refine passes_check p ?_
  dsimp only
  split
  · exact passes_late p rfl rfl
  · exact passes_late p rfl rfl

theorem chunkData_passes (state : p.state = s) : Passes s p.upgrade (chunkData p available) := by
  refine passes_check p ?_
  dsimp only
  split
  · exact passes_inside p rfl (by simp [beforeUrl]) (by simp) (by simp)
  · exact passes_inside p rfl (fun before => state ▸ before) (by simp) (by simp)

theorem chunkDataAlmostDone_passes : Passes s p.upgrade (chunkDataAlmostDone p) :=
  passes_check p (passes_value p (q := { p with state := .chunkDataDone }) rfl rfl (by simp)
    (by simp))

theorem chunkDataDone_passes : Passes s p.upgrade (chunkDataDone p) :=
  passes_check p (passes_late p rfl rfl)

end Rounds

theorem executeByte_passes (p : HttpParser) (ch : UInt8) (available : ℕ) :
    Passes p.state p.upgrade (executeByte p ch available) := by
  unfold executeByte
  cases state : p.state with
  | dead =>
      dsimp only
      split
      · exact passes_same p rfl state
      · exact passes_fail (by decide)
  | startReq => exact startReq_passes p ch state
  | reqMethod => exact reqMethod_passes p ch state
  | reqSpacesBeforeUrl => exact reqSpacesBeforeUrl_passes p ch state
  | reqSchema => exact reqSchema_passes p ch
  | reqSchemaSlash => exact reqSchema_passes p ch
  | reqSchemaSlashSlash => exact reqSchema_passes p ch
  | reqServerStart => exact reqSchema_passes p ch
  | reqServer => exact reqUrl_passes p ch
  | reqServerWithAt => exact reqUrl_passes p ch
  | reqPath => exact reqUrl_passes p ch
  | reqQueryStringStart => exact reqUrl_passes p ch
  | reqQueryString => exact reqUrl_passes p ch
  | reqFragmentStart => exact reqUrl_passes p ch
  | reqFragment => exact reqUrl_passes p ch
  | reqHttpStart => exact reqHttpStart_passes p ch state
  | reqHttpH => exact passes_late p rfl rfl
  | reqHttpHT => exact passes_late p rfl rfl
  | reqHttpHTT => exact passes_late p rfl rfl
  | reqHttpHTTP => exact passes_late p rfl rfl
  | reqFirstHttpMajor => exact reqFirstHttpMajor_passes p ch
  | reqHttpMajor => exact reqHttpMajor_passes p ch state
  | reqFirstHttpMinor => exact reqFirstHttpMinor_passes p ch
  | reqHttpMinor => exact reqHttpMinor_passes p ch state
  | reqLineAlmostDone => exact reqLineAlmostDone_passes p ch
  | headerFieldStart => exact headerFieldStart_passes p ch rfl
  | headerField => exact headerField_passes p ch state
  | headerValueStart => exact headerValueStart_passes p ch state
  | headerValue => exact headerValue_passes p ch state
  | headerValueLws => exact headerValueLws_passes p ch
  | headerAlmostDone => exact passes_late p rfl rfl
  | headersAlmostDone => exact headersAlmostDone_passes p rfl
  | headersDone => exact headersDone_passes p rfl
  | chunkSizeStart => exact chunkSizeStart_passes p ch
  | chunkSize => exact chunkSize_passes p ch state
  | chunkParameters => exact chunkParameters_passes p ch state
  | chunkSizeAlmostDone => exact chunkSizeAlmostDone_passes p
  | chunkData => exact chunkData_passes p available state
  | chunkDataAlmostDone => exact chunkDataAlmostDone_passes p
  | chunkDataDone => exact chunkDataDone_passes p
  | bodyIdentity => exact bodyIdentity_passes p available state
  | messageDone => exact passes_complete (p := { p with state := .startReq }) rfl (by simp) (by simp)

theorem round_passes (p : HttpParser) (ch : UInt8) (available : ℕ) :
    Passes p.state p.upgrade (round p ch available) := by
  unfold round
  split
  · dsimp only
    split
    · exact passes_fail (by decide)
    · exact executeByte_passes { p with nread := p.nread + 1 } ch available
  · exact executeByte_passes p ch available

/-! ## Before, inside and behind the URL -/

def aside : Action → Bool
  | .mark m | .data m | .dataThrough m => m ≠ .url
  | .messageComplete => false

/-- How a round goes on in its message. -/
inductive UrlStep (s t : ParserState) : List Action → Prop
  | before (front : beforeUrl s = true) (next : beforeUrl t = true) : UrlStep s t []
  | starts (front : beforeUrl s = true) (next : inUrl t = true) : UrlStep s t [.mark .url]
  | inside (url : inUrl s = true) (next : inUrl t = true) : UrlStep s t []
  | stops (url : inUrl s = true) (next : pastUrl t = true) : UrlStep s t [.data .url]
  | past {actions : List Action} (behind : pastUrl s = true) (next : pastUrl t = true)
      (others : ∀ a ∈ actions, aside a = true) : UrlStep s t actions
  | completes (behind : pastUrl s = true) (next : t = .startReq) : UrlStep s t [.messageComplete]
  | ends (behind : pastUrl s = true) (next : t = .startReq) :
      UrlStep s t [.mark .body, .dataThrough .body, .messageComplete]

theorem inUrl_iff (s : ParserState) : inUrl s = true ↔ markOf s = some .url := by
  cases s <;> decide

theorem beforeUrl_unmarked {s : ParserState} (front : beforeUrl s = true) : markOf s = none := by
  revert front
  cases s <;> decide

theorem pastUrl_iff (s : ParserState) :
    pastUrl s = true ↔ beforeUrl s = false ∧ markOf s ≠ some .url := by
  cases s <;> decide

def StaysFront (r : Reaction) : Prop :=
  r.flow = .next → (beforeUrl r.parser.state = true ∧ r.actions = []) ∨ r.actions = [.mark .url]

theorem urlChar_front (p : HttpParser) (from_ : ParserState) (ch : UInt8) :
    StaysFront (urlChar p from_ ch [.mark .url]) := by
  unfold urlChar
  dsimp only
  split_ifs
  · exact fun next => by cases next
  · exact fun _ => Or.inr rfl

theorem executeByte_front (p : HttpParser) (ch : UInt8) (available : ℕ)
    (front : beforeUrl p.state = true) : StaysFront (executeByte p ch available) := by
  unfold StaysFront executeByte
  cases state : p.state <;> simp only [state, beforeUrl, Bool.false_eq_true] at front
  case startReq =>
      dsimp only
      unfold startReq
      dsimp only
      split_ifs
      · exact fun _ => Or.inl ⟨by simp [Reaction.go, state, beforeUrl], rfl⟩
      · cases firstMethod ch with
        | none => exact fun next => by cases next
        | some method => exact fun _ => Or.inl ⟨rfl, rfl⟩
      · exact fun next => by cases next
  case reqMethod =>
      dsimp only
      unfold reqMethod
      split_ifs
      · exact fun next => by cases next
      · exact fun _ => Or.inl ⟨rfl, rfl⟩
      · exact fun _ => Or.inl ⟨by simp [Reaction.go, state, beforeUrl], rfl⟩
      · cases nextMethod p.method p.index ch with
        | error invalid => exact fun next => by cases next
        | ok method => exact fun _ => Or.inl ⟨by simp [Reaction.go, state, beforeUrl], rfl⟩
  case reqSpacesBeforeUrl =>
      dsimp only
      unfold reqSpacesBeforeUrl
      by_cases space : ch = sp
      · rw [if_pos space]
        exact fun _ => Or.inl ⟨by simp [Reaction.go, state, beforeUrl], rfl⟩
      · rw [if_neg space]
        exact urlChar_front p _ ch

theorem round_front (p : HttpParser) (ch : UInt8) (available : ℕ)
    (front : beforeUrl p.state = true) : StaysFront (round p ch available) := by
  unfold round
  dsimp only
  split_ifs
  · exact fun next => by cases next
  · exact executeByte_front { p with nread := p.nread + 1 } ch available front
  · exact executeByte_front p ch available front

theorem bodyIdentity_url (p : HttpParser) (available : ℕ) (state : p.state = .bodyIdentity) :
    inUrl (bodyIdentity p available).parser.state = false ∧
      (.messageComplete ∈ (bodyIdentity p available).actions →
        (bodyIdentity p available).parser.state = .startReq) := by
  unfold bodyIdentity Reaction.check
  dsimp only
  split_ifs <;> simp [state, inUrl]

theorem chunkData_url (p : HttpParser) (available : ℕ) (state : p.state = .chunkData) :
    inUrl (chunkData p available).parser.state = false ∧
      .messageComplete ∉ (chunkData p available).actions := by
  unfold chunkData Reaction.check
  dsimp only
  split_ifs <;> simp [state, inUrl]

theorem round_counted (p : HttpParser) (ch : UInt8) (available : ℕ)
    (counted : p.state = .bodyIdentity ∨ p.state = .chunkData) :
    inUrl (round p ch available).parser.state = false ∧
      (.messageComplete ∈ (round p ch available).actions →
        (round p ch available).parser.state = .startReq) := by
  rcases counted with state | state
  · simp only [round, executeByte, state, parsingHeader, Bool.false_eq_true, if_false]
    exact bodyIdentity_url p available state
  · simp only [round, executeByte, state, parsingHeader, Bool.false_eq_true, if_false]
    exact (chunkData_url p available state).imp_right fun never member => absurd member never

/-- A round goes on in its message, unless the parser fails. -/
theorem round_urlStep (p : HttpParser) (ch : UInt8) (available : ℕ)
    (goes : (round p ch available).flow ≠ .abort)
    (fine : (round p ch available).parser.httpErrno = .ok) :
    UrlStep p.state (round p ch available).parser.state (round p ch available).actions := by
  have shape := round_shape p ch available
  have passes := round_passes p ch available
  have front := round_front p ch available
  have counts := round_counted p ch available
  have stays : pastUrl p.state = true → (round p ch available).flow = .next →
      .messageComplete ∉ (round p ch available).actions →
      markOf (round p ch available).parser.state ≠ some .url →
        pastUrl (round p ch available).parser.state = true := by
    intro behind next incomplete unmarked
    rw [pastUrl_iff] at behind ⊢
    refine ⟨?_, unmarked⟩
    by_contra again
    rcases passes.again next (by simpa using again) with before | complete
    · simp [behind.1] at before
    · exact incomplete complete
  generalize round p ch available = reaction at shape passes front counts goes fine stays
  have behind : markOf p.state ≠ some .url → reaction.flow = .next → reaction.actions ≠ [] →
      reaction.actions ≠ [.mark .url] → pastUrl p.state = true := by
    intro unmarked next some_ other
    refine (pastUrl_iff _).mpr ⟨?_, unmarked⟩
    by_contra before
    rcases front (by simpa using before) next with ⟨-, none_⟩ | starts
    · exact some_ none_
    · exact other starts
  cases shape with
  | quiet q errno outside same =>
      by_cases url : inUrl p.state = true
      · refine .inside url ?_
        rw [inUrl_iff] at url ⊢
        exact same.trans url
      · have unmarked : markOf p.state ≠ some .url := by rwa [inUrl_iff] at url
        by_cases before : beforeUrl p.state = true
        · rcases front before rfl with ⟨stays, -⟩ | starts
          · exact .before before stays
          · cases starts
        · have late : pastUrl p.state = true := (pastUrl_iff _).mpr ⟨by simpa using before, unmarked⟩
          exact .past late (stays late rfl (by simp [Reaction.go]) (same ▸ unmarked))
            (by simp [Reaction.go])
  | start m q errno outside header before after =>
      by_cases url : m = .url
      · subst url
        have state := passes.url (by simp [Reaction.go])
        exact .starts (by simp [state, beforeUrl]) ((inUrl_iff _).mpr after)
      · have late := behind (by simp [before]) rfl (by simp [Reaction.go])
          (by simpa [Reaction.go] using url)
        exact .past late (stays late rfl (by simp [Reaction.go]) (by simpa [Reaction.go, after] using url))
          (by simpa [Reaction.go, aside] using url)
  | stop m q errno before after =>
      by_cases url : m = .url
      · subst url
        refine .stops ((inUrl_iff _).mpr before) ((pastUrl_iff _).mpr ⟨?_, by simp [Reaction.go, after]⟩)
        by_contra again
        rcases passes.again rfl (by simpa using again) with front | complete
        · simp [beforeUrl_unmarked front] at before
        · simp [Reaction.go] at complete
      · have late := behind (by simpa [before] using url) rfl (by simp [Reaction.go])
          (by simp [Reaction.go])
        exact .past late (stays late rfl (by simp [Reaction.go]) (by simp [Reaction.go, after]))
          (by simpa [Reaction.go, aside] using url)
  | emptyValue q errno outside before after =>
      have late := behind (by simp [before]) rfl (by simp [Reaction.go]) (by simp [Reaction.go])
      exact .past late (stays late rfl (by simp [Reaction.go]) (by simp [Reaction.go, after]))
        (by simp [Reaction.go, aside])
  | complete q errno outside before after =>
      have late := behind (by simp [before]) rfl (by simp [Reaction.go]) (by simp [Reaction.go])
      exact .completes late after
  | bodyPart toRead q errno counted =>
      have late := behind (by rcases counted with s | s <;> simp [s, markOf, inUrl]) rfl (by simp)
        (by simp)
      have unmarked : markOf q.state ≠ some .url := by
        have url := (counts counted).1
        intro marked
        simp [(inUrl_iff _).mpr marked] at url
      exact .past late (stays late rfl (by simp) unmarked) (by simp [aside])
  | bodyEnd toRead q errno counted =>
      have late := behind (by rcases counted with s | s <;> simp [s, markOf, inUrl]) rfl (by simp)
        (by simp)
      exact .ends late ((counts counted).2 (by simp))
  | bodyStop q errno inside outside after =>
      have late := behind (by simp [markOf_inBody inside]) rfl (by simp [Reaction.go])
        (by simp [Reaction.go])
      exact .past late (stays late rfl (by simp [Reaction.go]) (by simp [Reaction.go, after]))
        (by simp [Reaction.go, aside])
  | upgraded q errno outside before after =>
      have late : pastUrl p.state = true :=
        (pastUrl_iff _).mpr ⟨passes.complete (by simp), by simp [before]⟩
      exact .completes late after
  | failed q errno error => exact absurd fine error
  | aborted q => exact absurd rfl goes

/-! ## The URLs of the messages -/

theorem next_errno {p : HttpParser} {ch : UInt8} {available : ℕ}
    (next : (round p ch available).flow = .next) :
    (round p ch available).parser.httpErrno = p.httpErrno := by
  have shape := round_shape p ch available
  generalize round p ch available = reaction at shape next
  cases shape <;> first | assumption | simp [Reaction.fail] at next

/-- What was handed out of the URL of this message, and the URLs of those before it. -/
structure MessageUrls where
  current : Bytes
  done : List Bytes
  deriving DecidableEq

def MessageUrls.none : MessageUrls := ⟨[], []⟩

def messageUrls : ParserSettings MessageUrls where
  onData m urls text := if m = .url then { urls with current := urls.current ++ text } else urls
  onMessageComplete urls _ := ⟨[], urls.done ++ [urls.current]⟩

theorem messageUrls_additive : Additive messageUrls (· ≠ 0) where
  head := by
    intro m urls first second _
    by_cases url : m = .url <;> simp [messageUrls, url]
  body := by
    intro urls first second
    simp [messageUrls]

section Read

variable {s t : ParserState} {method : HttpMethod} {ch : UInt8} {urls : MessageUrls}

theorem absorb_past {actions : List Action} (behind : pastUrl s = true)
    (others : ∀ a ∈ actions, aside a = true) :
    absorb messageUrls s method ch urls actions = urls := by
  unfold absorb
  split
  · cases marked : markOf s with
    | none => rfl
    | some m =>
        have other : m ≠ .url := by
          rintro rfl
          exact ((pastUrl_iff s).mp behind).2 marked
        simp [messageUrls, other]
  · rename_i m
    have other : m ≠ .url := by simpa [aside] using others (.mark m) (by simp)
    simp [messageUrls, other]
  · rename_i m _
    have other : m ≠ .url := by simpa [aside] using others (.mark m) (by simp)
    simp [messageUrls, other]
  · exact absurd (others .messageComplete (by simp)) (by simp [aside])
  · exact absurd (others .messageComplete (by simp)) (by simp [aside])
  · rfl

theorem absorb_step {actions : List Action} (behind : pastUrl s = true)
    (goes : UrlStep s t actions) :
    (pastUrl t = true ∧ absorb messageUrls s method ch urls actions = urls) ∨
      (t = .startReq ∧
        absorb messageUrls s method ch urls actions = ⟨[], urls.done ++ [urls.current]⟩) := by
  cases goes with
  | before front next => simp [pastUrl, front] at behind
  | starts front next => simp [pastUrl, front] at behind
  | inside url next => simp [pastUrl, url] at behind
  | stops url next => simp [pastUrl, url] at behind
  | past _ next others => exact Or.inl ⟨next, absorb_past behind others⟩
  | completes _ next => exact Or.inr ⟨next, rfl⟩
  | ends _ next => exact Or.inr ⟨next, by simp [absorb, messageUrls]⟩

/-- The rest of a message behind its URL, where only the last byte completes it. -/
theorem read_behind {q : HttpParser} {final : MessageUrls} :
    ∀ (data : Bytes) (p : HttpParser), p.httpErrno = .ok → pastUrl p.state = true →
      (∀ front back t v, data = front ++ back → back ≠ [] →
        read messageUrls front p urls = .ended t v → v.done = urls.done) →
      (read messageUrls data p urls).Whole q final → q.httpErrno = .ok →
      final.done ≠ urls.done → final = ⟨[], urls.done ++ [urls.current]⟩ ∧ q.state = .startReq := by
  intro data
  induction data with
  | nil =>
      intro p ok behind single whole fine completed
      rcases whole with done | done
      · simp only [read, Reading.ended.injEq] at done
        exact absurd (congrArg MessageUrls.done done.2.symm) completed
      · simp [read] at done
  | cons ch rest ih =>
      intro p ok behind single whole fine completed
      simp only [Reading.Whole, read] at whole
      cases flow : (round p ch 1).flow with
      | abort => simp [flow] at whole
      | leave =>
          simp only [flow] at whole
          split at whole
          · rename_i good
            simp only [reduceCtorEq, Reading.left.injEq, false_or] at whole
            obtain ⟨rfl, rfl, -⟩ := whole
            rcases absorb_step behind (round_urlStep p ch 1 (by simp [flow]) good) with
              ⟨-, same⟩ | ⟨state, same⟩
            · rw [same] at completed
              exact absurd rfl completed
            · exact ⟨same, state⟩
          · simp at whole
      | next =>
          simp only [flow] at whole
          have kept := (next_errno flow).trans ok
          rcases absorb_step behind (round_urlStep p ch 1 (by simp [flow]) kept) with
            ⟨next, same⟩ | ⟨state, same⟩
          · rw [same] at whole
            refine ih _ kept next ?_ whole fine completed
            intro front back t v split more reads
            refine single (ch :: front) back t v (by rw [split, List.cons_append]) more ?_
            simp only [read, flow, same]
            exact reads
          · cases rest with
            | nil =>
                simp only [read, Reading.ended.injEq, reduceCtorEq, or_false] at whole
                obtain ⟨rfl, rfl⟩ := whole
                exact ⟨same, state⟩
            | cons d more =>
                have early := single [ch] (d :: more) (round p ch 1).parser _ rfl (by simp)
                  (by simp only [read, flow]; rfl)
                rw [same] at early
                simp at early

end Read

section Upgrade

variable {ρ : Type} {settings : ParserSettings ρ} {q : HttpParser} {final : ρ}

/-- The parser leaves behind an upgraded message only, and then at once. -/
theorem read_upgrade :
    ∀ (data : Bytes) (p : HttpParser) (user : ρ), p.upgrade = false →
      (read settings data p user = .ended q final → q.upgrade = false) ∧
        ∀ rest, read settings data p user = .left q final rest → q.upgrade = true := by
  intro data
  induction data with
  | nil =>
      intro p user unset
      simp only [read, Reading.ended.injEq, reduceCtorEq, false_implies, implies_true, and_true]
      rintro ⟨rfl, -⟩
      exact unset
  | cons ch rest ih =>
      intro p user unset
      have passes := round_passes p ch 1
      simp only [read]
      cases flow : (round p ch 1).flow with
      | abort => simp
      | leave =>
          dsimp only
          split
          · rename_i good
            simp only [reduceCtorEq, Reading.left.injEq, false_implies, true_and]
            rintro more ⟨rfl, -, -⟩
            exact passes.leaves flow good
          · simp
      | next =>
          refine ih _ _ ?_
          rcases passes.upgrade flow with same | same
          · exact same.trans unset
          · exact same

end Upgrade

/-! ## One piece for each URL -/

def piecesAndUrls : ParserSettings (List Bytes × MessageUrls) where
  onData m seen text :=
    (if m = .url then seen.1 ++ [text] else seen.1, messageUrls.onData m seen.2 text)
  onMessageComplete seen method := (seen.1, messageUrls.onMessageComplete seen.2 method)

/-- Every piece is a URL; the last one is that of the message behind whose URL the parser
stands. -/
structure InStep (s : ParserState) (l : Loop (List Bytes × MessageUrls)) : Prop where
  marked : (l.marks .url).isSome = inUrl s
  pieces : l.user.1 = l.user.2.done ++ if pastUrl s then [l.user.2.current] else []
  fresh : pastUrl s = false → l.user.2.current = []

section Pieces

variable {l : Loop (List Bytes × MessageUrls)} {s t : ParserState} (method : HttpMethod)
  (taken : Bytes)

theorem callback_aside {m : Mark} (other : m ≠ .url) (through : Bytes) :
    (l.callback piecesAndUrls m through).user = l.user ∧
      (l.callback piecesAndUrls m through).marks .url = l.marks .url := by
  unfold Loop.callback
  cases l.marks m with
  | none => exact ⟨rfl, rfl⟩
  | some text => exact ⟨by simp [piecesAndUrls, messageUrls, other], by simp [Ne.symm other]⟩

theorem act_aside {a : Action} (other : aside a = true) :
    (l.act piecesAndUrls method taken a).user = l.user ∧
      (l.act piecesAndUrls method taken a).marks .url = l.marks .url := by
  cases a with
  | mark m =>
      have other : m ≠ .url := by simpa [aside] using other
      simp only [Loop.act]
      cases l.marks m with
      | none => exact ⟨rfl, by simp [Ne.symm other]⟩
      | some text => exact ⟨rfl, rfl⟩
  | data m => exact callback_aside (by simpa [aside] using other) []
  | dataThrough m => exact callback_aside (by simpa [aside] using other) taken
  | messageComplete => exact absurd other (by simp [aside])

theorem acts_aside (actions : List Action) :
    ∀ l : Loop (List Bytes × MessageUrls), (∀ a ∈ actions, aside a = true) →
      (actions.foldl (Loop.act piecesAndUrls method taken) l).user = l.user ∧
        (actions.foldl (Loop.act piecesAndUrls method taken) l).marks .url = l.marks .url := by
  induction actions with
  | nil => intro l _; exact ⟨rfl, rfl⟩
  | cons action rest ih =>
      intro l others
      obtain ⟨user, marks⟩ := act_aside (l := l) method taken (others action List.mem_cons_self)
      obtain ⟨users, marked⟩ := ih (l.act piecesAndUrls method taken action)
        fun a member => others a (List.mem_cons_of_mem _ member)
      exact ⟨users.trans user, marked.trans marks⟩

theorem inStep_of_aside {l' : Loop (List Bytes × MessageUrls)} (step : InStep s l)
    (user : l'.user = l.user) (marks : l'.marks .url = l.marks .url) (past : pastUrl t = pastUrl s)
    (url : inUrl t = inUrl s) : InStep t l' where
  marked := by rw [marks, step.marked, url]
  pieces := by rw [user, past, step.pieces]
  fresh := by
    rw [user, past]
    exact step.fresh

theorem pastUrl_inUrl (past : pastUrl s = true) : inUrl s = false := by
  revert past
  cases s <;> decide

theorem inUrl_pastUrl (url : inUrl s = true) : pastUrl s = false := by
  revert url
  cases s <;> decide

theorem beforeUrl_pastUrl (front : beforeUrl s = true) : pastUrl s = false ∧ inUrl s = false := by
  revert front
  cases s <;> decide

theorem inStep_complete (step : InStep s l) (behind : pastUrl s = true) :
    InStep .startReq (l.act piecesAndUrls method taken .messageComplete) where
  marked := by
    have marked := step.marked
    rw [pastUrl_inUrl behind] at marked
    exact marked
  pieces := by
    have pieces := step.pieces
    rw [if_pos behind] at pieces
    simpa [Loop.act, piecesAndUrls, messageUrls, pastUrl, beforeUrl] using pieces
  fresh := fun _ => rfl

/-- One round. -/
theorem inStep_acts {actions : List Action} (step : InStep s l) (goes : UrlStep s t actions) :
    InStep t (actions.foldl (Loop.act piecesAndUrls method taken) l) := by
  cases goes with
  | before front next =>
      exact inStep_of_aside step rfl rfl
        ((beforeUrl_pastUrl next).1.trans (beforeUrl_pastUrl front).1.symm)
        ((beforeUrl_pastUrl next).2.trans (beforeUrl_pastUrl front).2.symm)
  | starts front next =>
      obtain ⟨past, outside⟩ := beforeUrl_pastUrl front
      have unset : l.marks .url = none := by
        have marked := step.marked
        rw [outside] at marked
        simpa using marked
      have pieces := step.pieces
      have fresh := step.fresh past
      rw [past] at pieces
      refine ⟨?_, ?_, fun _ => ?_⟩
      · simp [Loop.act, unset, next]
      · simpa [Loop.act, unset, inUrl_pastUrl next] using pieces
      · simpa [Loop.act, unset] using fresh
  | inside url next =>
      exact inStep_of_aside step rfl rfl ((inUrl_pastUrl next).trans (inUrl_pastUrl url).symm)
        (next.trans url.symm)
  | stops url next =>
      obtain ⟨text, set_⟩ := Option.isSome_iff_exists.mp (step.marked.trans url)
      have pieces := step.pieces
      have fresh := step.fresh (inUrl_pastUrl url)
      rw [inUrl_pastUrl url] at pieces
      refine ⟨?_, ?_, fun unpast => ?_⟩
      · simp [Loop.act, Loop.callback, set_, pastUrl_inUrl next]
      · simp only [Bool.false_eq_true, if_false, List.append_nil] at pieces
        simp [Loop.act, Loop.callback, set_, next, piecesAndUrls, messageUrls, pieces, fresh]
      · simp [next] at unpast
  | past behind next others =>
      obtain ⟨user, marks⟩ := acts_aside method taken actions l others
      exact inStep_of_aside step user marks (next.trans behind.symm)
        ((pastUrl_inUrl next).trans (pastUrl_inUrl behind).symm)
  | completes behind next =>
      subst next
      exact inStep_complete method taken step behind
  | ends behind next =>
      subst next
      obtain ⟨user, marks⟩ := acts_aside method taken
        [.mark .body, .dataThrough .body] l (by simp [aside])
      exact inStep_complete method taken (inStep_of_aside step user marks rfl rfl) behind

theorem inStep_advance (step : InStep s l) : InStep s (l.advance taken) where
  marked := by
    rw [← step.marked]
    simp [Loop.advance]
  pieces := step.pieces
  fresh := step.fresh

theorem finish_aside {seen : List Bytes × MessageUrls} (unset : l.marks .url = none)
    (finished : l.finish piecesAndUrls = some seen) : seen = l.user := by
  unfold Loop.finish at finished
  split at finished
  · have field := callback_aside (l := l) (m := .headerField) (by decide) []
    have value := callback_aside (l := l.callback piecesAndUrls .headerField [])
      (m := .headerValue) (by decide) []
    have url : ((l.callback piecesAndUrls .headerField []).callback piecesAndUrls .headerValue
        []).callback piecesAndUrls .url [] =
        (l.callback piecesAndUrls .headerField []).callback piecesAndUrls .headerValue [] := by
      rw [Loop.callback, value.2, field.2, unset]
    rw [url] at finished
    have body := callback_aside (m := .body)
      (l := (l.callback piecesAndUrls .headerField []).callback piecesAndUrls .headerValue [])
      (by decide) []
    rw [body.1, value.1, field.1] at finished
    exact (Option.some.inj finished).symm
  · simp at finished

end Pieces

/-- The rounds of a call hand out one piece for the URL of each message. -/
theorem executeLoop_inStep {q : HttpParser} {seen : List Bytes × MessageUrls} (fuel : ℕ) :
    ∀ (data : Bytes) (p : HttpParser) (l : Loop (List Bytes × MessageUrls)),
      p.httpErrno = .ok → InStep p.state l →
      executeLoop piecesAndUrls fuel data p l = some (q, seen) → q.httpErrno = .ok →
      q.state = .startReq → seen.1 = seen.2.done := by
  have settled : ∀ {l : Loop (List Bytes × MessageUrls)}, InStep .startReq l →
      l.user.1 = l.user.2.done ∧ l.marks .url = none := by
    intro l step
    have pieces := step.pieces
    have marked := step.marked
    exact ⟨by simpa [pastUrl, beforeUrl] using pieces, by simpa [inUrl] using marked⟩
  have closing : ∀ {p : HttpParser} {l : Loop (List Bytes × MessageUrls)}, InStep p.state l →
      (l.finish piecesAndUrls).map (fun user => (p, user)) = some (q, seen) →
      q.state = .startReq → seen.1 = seen.2.done := by
    intro p l step done state
    obtain ⟨user, finished, same⟩ := Option.map_eq_some_iff.mp done
    rw [Prod.mk.injEq] at same
    obtain ⟨rfl, rfl⟩ := same
    rw [state] at step
    obtain ⟨pieces, unset⟩ := settled step
    rw [finish_aside unset finished]
    exact pieces
  induction fuel with
  | zero =>
      intro data p l ok step done _ state
      cases data with
      | nil => exact closing step done state
      | cons ch rest =>
          simp only [executeLoop, Option.some.injEq, Prod.mk.injEq] at done
          obtain ⟨rfl, rfl⟩ := done
          exact (settled (state ▸ step)).1
  | succ fuel ih =>
      intro data p l ok step done fine state
      cases data with
      | nil => exact closing step done state
      | cons ch rest =>
          simp only [executeLoop] at done
          cases flow : (round p ch (rest.length + 1)).flow with
          | abort => simp [flow] at done
          | leave =>
              simp only [flow, Option.some.injEq, Prod.mk.injEq] at done
              obtain ⟨rfl, rfl⟩ := done
              refine (settled (state ▸ inStep_acts _ _ step ?_)).1
              exact round_urlStep p ch (rest.length + 1) (by simp [flow]) fine
          | next =>
              simp only [flow] at done
              have kept := (next_errno flow).trans ok
              exact ih _ _ _ kept (inStep_advance _ (inStep_acts _ _ step
                (round_urlStep p ch (rest.length + 1) (by simp [flow]) kept))) done fine state

theorem execute_pieces {p q : HttpParser} {data : Bytes} {pieces : List Bytes} {urls : MessageUrls}
    (fresh : p.state = .startReq) (nonempty : data ≠ [])
    (handed : httpParserExecute urlPieces p [] data = some (q, pieces))
    (read_ : httpParserExecute messageUrls p .none data = some (q, urls))
    (ok : p.httpErrno = .ok) (fine : q.httpErrno = .ok) (ends : q.state = .startReq) :
    pieces = urls.done := by
  have first : Commutes piecesAndUrls urlPieces Prod.fst := ⟨fun _ _ _ => rfl, fun _ _ => rfl⟩
  have second : Commutes piecesAndUrls messageUrls Prod.snd := ⟨fun _ _ _ => rfl, fun _ _ => rfl⟩
  have viaPieces := execute_map _ first p ([], .none) data
  have viaUrls := execute_map _ second p ([], .none) data
  rw [handed] at viaPieces
  rw [read_] at viaUrls
  obtain ⟨out, both, same⟩ := Option.map_eq_some_iff.mp viaPieces.symm
  rw [both, Option.map_some, Option.some.injEq, Prod.mk.injEq] at viaUrls
  rw [Prod.mk.injEq] at same
  obtain ⟨rfl, rfl⟩ := same
  have marks : entryMarks p.state = clear := by
    rw [entryMarks_eq, fresh]
    rfl
  rw [httpParserExecute, if_neg (not_not.mpr ok), if_neg nonempty, marks] at both
  have step : InStep p.state ⟨(([], .none) : List Bytes × MessageUrls), clear⟩ := by
    rw [fresh]
    exact ⟨rfl, rfl, fun _ => rfl⟩
  rw [executeLoop_inStep _ data p _ ok step both fine ends, viaUrls.2]

end AirCast.Http
