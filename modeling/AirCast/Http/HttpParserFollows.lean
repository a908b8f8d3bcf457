import AirCast.Http.HttpParserSegments

/-! # One message behind another

Between two messages most fields of the parser have no part in what comes: `Follows`
holds of two parsers that differ in such fields, and in the header bytes they have
counted.  A call that takes more than one message goes on behind the first as another
call would. -/

set_option autoImplicit false

namespace AirCast.Http

variable {ρ : Type}

/-! ## Fields that are read again -/

/-- The states in which `header_state` is read before it is written. -/
def readsHeaderState : ParserState → Bool
  | .headerField | .headerValueStart | .headerValue | .headerValueLws | .headerAlmostDone => true
  | _ => false

/-- `q` does what `p` does, but for the bytes of a header it has counted. -/
structure Follows (R : ℕ → ℕ → Prop) (p q : HttpParser) : Prop where
  state : q.state = p.state
  errno : q.httpErrno = p.httpErrno
  counted : R p.nread q.nread
  chunk : p.state = .chunkSizeStart → q.nread = p.nread
  message : p.state ≠ .startReq →
    q.flags = p.flags ∧ q.index = p.index ∧ q.contentLength = p.contentLength ∧
      q.method = p.method
  header : readsHeaderState p.state = true → q.headerState = p.headerState
  major : p.state = .reqHttpMajor → q.httpMajor = p.httpMajor
  minor : p.state = .reqHttpMinor → q.httpMinor = p.httpMinor
  upgrade : p.state = .headersDone → q.upgrade = p.upgrade

/-- A relation between counts that the parser keeps. -/
structure CountRelation (R : ℕ → ℕ → Prop) : Prop where
  zero : R 0 0
  succ : ∀ {a b}, R a b → R (a + 1) (b + 1)
  le : ∀ {a b}, R a b → a ≤ b

theorem countRelation_le : CountRelation (· ≤ ·) :=
  ⟨le_rfl, fun less => Nat.succ_le_succ less, id⟩

/-- Two reactions that are the same for the callbacks, and go on from parsers that do
the same. -/
structure SameReaction (R : ℕ → ℕ → Prop) (r s : Reaction) : Prop where
  actions : s.actions = r.actions
  skip : s.skip = r.skip
  flow : s.flow = r.flow
  method : r.actions ≠ [] → s.parser.method = r.parser.method
  errno : s.parser.httpErrno = r.parser.httpErrno
  state : s.parser.state = r.parser.state
  counted : R r.parser.nread s.parser.nread
  goes : r.flow = .next → Follows R r.parser s.parser

def OverLimit (p : HttpParser) : Prop := parsingHeader p.state = true ∧ httpMaxHeaderSize ≤ p.nread

theorem round_overLimit {p : HttpParser} (full : OverLimit p) (ch : UInt8) (available : ℕ) :
    round p ch available = .fail { p with nread := p.nread + 1 } .headerOverflow := by
  simp only [round, full.1, if_true, if_pos (Nat.lt_succ_of_le full.2)]

section Follow

variable {R : ℕ → ℕ → Prop} {p q : HttpParser}

theorem sameReaction_go {actions : List Action} (follows : Follows R p q)
    (method : actions ≠ [] → q.method = p.method) :
    SameReaction R (.go p actions) (.go q actions) :=
  ⟨rfl, rfl, rfl, method, follows.errno, follows.state, follows.counted, fun _ => follows⟩

theorem sameReaction_fail (errno : HttpErrno) (state : q.state = p.state)
    (counted : R p.nread q.nread) : SameReaction R (.fail p errno) (.fail q errno) :=
  ⟨rfl, rfl, rfl, fun more => absurd rfl more, rfl, state, counted, fun next => by cases next⟩

theorem sameReaction_abort (state : q.state = p.state) (errno : q.httpErrno = p.httpErrno)
    (counted : R p.nread q.nread) :
    SameReaction R ⟨p, [], 0, .abort⟩ ⟨q, [], 0, .abort⟩ :=
  ⟨rfl, rfl, rfl, fun more => absurd rfl more, errno, state, counted, fun next => by cases next⟩

theorem startReq_follows (follows : Follows R p q) (ch : UInt8) (s : p.state = .startReq) :
    SameReaction R (startReq p ch) (startReq q ch) := by
  obtain ⟨flags, state, headerState, index, nread, contentLength, major, minor, method, errno,
    upgrade⟩ := p
  obtain ⟨flags', state', headerState', index', nread', contentLength', major', minor', method',
    errno', upgrade'⟩ := q
  obtain ⟨state, errno, counted, chunk, message, header, majors, minors, upgrades⟩ := follows
  dsimp only at state errno counted chunk message header majors minors upgrades s
  subst s state errno
  unfold startReq
  split
  · refine sameReaction_go ?_ (by simp)
    constructor <;> simp_all [readsHeaderState]
  · dsimp only
    split
    · exact sameReaction_fail _ rfl counted
    · split
      · exact sameReaction_fail _ rfl counted
      · refine sameReaction_go ?_ (by simp)
        constructor <;> simp_all [readsHeaderState]

/-- `p` with other values in the fields that may differ inside a message. -/
abbrev HttpParser.spread (p : HttpParser) (headerState : HeaderState) (nread major minor : ℕ)
    (upgrade : Bool) : HttpParser :=
  { p with
    headerState := headerState
    nread := nread
    httpMajor := major
    httpMinor := minor
    upgrade := upgrade }

theorem Follows.eq_spread (follows : Follows R p q) (started : p.state ≠ .startReq) :
    q = p.spread q.headerState q.nread q.httpMajor q.httpMinor q.upgrade := by
  obtain ⟨flags, index, contentLength, method⟩ := follows.message started
  have state := follows.state
  have errno := follows.errno
  cases q
  simp_all [HttpParser.spread]

def plainState : ParserState → Bool
  | .chunkSizeStart | .reqHttpMajor | .reqHttpMinor | .headersDone => false
  | s => !readsHeaderState s

variable {headerState : HeaderState} {nread major minor : ℕ} {upgrade : Bool}

theorem follows_spread (counted : R p.nread nread)
    (chunk : p.state = .chunkSizeStart → nread = p.nread)
    (header : readsHeaderState p.state = true → headerState = p.headerState)
    (majors : p.state = .reqHttpMajor → major = p.httpMajor)
    (minors : p.state = .reqHttpMinor → minor = p.httpMinor)
    (upgrades : p.state = .headersDone → upgrade = p.upgrade) :
    Follows R p (p.spread headerState nread major minor upgrade) :=
  ⟨rfl, rfl, counted, chunk, fun _ => ⟨rfl, rfl, rfl, rfl⟩, header, majors, minors, upgrades⟩

theorem follows_plain (counted : R p.nread nread) (plain : plainState p.state = true) :
    Follows R p (p.spread headerState nread major minor upgrade) := by
  refine follows_spread counted ?_ ?_ ?_ ?_ ?_
  all_goals
    intro s
    revert plain
  · simp [s, plainState]
  · cases state : p.state <;> simp [state, plainState, readsHeaderState] at s ⊢
  · simp [s, plainState]
  · simp [s, plainState]
  · simp [s, plainState]

theorem go_plain {actions : List Action} (counted : R p.nread nread)
    (plain : plainState p.state = true) :
    SameReaction R (.go p actions) (.go (p.spread headerState nread major minor upgrade) actions) :=
  sameReaction_go (follows_plain counted plain) fun _ => rfl

variable (counted : R p.nread nread) (ch : UInt8) (available : ℕ)

include counted

theorem reqMethod_follows (s : p.state = .reqMethod) :
    SameReaction R (reqMethod p ch)
      (reqMethod (p.spread headerState nread major minor upgrade) ch) := by
  have plain : plainState p.state = true := by simp [s, plainState, readsHeaderState]
  unfold reqMethod
  by_cases zero : ch = 0
  · simp only [if_pos zero]
    exact sameReaction_fail _ rfl counted
  · by_cases ends : ch = sp ∧ charAt p.method.str p.index = 0
    · simp only [if_neg zero, HttpParser.spread, if_pos ends]
      exact go_plain (p := { p with state := .reqSpacesBeforeUrl, index := p.index + 1 }) counted rfl
    · by_cases same : ch = charAt p.method.str p.index
      · simp only [if_neg zero, HttpParser.spread, if_neg ends, if_pos same]
        exact go_plain (p := { p with index := p.index + 1 }) counted plain
      · simp only [if_neg zero, HttpParser.spread, if_neg ends, if_neg same]
        cases nextMethod p.method p.index ch with
        | error invalid => exact sameReaction_fail _ rfl counted
        | ok method =>
            exact go_plain (p := { p with method := method, index := p.index + 1 }) counted plain

omit counted in
theorem parseUrlChar_plain (s : ParserState) : plainState (parseUrlChar s ch) = true := by
  unfold parseUrlChar
  split
  · rfl
  · cases s <;> dsimp only <;> (repeat' split) <;> rfl

theorem urlChar_follows (from_ : ParserState) (actions : List Action) :
    SameReaction R (urlChar p from_ ch actions)
      (urlChar (p.spread headerState nread major minor upgrade) from_ ch actions) := by
  unfold urlChar
  dsimp only
  split_ifs
  · exact sameReaction_fail _ rfl counted
  · exact go_plain (p := { p with state := parseUrlChar from_ ch }) counted
      (parseUrlChar_plain ch from_)

theorem reqSpacesBeforeUrl_follows (s : p.state = .reqSpacesBeforeUrl) :
    SameReaction R (reqSpacesBeforeUrl p ch)
      (reqSpacesBeforeUrl (p.spread headerState nread major minor upgrade) ch) := by
  unfold reqSpacesBeforeUrl
  split_ifs
  · exact go_plain counted (by simp [s, plainState, readsHeaderState])
  · exact urlChar_follows counted ch _ _
  · exact urlChar_follows counted ch _ _

theorem reqSchema_follows :
    SameReaction R (reqSchema p ch)
      (reqSchema (p.spread headerState nread major minor upgrade) ch) := by
  unfold reqSchema
  split_ifs
  · exact sameReaction_fail _ rfl counted
  · exact urlChar_follows counted ch _ _

theorem reqUrl_follows :
    SameReaction R (reqUrl p ch) (reqUrl (p.spread headerState nread major minor upgrade) ch) := by
  unfold reqUrl
  split_ifs
  · exact go_plain (p := { p with state := .reqHttpStart }) counted rfl
  · exact go_plain (p := { p with httpMajor := 0, httpMinor := 9, state := .reqLineAlmostDone })
      counted rfl
  · exact go_plain (p := { p with httpMajor := 0, httpMinor := 9, state := .headerFieldStart })
      counted rfl
  · exact urlChar_follows counted ch _ _

theorem reqHttpStart_follows (s : p.state = .reqHttpStart) :
    SameReaction R (reqHttpStart p ch)
      (reqHttpStart (p.spread headerState nread major minor upgrade) ch) := by
  unfold reqHttpStart
  split_ifs
  · exact go_plain (p := { p with state := .reqHttpH }) counted rfl
  · exact go_plain counted (by simp [s, plainState, readsHeaderState])
  · exact sameReaction_fail _ rfl counted

theorem reqFirstHttpMajor_follows :
    SameReaction R (reqFirstHttpMajor p ch)
      (reqFirstHttpMajor (p.spread headerState nread major minor upgrade) ch) := by
  unfold reqFirstHttpMajor
  split_ifs
  · exact sameReaction_fail _ rfl counted
  · refine sameReaction_go ⟨rfl, rfl, counted, ?_, fun _ => ⟨rfl, rfl, rfl, rfl⟩, ?_, fun _ => rfl,
      ?_, ?_⟩ (by simp)
    all_goals simp [readsHeaderState]

theorem reqHttpMajor_follows (s : p.state = .reqHttpMajor) :
    SameReaction R (reqHttpMajor p ch)
      (reqHttpMajor (p.spread headerState nread p.httpMajor minor upgrade) ch) := by
  unfold reqHttpMajor
  dsimp only
  split_ifs
  · exact go_plain (p := { p with state := .reqFirstHttpMinor }) counted rfl
  · exact sameReaction_fail _ rfl counted
  · refine sameReaction_go ⟨rfl, rfl, counted, ?_, fun _ => ⟨rfl, rfl, rfl, rfl⟩, ?_,
      fun _ => rfl, ?_, ?_⟩ (by simp)
    all_goals simp [s, readsHeaderState]
  · exact sameReaction_fail _ rfl counted

theorem reqFirstHttpMinor_follows :
    SameReaction R (reqFirstHttpMinor p ch)
      (reqFirstHttpMinor (p.spread headerState nread major minor upgrade) ch) := by
  unfold reqFirstHttpMinor
  split_ifs
  · refine sameReaction_go ⟨rfl, rfl, counted, ?_, fun _ => ⟨rfl, rfl, rfl, rfl⟩, ?_, ?_,
      fun _ => rfl, ?_⟩ (by simp)
    all_goals simp [readsHeaderState]
  · exact sameReaction_fail _ rfl counted

theorem reqHttpMinor_follows (s : p.state = .reqHttpMinor) :
    SameReaction R (reqHttpMinor p ch)
      (reqHttpMinor (p.spread headerState nread major p.httpMinor upgrade) ch) := by
  unfold reqHttpMinor
  dsimp only
  split_ifs
  · exact go_plain (p := { p with state := .reqLineAlmostDone }) counted rfl
  · exact go_plain (p := { p with state := .headerFieldStart }) counted rfl
  · exact sameReaction_fail _ rfl counted
  · refine sameReaction_go ⟨rfl, rfl, counted, ?_, fun _ => ⟨rfl, rfl, rfl, rfl⟩, ?_, ?_,
      fun _ => rfl, ?_⟩ (by simp)
    all_goals simp [s, readsHeaderState]
  · exact sameReaction_fail _ rfl counted

theorem reqLineAlmostDone_follows :
    SameReaction R (reqLineAlmostDone p ch)
      (reqLineAlmostDone (p.spread headerState nread major minor upgrade) ch) := by
  unfold reqLineAlmostDone
  split_ifs
  · exact sameReaction_fail _ rfl counted
  · exact go_plain (p := { p with state := .headerFieldStart }) counted rfl

variable (relation : CountRelation R)

include relation

omit counted in
theorem headersDone_follows (upgrades : upgrade = p.upgrade) :
    SameReaction R (headersDone p)
      (headersDone (p.spread headerState nread major minor upgrade)) := by
  subst upgrades
  unfold headersDone
  dsimp only
  have done : ∀ {t : HttpParser} {flow : Flow}, flow ≠ .next ∨ plainState t.state = true →
      t.nread = 0 → SameReaction R ⟨t, [.messageComplete], 0, flow⟩
        ⟨t.spread headerState 0 major minor p.upgrade, [.messageComplete], 0, flow⟩ := by
    intro t flow allowed zero
    refine ⟨rfl, rfl, rfl, fun _ => rfl, rfl, rfl, zero ▸ relation.zero, ?_⟩
    rintro rfl
    exact follows_plain (zero ▸ relation.zero) (allowed.resolve_left (by simp))
  split_ifs
  · exact done (t := { p with nread := 0, state := .startReq }) (Or.inl (by simp)) rfl
  · exact done (t := { p with nread := 0, state := .startReq }) (Or.inr rfl) rfl
  · refine sameReaction_go (p := { p with nread := 0, state := .chunkSizeStart })
      (follows_spread relation.zero ?_ ?_ ?_ ?_ ?_) (by simp)
    all_goals simp [readsHeaderState]
  · exact done (t := { p with nread := 0, state := .startReq }) (Or.inr rfl) rfl
  · exact go_plain (p := { p with nread := 0, state := .bodyIdentity }) relation.zero rfl
  · exact done (t := { p with nread := 0, state := .startReq }) (Or.inr rfl) rfl

theorem headersAlmostDone_follows :
    SameReaction R (headersAlmostDone p)
      (headersAlmostDone (p.spread headerState nread major minor upgrade)) := by
  unfold headersAlmostDone
  split_ifs
  · exact go_plain (p := { p with state := .startReq }) counted rfl
  · exact headersDone_follows relation rfl

theorem headerFieldStart_follows :
    SameReaction R (headerFieldStart p ch)
      (headerFieldStart (p.spread headerState nread major minor upgrade) ch) := by
  unfold headerFieldStart
  split_ifs
  · refine sameReaction_go (p := { p with state := .headersAlmostDone }) (follows_plain counted rfl)
      (by simp)
  · exact headersAlmostDone_follows (p := { p with state := .headersAlmostDone }) counted relation
  · exact sameReaction_fail _ rfl counted
  · refine sameReaction_go ⟨rfl, rfl, counted, ?_, fun _ => ⟨rfl, rfl, rfl, rfl⟩, fun _ => rfl, ?_,
      ?_, ?_⟩ (by simp)
    all_goals simp

/-! The functions of a header touch `header_state` only. -/

def headerLine : ParserState → Bool
  | .chunkSizeStart | .reqHttpMajor | .reqHttpMinor | .headersDone => false
  | _ => true

abbrev Reaction.spread (r : Reaction) (nread major minor : ℕ) (upgrade : Bool) : Reaction :=
  { r with parser := r.parser.spread r.parser.headerState nread major minor upgrade }

omit relation counted in
theorem same_spread (r : Reaction) (line : headerLine r.parser.state = true)
    (counts : R r.parser.nread nread) : SameReaction R r (r.spread nread major minor upgrade) := by
  refine ⟨rfl, rfl, rfl, fun _ => rfl, rfl, rfl, counts, fun _ => ?_⟩
  refine follows_spread counts ?_ (fun _ => rfl) ?_ ?_ ?_
  all_goals
    intro s
    simp [s, headerLine] at line

omit relation in
theorem line_follows {f : HttpParser → Reaction}
    (line : f (p.spread p.headerState nread major minor upgrade) =
        (f p).spread nread major minor upgrade ∧
      headerLine (f p).parser.state = true ∧ (f p).parser.nread = p.nread) :
    SameReaction R (f p) (f (p.spread p.headerState nread major minor upgrade)) := by
  rw [line.1]
  exact same_spread _ line.2.1 (line.2.2.symm ▸ counted)

omit relation counted in
theorem headerField_line (s : p.state = .headerField) :
    headerField (p.spread p.headerState nread major minor upgrade) ch =
        (headerField p ch).spread nread major minor upgrade ∧
      headerLine (headerField p ch).parser.state = true ∧
        (headerField p ch).parser.nread = p.nread := by
  unfold headerField
  dsimp only
  split_ifs
  · cases fieldLetter p.headerState p.index (token ch) ch with
    | none => exact ⟨rfl, by simp [s, headerLine], rfl⟩
    | some letter => exact ⟨rfl, by simp [Reaction.go, s, headerLine], rfl⟩
  · exact ⟨rfl, rfl, rfl⟩
  · exact ⟨rfl, rfl, rfl⟩
  · exact ⟨rfl, rfl, rfl⟩
  · exact ⟨rfl, by simp [Reaction.fail, s, headerLine], rfl⟩

omit relation counted in
theorem headerValueStart_line (s : p.state = .headerValueStart) :
    headerValueStart (p.spread p.headerState nread major minor upgrade) ch =
        (headerValueStart p ch).spread nread major minor upgrade ∧
      headerLine (headerValueStart p ch).parser.state = true ∧
        (headerValueStart p ch).parser.nread = p.nread := by
  unfold headerValueStart
  by_cases blank : ch = sp ∨ ch = ht
  · simp only [if_pos blank]
    exact ⟨rfl, by simp [Reaction.go, s, headerLine], rfl⟩
  · simp only [if_neg blank]
    by_cases ends : ch = cr
    · simp only [if_pos ends]
      exact ⟨rfl, rfl, rfl⟩
    · simp only [if_neg ends]
      by_cases stops : ch = lf
      · simp only [if_pos stops]
        exact ⟨rfl, rfl, rfl⟩
      · simp only [if_neg stops]
        cases p.headerState
        all_goals dsimp only
        all_goals first
          | exact ⟨rfl, rfl, rfl⟩
          | (split_ifs <;> exact ⟨rfl, rfl, rfl⟩)

omit relation counted in
theorem headerValue_line (s : p.state = .headerValue) :
    headerValue (p.spread p.headerState nread major minor upgrade) ch =
        (headerValue p ch).spread nread major minor upgrade ∧
      headerLine (headerValue p ch).parser.state = true ∧
        (headerValue p ch).parser.nread = p.nread := by
  have line : headerLine p.state = true := by simp [s, headerLine]
  unfold headerValue
  by_cases ends : ch = cr
  · simp only [if_pos ends]
    exact ⟨rfl, rfl, rfl⟩
  · simp only [if_neg ends]
    by_cases stops : ch = lf
    · simp only [if_pos stops]
      exact ⟨rfl, rfl, rfl⟩
    · simp only [if_neg stops]
      obtain ⟨flags, state, headerState, index, count, contentLength, httpMajor, httpMinor, method,
        errno, upgraded⟩ := p
      dsimp only at s line
      subst s
      cases headerState
      all_goals dsimp only
      all_goals first
        | exact ⟨rfl, rfl, rfl⟩
        | (split_ifs <;> exact ⟨rfl, rfl, rfl⟩)
        | (split_ifs <;> first
            | exact ⟨rfl, rfl, rfl⟩
            | (cases addDigit 10 contentLength (ch.toNat - 48) <;> exact ⟨rfl, rfl, rfl⟩))

theorem headerValueLws_follows :
    SameReaction R (headerValueLws p ch)
      (headerValueLws (p.spread p.headerState nread major minor upgrade) ch) := by
  unfold headerValueLws
  split_ifs
  · exact same_spread (.go { p with state := .headerValueStart } []) rfl counted
  · exact headerFieldStart_follows (p := { p with state := .headerFieldStart }) counted ch relation

omit relation in
theorem headerAlmostDone_follows :
    SameReaction R (.go (headerAlmostDone p) [])
      (.go (headerAlmostDone (p.spread p.headerState nread major minor upgrade)) []) :=
  same_spread (.go (headerAlmostDone p) []) rfl counted

omit relation counted in
theorem check_follows {holds : Bool} {r s : Reaction} {t u : HttpParser}
    (state : u.state = t.state) (errno : u.httpErrno = t.httpErrno) (counts : R t.nread u.nread)
    (same : SameReaction R r s) : SameReaction R (.check holds t r) (.check holds u s) := by
  unfold Reaction.check
  split
  · exact same
  · exact sameReaction_abort state errno counts

omit relation in
theorem bodyIdentity_follows (s : p.state = .bodyIdentity) :
    SameReaction R (bodyIdentity p available)
      (bodyIdentity (p.spread headerState nread major minor upgrade) available) := by
  have plain : plainState p.state = true := by simp [s, plainState, readsHeaderState]
  refine check_follows rfl rfl counted ?_
  dsimp only
  split_ifs
  · exact ⟨rfl, rfl, rfl, fun _ => rfl, rfl, rfl, counted, fun _ => follows_plain counted rfl⟩
  · exact ⟨rfl, rfl, rfl, fun _ => rfl, rfl, rfl, counted, fun _ => follows_plain counted plain⟩

omit relation in
theorem chunkSizeStart_follows (same : nread = p.nread) :
    SameReaction R (chunkSizeStart p ch)
      (chunkSizeStart (p.spread headerState nread major minor upgrade) ch) := by
  subst same
  refine check_follows rfl rfl counted ?_
  cases unhex ch with
  | none => exact sameReaction_fail _ rfl counted
  | some value =>
      exact go_plain (p := { p with contentLength := value, state := .chunkSize }) counted rfl

omit relation in
theorem chunkSize_follows (s : p.state = .chunkSize) :
    SameReaction R (chunkSize p ch)
      (chunkSize (p.spread headerState nread major minor upgrade) ch) := by
  have plain : plainState p.state = true := by simp [s, plainState, readsHeaderState]
  refine check_follows rfl rfl counted ?_
  by_cases ends : ch = cr
  · simp only [if_pos ends]
    exact go_plain (p := { p with state := .chunkSizeAlmostDone }) counted rfl
  · simp only [if_neg ends]
    cases unhex ch with
    | none =>
        dsimp only
        split_ifs
        · exact go_plain (p := { p with state := .chunkParameters }) counted rfl
        · exact sameReaction_fail _ rfl counted
    | some value =>
        dsimp only
        cases addDigit 16 p.contentLength value with
        | none => exact sameReaction_fail _ rfl counted
        | some t => exact go_plain (p := { p with contentLength := t }) counted plain

omit relation in
theorem chunkParameters_follows (s : p.state = .chunkParameters) :
    SameReaction R (chunkParameters p ch)
      (chunkParameters (p.spread headerState nread major minor upgrade) ch) := by
  refine check_follows rfl rfl counted ?_
  split_ifs
  · exact go_plain (p := { p with state := .chunkSizeAlmostDone }) counted rfl
  · exact go_plain counted (by simp [s, plainState, readsHeaderState])

theorem chunkSizeAlmostDone_follows :
    SameReaction R (chunkSizeAlmostDone p)
      (chunkSizeAlmostDone (p.spread headerState nread major minor upgrade)) := by
  refine check_follows rfl rfl counted ?_
  dsimp only
  split_ifs
  · exact go_plain (p := { p with
      nread := 0, flags := { p.flags with trailing := true }, state := .headerFieldStart })
      relation.zero rfl
  · exact go_plain (p := { p with nread := 0, state := .chunkData }) relation.zero rfl

omit relation in
theorem chunkData_follows (s : p.state = .chunkData) :
    SameReaction R (chunkData p available)
      (chunkData (p.spread headerState nread major minor upgrade) available) := by
  have plain : plainState p.state = true := by simp [s, plainState, readsHeaderState]
  refine check_follows rfl rfl counted ?_
  dsimp only
  split_ifs
  · exact ⟨rfl, rfl, rfl, fun _ => rfl, rfl, rfl, counted, fun _ => follows_plain counted rfl⟩
  · exact ⟨rfl, rfl, rfl, fun _ => rfl, rfl, rfl, counted, fun _ => follows_plain counted plain⟩

omit relation in
theorem chunkDataAlmostDone_follows :
    SameReaction R (chunkDataAlmostDone p)
      (chunkDataAlmostDone (p.spread headerState nread major minor upgrade)) :=
  check_follows rfl rfl counted (go_plain (p := { p with state := .chunkDataDone }) counted rfl)

theorem chunkDataDone_follows :
    SameReaction R (chunkDataDone p)
      (chunkDataDone (p.spread headerState nread major minor upgrade)) := by
  refine check_follows rfl rfl counted (sameReaction_go
    (p := { p with nread := 0, state := .chunkSizeStart })
    (follows_spread relation.zero ?_ ?_ ?_ ?_ ?_) (by simp))
  all_goals simp [readsHeaderState]

omit counted in
/-- One case of the switch. -/
theorem executeByte_follows (follows : Follows R p q) :
    SameReaction R (executeByte p ch available) (executeByte q ch available) := by
  by_cases fresh : p.state = .startReq
  · simp only [executeByte, follows.state, fresh]
    exact startReq_follows follows ch fresh
  · have counted := follows.counted
    rw [follows.eq_spread fresh]
    cases s : p.state with
    | startReq => exact absurd s fresh
    | dead =>
        simp only [executeByte, s]
        split_ifs
        · exact go_plain counted (by simp [s, plainState, readsHeaderState])
        · exact sameReaction_fail _ rfl counted
    | reqMethod =>
        simp only [executeByte, s]
        exact reqMethod_follows counted ch s
    | reqSpacesBeforeUrl =>
        simp only [executeByte, s]
        exact reqSpacesBeforeUrl_follows counted ch s
    | reqSchema =>
        simp only [executeByte, s]
        exact reqSchema_follows counted ch
    | reqSchemaSlash =>
        simp only [executeByte, s]
        exact reqSchema_follows counted ch
    | reqSchemaSlashSlash =>
        simp only [executeByte, s]
        exact reqSchema_follows counted ch
    | reqServerStart =>
        simp only [executeByte, s]
        exact reqSchema_follows counted ch
    | reqServer =>
        simp only [executeByte, s]
        exact reqUrl_follows counted ch
    | reqServerWithAt =>
        simp only [executeByte, s]
        exact reqUrl_follows counted ch
    | reqPath =>
        simp only [executeByte, s]
        exact reqUrl_follows counted ch
    | reqQueryStringStart =>
        simp only [executeByte, s]
        exact reqUrl_follows counted ch
    | reqQueryString =>
        simp only [executeByte, s]
        exact reqUrl_follows counted ch
    | reqFragmentStart =>
        simp only [executeByte, s]
        exact reqUrl_follows counted ch
    | reqFragment =>
        simp only [executeByte, s]
        exact reqUrl_follows counted ch
    | reqHttpStart =>
        simp only [executeByte, s]
        exact reqHttpStart_follows counted ch s
    | reqHttpH =>
        simp only [executeByte, s]
        exact go_plain (p := { p with state := .reqHttpHT }) counted rfl
    | reqHttpHT =>
        simp only [executeByte, s]
        exact go_plain (p := { p with state := .reqHttpHTT }) counted rfl
    | reqHttpHTT =>
        simp only [executeByte, s]
        exact go_plain (p := { p with state := .reqHttpHTTP }) counted rfl
    | reqHttpHTTP =>
        simp only [executeByte, s]
        exact go_plain (p := { p with state := .reqFirstHttpMajor }) counted rfl
    | reqFirstHttpMajor =>
        simp only [executeByte, s]
        exact reqFirstHttpMajor_follows counted ch
    | reqHttpMajor =>
        simp only [executeByte, s]
        exact follows.major s ▸ reqHttpMajor_follows counted ch s
    | reqFirstHttpMinor =>
        simp only [executeByte, s]
        exact reqFirstHttpMinor_follows counted ch
    | reqHttpMinor =>
        simp only [executeByte, s]
        exact follows.minor s ▸ reqHttpMinor_follows counted ch s
    | reqLineAlmostDone =>
        simp only [executeByte, s]
        exact reqLineAlmostDone_follows counted ch
    | headerFieldStart =>
        simp only [executeByte, s]
        exact headerFieldStart_follows counted ch relation
    | headerField =>
        simp only [executeByte, s, follows.header (by simp [s, readsHeaderState])]
        exact line_follows (f := fun t => headerField t ch) counted (headerField_line ch s)
    | headerValueStart =>
        simp only [executeByte, s, follows.header (by simp [s, readsHeaderState])]
        exact line_follows (f := fun t => headerValueStart t ch) counted (headerValueStart_line ch s)
    | headerValue =>
        simp only [executeByte, s, follows.header (by simp [s, readsHeaderState])]
        exact line_follows (f := fun t => headerValue t ch) counted (headerValue_line ch s)
    | headerValueLws =>
        simp only [executeByte, s, follows.header (by simp [s, readsHeaderState])]
        exact headerValueLws_follows counted ch relation
    | headerAlmostDone =>
        simp only [executeByte, s, follows.header (by simp [s, readsHeaderState])]
        exact headerAlmostDone_follows counted
    | headersAlmostDone =>
        simp only [executeByte, s]
        exact headersAlmostDone_follows counted relation
    | headersDone =>
        simp only [executeByte, s]
        exact headersDone_follows relation (follows.upgrade s)
    | chunkSizeStart =>
        simp only [executeByte, s]
        exact chunkSizeStart_follows counted ch (follows.chunk s)
    | chunkSize =>
        simp only [executeByte, s]
        exact chunkSize_follows counted ch s
    | chunkParameters =>
        simp only [executeByte, s]
        exact chunkParameters_follows counted ch s
    | chunkSizeAlmostDone =>
        simp only [executeByte, s]
        exact chunkSizeAlmostDone_follows counted relation
    | chunkData =>
        simp only [executeByte, s]
        exact chunkData_follows counted available s
    | chunkDataAlmostDone =>
        simp only [executeByte, s]
        exact chunkDataAlmostDone_follows counted
    | chunkDataDone =>
        simp only [executeByte, s]
        exact chunkDataDone_follows counted relation
    | bodyIdentity =>
        simp only [executeByte, s]
        exact bodyIdentity_follows counted available s
    | messageDone =>
        simp only [executeByte, s]
        exact go_plain (p := { p with state := .startReq }) counted rfl

omit counted in
theorem round_follows (follows : Follows R p q) (fits : ¬ OverLimit q) :
    SameReaction R (round p ch available) (round q ch available) := by
  simp only [OverLimit, not_and, not_le] at fits
  unfold round
  rw [follows.state] at fits ⊢
  by_cases header : parsingHeader p.state = true
  · have below := fits header
    have less := relation.le follows.counted
    have long : ¬ httpMaxHeaderSize < q.nread + 1 := by omega
    have short : ¬ httpMaxHeaderSize < p.nread + 1 := by omega
    simp only [header, if_true, if_neg long, if_neg short]
    exact executeByte_follows ch available relation
      ⟨rfl, follows.errno, relation.succ follows.counted,
        fun s => congrArg (· + 1) (follows.chunk s), follows.message, follows.header,
        follows.major, follows.minor, follows.upgrade⟩
  · simp only [header, if_false, Bool.false_eq_true]
    have same := executeByte_follows ch available relation follows
    simpa only [follows.state] using same

end Follow

section Read

variable {σ : Type}

/-- The callbacks of `image` keep the relation `J` that those of `settings` keep on their
side. -/
structure Simulates (settings : ParserSettings ρ) (image : ParserSettings σ) (J : ρ → σ → Prop) :
    Prop where
  data : ∀ m user seen text, J user seen → J (settings.onData m user text) (image.onData m seen text)
  complete : ∀ user seen method, J user seen →
    J (settings.onMessageComplete user method) (image.onMessageComplete seen method)

def Behind (R : ℕ → ℕ → Prop) (p q : HttpParser) : Prop :=
  q.httpErrno = p.httpErrno ∧ q.state = p.state ∧ R p.nread q.nread

inductive SameReading (R : ℕ → ℕ → Prop) (J : ρ → σ → Prop) : Reading ρ → Reading σ → Prop
  | ended {p q : HttpParser} {user : ρ} {seen : σ} (follows : Follows R p q) (related : J user seen) :
      SameReading R J (.ended p user) (.ended q seen)
  | left {p q : HttpParser} {user : ρ} {seen : σ} {rest : Bytes} (behind : Behind R p q)
      (related : J user seen) : SameReading R J (.left p user rest) (.left q seen rest)
  | failed {p q : HttpParser} (errno : q.httpErrno = p.httpErrno) :
      SameReading R J (.failed p) (.failed q)
  | aborted : SameReading R J .aborted .aborted

variable {settings : ParserSettings ρ} {image : ParserSettings σ} {J : ρ → σ → Prop}

theorem absorb_simulates (simulates : Simulates settings image J) (s : ParserState)
    (method : HttpMethod) (ch : UInt8) {user : ρ} {seen : σ} (related : J user seen)
    (actions : List Action) :
    J (absorb settings s method ch user actions) (absorb image s method ch seen actions) := by
  unfold absorb
  split
  · cases markOf s with
    | none => exact related
    | some m => exact simulates.data m _ _ _ related
  · exact simulates.data _ _ _ _ related
  · exact simulates.data _ _ _ _ related
  · exact simulates.complete _ _ _ related
  · exact simulates.complete _ _ _ (simulates.data _ _ _ _ related)
  · exact related

theorem absorb_method (s : ParserState) {first second : HttpMethod} (ch : UInt8) (user : ρ)
    {actions : List Action} (same : actions ≠ [] → second = first) :
    absorb settings s second ch user actions = absorb settings s first ch user actions := by
  cases actions with
  | nil => rfl
  | cons action rest => rw [same (List.cons_ne_nil action rest)]

/-- The two readings go the same way, unless the second is over the limit of a header. -/
theorem read_follows {R : ℕ → ℕ → Prop} (relation : CountRelation R)
    (simulates : Simulates settings image J) :
    ∀ (data : Bytes) (p q : HttpParser) (user : ρ) (seen : σ), Follows R p q → J user seen →
      (∀ t, read image data q seen = .failed t → t.httpErrno ≠ .headerOverflow) →
        SameReading R J (read settings data p user) (read image data q seen) := by
  intro data
  induction data with
  | nil => intro p q user seen follows related _; exact .ended follows related
  | cons ch rest ih =>
      intro p q user seen follows related fits
      simp only [read] at fits ⊢
      have below : ¬ OverLimit q := by
        intro full
        rw [round_overLimit full] at fits
        exact fits _ rfl rfl
      have same := round_follows ch 1 relation follows below
      have value := absorb_simulates simulates p.state (round p ch 1).parser.method ch related
        (round p ch 1).actions
      rw [follows.state, same.actions, same.flow, same.errno,
        absorb_method p.state ch seen same.method] at fits ⊢
      cases flow : (round p ch 1).flow with
      | abort => exact .aborted
      | leave =>
          dsimp only
          split
          · exact .left ⟨same.errno, same.state, same.counted⟩ value
          · exact .failed same.errno
      | next =>
          simp only [flow] at fits
          exact ih _ _ _ _ (same.goes flow) value fits

end Read

end AirCast.Http
