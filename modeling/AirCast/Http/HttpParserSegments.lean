import AirCast.Http.HttpParser

/-! # The parser does not see where segments end

`read` is the parser with every byte handed to its callback at once: no marks, no
segments.  A call of `http_parser_execute` agrees with it as long as a callback
that is handed a text in two parts does what it does with the whole text. -/

set_option autoImplicit false

namespace AirCast.Http

variable {ρ σ : Type}

/-! ## What one round does to the marks -/

def markOf (s : ParserState) : Option Mark :=
  if s = .headerField then some .headerField
  else if s = .headerValue then some .headerValue
  else if inUrl s then some .url
  else none

def inBody : ParserState → Bool
  | .bodyIdentity | .chunkData | .chunkDataAlmostDone => true
  | _ => false

/-- The reactions of the switch, by what they do to the marks. -/
inductive Shape (p : HttpParser) (available : ℕ) : Reaction → Prop
  | quiet (q : HttpParser) (errno : q.httpErrno = p.httpErrno)
      (outside : inBody p.state = false) (same : markOf q.state = markOf p.state) :
      Shape p available (.go q [])
  | start (m : Mark) (q : HttpParser) (errno : q.httpErrno = p.httpErrno)
      (outside : inBody p.state = false) (header : parsingHeader p.state = true)
      (before : markOf p.state = none) (after : markOf q.state = some m) :
      Shape p available (.go q [.mark m])
  | stop (m : Mark) (q : HttpParser) (errno : q.httpErrno = p.httpErrno)
      (before : markOf p.state = some m) (after : markOf q.state = none) :
      Shape p available (.go q [.data m])
  | emptyValue (q : HttpParser) (errno : q.httpErrno = p.httpErrno)
      (outside : inBody p.state = false) (before : markOf p.state = none)
      (after : markOf q.state = none) :
      Shape p available (.go q [.mark .headerValue, .data .headerValue])
  | complete (q : HttpParser) (errno : q.httpErrno = p.httpErrno)
      (outside : inBody p.state = false) (before : markOf p.state = none)
      (after : q.state = .startReq) :
      Shape p available (.go q [.messageComplete])
  | bodyPart (toRead : ℕ) (q : HttpParser) (errno : q.httpErrno = p.httpErrno)
      (counted : p.state = .bodyIdentity ∨ p.state = .chunkData) :
      Shape p available ⟨q, [.mark .body], toRead - 1, .next⟩
  | bodyEnd (toRead : ℕ) (q : HttpParser) (errno : q.httpErrno = p.httpErrno)
      (counted : p.state = .bodyIdentity ∨ p.state = .chunkData) :
      Shape p available ⟨q, [.mark .body, .dataThrough .body, .messageComplete], toRead - 1, .next⟩
  | bodyStop (q : HttpParser) (errno : q.httpErrno = p.httpErrno)
      (inside : inBody p.state = true) (outside : inBody q.state = false)
      (after : markOf q.state = none) :
      Shape p available (.go q [.data .body])
  | upgraded (q : HttpParser) (errno : q.httpErrno = p.httpErrno)
      (outside : inBody p.state = false) (before : markOf p.state = none)
      (after : q.state = .startReq) :
      Shape p available ⟨q, [.messageComplete], 0, .leave⟩
  | failed (q : HttpParser) (errno : HttpErrno) (error : errno ≠ .ok) :
      Shape p available (.fail q errno)
  | aborted (q : HttpParser) : Shape p available ⟨q, [], 0, .abort⟩

section Shapes

variable (p : HttpParser) (ch : UInt8) (available : ℕ)

attribute [local simp] inBody markOf inUrl parsingHeader

theorem startReq_shape (s : p.state = .startReq) : Shape p available (startReq p ch) := by
  unfold startReq
  split
  · exact .quiet _ rfl (by simp [s, inBody]) rfl
  · dsimp only
    split
    · exact .failed _ _ (by decide)
    · split
      · exact .failed _ _ (by decide)
      · exact .quiet _ rfl (by simp [s, inBody]) (by simp [s, markOf, inUrl])

theorem reqMethod_shape (s : p.state = .reqMethod) : Shape p available (reqMethod p ch) := by
  unfold reqMethod
  split
  · exact .failed _ _ (by decide)
  · split
    · exact .quiet _ rfl (by simp [s, inBody]) (by simp [s, markOf, inUrl])
    · split
      · exact .quiet _ rfl (by simp [s, inBody]) (by simp [s])
      · split
        · rename_i invalid _
          exact .failed _ _ (by cases invalid <;> decide)
        · exact .quiet _ rfl (by simp [s, inBody]) (by simp [s])

theorem urlChar_inUrl (s : ParserState) (url : inUrl s = true ∨ s = .reqSpacesBeforeUrl)
    (alive : parseUrlChar s ch ≠ .dead) : inUrl (parseUrlChar s ch) = true := by
  revert alive
  unfold parseUrlChar
  split
  · exact fun dead => absurd rfl dead
  · rcases url with url | rfl
    · cases s <;> simp only [inUrl, Bool.false_eq_true] at url <;> dsimp only <;>
        (repeat' split) <;> first | exact fun _ => rfl | exact fun dead => absurd rfl dead
    · dsimp only
      (repeat' split) <;> first | exact fun _ => rfl | exact fun dead => absurd rfl dead

theorem markOf_inUrl {s : ParserState} (url : inUrl s = true) : markOf s = some .url := by
  cases s <;> simp_all [inUrl, markOf]

theorem urlChar_quiet (s : inUrl p.state = true) : Shape p available (urlChar p p.state ch []) := by
  unfold urlChar
  dsimp only
  split
  · exact .failed _ _ (by decide)
  · rename_i alive
    refine .quiet _ rfl ?_ ?_
    · revert s
      cases p.state <;> simp [inUrl, inBody]
    · rw [markOf_inUrl s, markOf_inUrl (urlChar_inUrl ch _ (Or.inl s) alive)]

theorem reqSpacesBeforeUrl_shape (s : p.state = .reqSpacesBeforeUrl) :
    Shape p available (reqSpacesBeforeUrl p ch) := by
  unfold reqSpacesBeforeUrl
  split
  · exact .quiet _ rfl (by simp [s, inBody]) rfl
  · have entry : inUrl (if p.method = .connect then .reqServerStart else p.state) = true ∨
        (if p.method = .connect then .reqServerStart else p.state) = .reqSpacesBeforeUrl := by
      split
      · exact Or.inl rfl
      · exact Or.inr s
    revert entry
    generalize (if p.method = .connect then .reqServerStart else p.state) = from_
    intro entry
    unfold urlChar
    dsimp only
    split
    · exact .failed _ _ (by decide)
    · rename_i alive
      exact .start .url _ rfl (by simp [s, inBody]) (by simp [s, parsingHeader])
        (by simp [s, markOf, inUrl])
        (markOf_inUrl (urlChar_inUrl ch _ entry alive))

theorem reqSchema_shape (s : inUrl p.state = true) : Shape p available (reqSchema p ch) := by
  unfold reqSchema
  split
  · exact .failed _ _ (by decide)
  · exact urlChar_quiet p ch available s

theorem reqUrl_shape (s : inUrl p.state = true) : Shape p available (reqUrl p ch) := by
  unfold reqUrl
  split
  · exact .stop .url _ rfl (markOf_inUrl s) (by simp [markOf, inUrl])
  · split
    · refine .stop .url _ rfl (markOf_inUrl s) ?_
      dsimp only
      split <;> simp [markOf, inUrl]
    · exact urlChar_quiet p ch available s

theorem reqHttpStart_shape (s : p.state = .reqHttpStart) :
    Shape p available (reqHttpStart p ch) := by
  unfold reqHttpStart
  split
  · exact .quiet _ rfl (by simp [s, inBody]) (by simp [s, markOf, inUrl])
  · split
    · exact .quiet _ rfl (by simp [s, inBody]) rfl
    · exact .failed _ _ (by decide)

theorem reqFirstHttpMajor_shape (s : p.state = .reqFirstHttpMajor) :
    Shape p available (reqFirstHttpMajor p ch) := by
  unfold reqFirstHttpMajor
  split
  · exact .failed _ _ (by decide)
  · exact .quiet _ rfl (by simp [s, inBody]) (by simp [s, markOf, inUrl])

theorem reqHttpMajor_shape (s : p.state = .reqHttpMajor) :
    Shape p available (reqHttpMajor p ch) := by
  unfold reqHttpMajor
  split
  · exact .quiet _ rfl (by simp [s, inBody]) (by simp [s, markOf, inUrl])
  · split
    · exact .failed _ _ (by decide)
    · dsimp only
      split
      · exact .failed _ _ (by decide)
      · exact .quiet _ rfl (by simp [s, inBody]) (by simp [s])

theorem reqFirstHttpMinor_shape (s : p.state = .reqFirstHttpMinor) :
    Shape p available (reqFirstHttpMinor p ch) := by
  unfold reqFirstHttpMinor
  split
  · exact .failed _ _ (by decide)
  · exact .quiet _ rfl (by simp [s, inBody]) (by simp [s, markOf, inUrl])

theorem reqHttpMinor_shape (s : p.state = .reqHttpMinor) :
    Shape p available (reqHttpMinor p ch) := by
  unfold reqHttpMinor
  split
  · exact .quiet _ rfl (by simp [s, inBody]) (by simp [s, markOf, inUrl])
  · split
    · exact .quiet _ rfl (by simp [s, inBody]) (by simp [s, markOf, inUrl])
    · split
      · exact .failed _ _ (by decide)
      · dsimp only
        split
        · exact .failed _ _ (by decide)
        · exact .quiet _ rfl (by simp [s, inBody]) (by simp [s])

theorem reqLineAlmostDone_shape (s : p.state = .reqLineAlmostDone) :
    Shape p available (reqLineAlmostDone p ch) := by
  unfold reqLineAlmostDone
  split
  · exact .failed _ _ (by decide)
  · exact .quiet _ rfl (by simp [s, inBody]) (by simp [s, markOf, inUrl])

theorem headersDone_shape (q : HttpParser) (errno : q.httpErrno = p.httpErrno)
    (outside : inBody p.state = false) (before : markOf p.state = none) :
    Shape p available (headersDone q) := by
  unfold headersDone
  dsimp only
  split
  · exact .upgraded _ errno outside before rfl
  · split
    · exact .complete _ errno outside before rfl
    · split
      · exact .quiet _ errno outside (by rw [before]; simp [markOf, inUrl])
      · split
        · exact .complete _ errno outside before rfl
        · split
          · exact .quiet _ errno outside (by rw [before]; simp [markOf, inUrl])
          · exact .complete _ errno outside before rfl

theorem headersAlmostDone_shape (q : HttpParser) (errno : q.httpErrno = p.httpErrno)
    (outside : inBody p.state = false) (before : markOf p.state = none) :
    Shape p available (headersAlmostDone q) := by
  unfold headersAlmostDone
  split
  · exact .complete _ errno outside before rfl
  · exact headersDone_shape p available _ errno outside before

theorem headerFieldStart_shape (q : HttpParser) (errno : q.httpErrno = p.httpErrno)
    (outside : inBody p.state = false) (header : parsingHeader p.state = true)
    (before : markOf p.state = none) :
    Shape p available (headerFieldStart q ch) := by
  unfold headerFieldStart
  split
  · exact .quiet _ errno outside (by rw [before]; simp [markOf, inUrl])
  · split
    · exact headersAlmostDone_shape p available _ errno outside before
    · split
      · exact .failed _ _ (by decide)
      · exact .start .headerField _ errno outside header before (by simp [markOf])

theorem headerField_shape (s : p.state = .headerField) :
    Shape p available (headerField p ch) := by
  have before : markOf p.state = some .headerField := by simp [s, markOf]
  unfold headerField
  split
  · split
    · exact .aborted _
    · exact .quiet _ rfl (by simp [s, inBody]) (by simp [s])
  · split
    · exact .stop .headerField _ rfl before (by simp [markOf, inUrl])
    · split
      · exact .stop .headerField _ rfl before (by simp [markOf, inUrl])
      · split
        · exact .stop .headerField _ rfl before (by simp [markOf, inUrl])
        · exact .failed _ _ (by decide)

theorem headerValueStart_shape (s : p.state = .headerValueStart) :
    Shape p available (headerValueStart p ch) := by
  have before : markOf p.state = none := by simp [s, markOf, inUrl]
  have outside : inBody p.state = false := by simp [s, inBody]
  have header : parsingHeader p.state = true := by simp [s, parsingHeader]
  unfold headerValueStart
  split
  · exact .quiet _ rfl outside rfl
  · dsimp only
    split
    · exact .emptyValue _ rfl outside before (by simp [markOf, inUrl])
    · split
      · exact .emptyValue _ rfl outside before (by simp [markOf, inUrl])
      · split
        · exact .start .headerValue _ rfl outside header before (by simp [markOf])
        · exact .start .headerValue _ rfl outside header before (by simp [markOf])
        · split
          · exact .failed _ _ (by decide)
          · exact .start .headerValue _ rfl outside header before (by simp [markOf])
        · exact .start .headerValue _ rfl outside header before (by simp [markOf])
        · exact .start .headerValue _ rfl outside header before (by simp [markOf])

theorem headerValue_shape (s : p.state = .headerValue) :
    Shape p available (headerValue p ch) := by
  have before : markOf p.state = some .headerValue := by simp [s, markOf]
  have outside : inBody p.state = false := by simp [s, inBody]
  unfold headerValue
  split
  · exact .stop .headerValue _ rfl before (by simp [markOf, inUrl])
  · split
    · exact .stop .headerValue _ rfl before (by simp [headerAlmostDone, markOf, inUrl])
    · dsimp only
      split
      · exact .quiet _ rfl outside rfl
      · exact .aborted _
      · exact .aborted _
      · split
        · exact .quiet _ rfl outside rfl
        · split
          · exact .failed _ _ (by decide)
          · split
            · exact .failed _ _ (by decide)
            · exact .quiet _ rfl outside (by simp [s])
      · exact .quiet _ rfl outside (by simp [s])
      · exact .quiet _ rfl outside (by simp [s])
      · exact .quiet _ rfl outside (by simp [s])
      · exact .quiet _ rfl outside (by simp [s])
      · exact .quiet _ rfl outside (by simp [s])
      · exact .quiet _ rfl outside (by simp [s])
      · exact .quiet _ rfl outside (by simp [s])

theorem headerValueLws_shape (s : p.state = .headerValueLws) :
    Shape p available (headerValueLws p ch) := by
  have before : markOf p.state = none := by simp [s, markOf, inUrl]
  have outside : inBody p.state = false := by simp [s, inBody]
  unfold headerValueLws
  split
  · exact .quiet _ rfl outside (by simp [s, markOf, inUrl])
  · exact headerFieldStart_shape p ch available _ rfl outside (by simp [s, parsingHeader]) before

theorem check_shape {holds : Bool} {rest : Reaction} (shape : Shape p available rest) :
    Shape p available (.check holds p rest) := by
  unfold Reaction.check
  split
  · exact shape
  · exact .aborted _

theorem bodyIdentity_shape (s : p.state = .bodyIdentity) :
    Shape p available (bodyIdentity p available) := by
  refine check_shape p available ?_
  dsimp only
  split
  · exact .bodyEnd _ _ rfl (Or.inl s)
  · exact .bodyPart _ _ rfl (Or.inl s)

theorem chunkSizeStart_shape (s : p.state = .chunkSizeStart) :
    Shape p available (chunkSizeStart p ch) := by
  refine check_shape p available ?_
  split
  · exact .failed _ _ (by decide)
  · exact .quiet _ rfl (by simp [s, inBody]) (by simp [s, markOf, inUrl])

theorem chunkSize_shape (s : p.state = .chunkSize) : Shape p available (chunkSize p ch) := by
  have outside : inBody p.state = false := by simp [s, inBody]
  refine check_shape p available ?_
  split
  · exact .quiet _ rfl outside (by simp [s, markOf, inUrl])
  · split
    · split
      · exact .quiet _ rfl outside (by simp [s, markOf, inUrl])
      · exact .failed _ _ (by decide)
    · split
      · exact .failed _ _ (by decide)
      · exact .quiet _ rfl outside (by simp [s])

theorem chunkParameters_shape (s : p.state = .chunkParameters) :
    Shape p available (chunkParameters p ch) := by
  have outside : inBody p.state = false := by simp [s, inBody]
  refine check_shape p available ?_
  split
  · exact .quiet _ rfl outside (by simp [s, markOf, inUrl])
  · exact .quiet _ rfl outside rfl

theorem chunkSizeAlmostDone_shape (s : p.state = .chunkSizeAlmostDone) :
    Shape p available (chunkSizeAlmostDone p) := by
  have outside : inBody p.state = false := by simp [s, inBody]
  refine check_shape p available ?_
  dsimp only
  split
  · exact .quiet _ rfl outside (by simp [s, markOf, inUrl])
  · exact .quiet _ rfl outside (by simp [s, markOf, inUrl])

theorem chunkData_shape (s : p.state = .chunkData) :
    Shape p available (chunkData p available) := by
  refine check_shape p available ?_
  dsimp only
  split
  · exact .bodyPart _ _ rfl (Or.inr s)
  · exact .bodyPart _ _ rfl (Or.inr s)

theorem chunkDataAlmostDone_shape (s : p.state = .chunkDataAlmostDone) :
    Shape p available (chunkDataAlmostDone p) := by
  have inside : inBody p.state = true := by simp [s, inBody]
  exact check_shape p available (.bodyStop _ rfl inside rfl (by simp [markOf, inUrl]))

theorem chunkDataDone_shape (s : p.state = .chunkDataDone) :
    Shape p available (chunkDataDone p) :=
  check_shape p available (.quiet _ rfl (by simp [s, inBody]) (by simp [s, markOf, inUrl]))

end Shapes

theorem executeByte_shape (p : HttpParser) (ch : UInt8) (available : ℕ) :
    Shape p available (executeByte p ch available) := by
  unfold executeByte
  cases s : p.state with
  | dead =>
      dsimp only
      split
      · exact .quiet _ rfl (by simp [s, inBody]) rfl
      · exact .failed _ _ (by decide)
  | startReq =>
      exact startReq_shape p ch available s
  | reqMethod =>
      exact reqMethod_shape p ch available s
  | reqSpacesBeforeUrl =>
      exact reqSpacesBeforeUrl_shape p ch available s
  | reqSchema =>
      exact reqSchema_shape p ch available (by simp [s, inUrl])
  | reqSchemaSlash =>
      exact reqSchema_shape p ch available (by simp [s, inUrl])
  | reqSchemaSlashSlash =>
      exact reqSchema_shape p ch available (by simp [s, inUrl])
  | reqServerStart =>
      exact reqSchema_shape p ch available (by simp [s, inUrl])
  | reqServer =>
      exact reqUrl_shape p ch available (by simp [s, inUrl])
  | reqServerWithAt =>
      exact reqUrl_shape p ch available (by simp [s, inUrl])
  | reqPath =>
      exact reqUrl_shape p ch available (by simp [s, inUrl])
  | reqQueryStringStart =>
      exact reqUrl_shape p ch available (by simp [s, inUrl])
  | reqQueryString =>
      exact reqUrl_shape p ch available (by simp [s, inUrl])
  | reqFragmentStart =>
      exact reqUrl_shape p ch available (by simp [s, inUrl])
  | reqFragment =>
      exact reqUrl_shape p ch available (by simp [s, inUrl])
  | reqHttpStart =>
      exact reqHttpStart_shape p ch available s
  | reqHttpH =>
      exact .quiet _ rfl (by simp [s, inBody]) (by simp [s, markOf, inUrl])
  | reqHttpHT =>
      exact .quiet _ rfl (by simp [s, inBody]) (by simp [s, markOf, inUrl])
  | reqHttpHTT =>
      exact .quiet _ rfl (by simp [s, inBody]) (by simp [s, markOf, inUrl])
  | reqHttpHTTP =>
      exact .quiet _ rfl (by simp [s, inBody]) (by simp [s, markOf, inUrl])
  | reqFirstHttpMajor =>
      exact reqFirstHttpMajor_shape p ch available s
  | reqHttpMajor =>
      exact reqHttpMajor_shape p ch available s
  | reqFirstHttpMinor =>
      exact reqFirstHttpMinor_shape p ch available s
  | reqHttpMinor =>
      exact reqHttpMinor_shape p ch available s
  | reqLineAlmostDone =>
      exact reqLineAlmostDone_shape p ch available s
  | headerFieldStart =>
      exact headerFieldStart_shape p ch available p rfl (by simp [s, inBody])
        (by simp [s, parsingHeader]) (by simp [s, markOf, inUrl])
  | headerField =>
      exact headerField_shape p ch available s
  | headerValueStart =>
      exact headerValueStart_shape p ch available s
  | headerValue =>
      exact headerValue_shape p ch available s
  | headerValueLws =>
      exact headerValueLws_shape p ch available s
  | headerAlmostDone =>
      exact .quiet _ rfl (by simp [s, inBody]) (by simp [s, headerAlmostDone, markOf, inUrl])
  | headersAlmostDone =>
      exact headersAlmostDone_shape p available p rfl (by simp [s, inBody])
        (by simp [s, markOf, inUrl])
  | headersDone =>
      exact headersDone_shape p available p rfl (by simp [s, inBody]) (by simp [s, markOf, inUrl])
  | chunkSizeStart =>
      exact chunkSizeStart_shape p ch available s
  | chunkSize =>
      exact chunkSize_shape p ch available s
  | chunkParameters =>
      exact chunkParameters_shape p ch available s
  | chunkSizeAlmostDone =>
      exact chunkSizeAlmostDone_shape p available s
  | chunkData =>
      exact chunkData_shape p available s
  | chunkDataAlmostDone =>
      exact chunkDataAlmostDone_shape p available s
  | chunkDataDone =>
      exact chunkDataDone_shape p available s
  | bodyIdentity =>
      exact bodyIdentity_shape p available s
  | messageDone =>
      exact .complete _ rfl (by simp [s, inBody]) (by simp [s, markOf, inUrl]) rfl

theorem Shape.transfer {p q : HttpParser} {available : ℕ} {r : Reaction}
    (state : q.state = p.state) (same : q.httpErrno = p.httpErrno) (shape : Shape q available r) :
    Shape p available r := by
  cases shape with
  | quiet t errno outside unmoved =>
      exact .quiet t (errno.trans same) (state ▸ outside) (state ▸ unmoved)
  | start m t errno outside header before after =>
      exact .start m t (errno.trans same) (state ▸ outside) (state ▸ header) (state ▸ before) after
  | stop m t errno before after => exact .stop m t (errno.trans same) (state ▸ before) after
  | emptyValue t errno outside before after =>
      exact .emptyValue t (errno.trans same) (state ▸ outside) (state ▸ before) after
  | complete t errno outside before after =>
      exact .complete t (errno.trans same) (state ▸ outside) (state ▸ before) after
  | bodyPart toRead t errno counted =>
      exact .bodyPart toRead t (errno.trans same) (state ▸ counted)
  | bodyEnd toRead t errno counted => exact .bodyEnd toRead t (errno.trans same) (state ▸ counted)
  | bodyStop t errno inside outside after =>
      exact .bodyStop t (errno.trans same) (state ▸ inside) outside after
  | upgraded t errno outside before after =>
      exact .upgraded t (errno.trans same) (state ▸ outside) (state ▸ before) after
  | failed t errno error => exact .failed t errno error
  | aborted t => exact .aborted t

theorem round_shape (p : HttpParser) (ch : UInt8) (available : ℕ) :
    Shape p available (round p ch available) := by
  unfold round
  split
  · dsimp only
    split
    · exact .failed _ _ (by decide)
    · have counted := executeByte_shape { p with nread := p.nread + 1 } ch available
      refine Shape.transfer ?_ ?_ counted <;> rfl
  · exact executeByte_shape p ch available

/-! ## Reading byte by byte -/

/-- What the rounds of the parser come to: the segment ends, the parser leaves an
upgraded message with bytes to spare, an error, or a failed assertion. -/
inductive Reading (ρ : Type) where
  | ended (p : HttpParser) (user : ρ)
  | left (p : HttpParser) (user : ρ) (rest : Bytes)
  | failed (p : HttpParser)
  | aborted

/-- The value behind the callbacks after one byte that is handed over at once. -/
def absorb (settings : ParserSettings ρ) (s : ParserState) (method : HttpMethod) (ch : UInt8)
    (user : ρ) : List Action → ρ
  | [] =>
      match markOf s with
      | some m => settings.onData m user [ch]
      | none => user
  | [.mark m] => settings.onData m user [ch]
  | [.mark m, .data _] => settings.onData m user []
  | [.messageComplete] => settings.onMessageComplete user method
  | [.mark m, .dataThrough _, .messageComplete] =>
      settings.onMessageComplete (settings.onData m user [ch]) method
  | _ => user

def read (settings : ParserSettings ρ) : Bytes → HttpParser → ρ → Reading ρ
  | [], p, user => .ended p user
  | ch :: rest, p, user =>
      let reaction := round p ch 1
      let user := absorb settings p.state reaction.parser.method ch user reaction.actions
      match reaction.flow with
      | .abort => .aborted
      | .leave =>
          if reaction.parser.httpErrno = .ok then .left reaction.parser user rest
          else .failed reaction.parser
      | .next => read settings rest reaction.parser user

def Reading.andThen (next : HttpParser → ρ → Reading ρ) (more : Bytes) : Reading ρ → Reading ρ
  | .ended p user => next p user
  | .left p user rest => .left p user (rest ++ more)
  | .failed p => .failed p
  | .aborted => .aborted

theorem read_append (settings : ParserSettings ρ) (first second : Bytes) :
    ∀ p user, read settings (first ++ second) p user =
      (read settings first p user).andThen (read settings second) second := by
  induction first with
  | nil => intro p user; rfl
  | cons ch rest ih =>
      intro p user
      simp only [List.cons_append, read]
      cases (round p ch 1).flow with
      | next => exact ih _ _
      | abort => rfl
      | leave =>
          dsimp only
          split <;> rfl

theorem read_left (settings : ParserSettings ρ) (rest : Bytes) :
    ∀ (data : Bytes) (p : HttpParser) (user : ρ) (q : HttpParser) (final : ρ),
      read settings data p user = .left q final rest →
        ∃ front, data = front ++ rest ∧ front ≠ [] ∧
          read settings front p user = .left q final [] := by
  intro data
  induction data with
  | nil => intro p user q final done; simp [read] at done
  | cons ch tail ih =>
      intro p user q final done
      simp only [read] at done ⊢
      cases flow : (round p ch 1).flow with
      | abort => simp [flow] at done
      | leave =>
          simp only [flow] at done
          split at done
          · rename_i ok
            cases done
            exact ⟨[ch], rfl, by simp, by simp [read, flow, ok]⟩
          · simp at done
      | next =>
          simp only [flow] at done
          obtain ⟨front, split, _, front_reads⟩ := ih _ _ q final done
          exact ⟨ch :: front, by simp [split], by simp, by simpa [read, flow] using front_reads⟩

/-- The bytes of the request head satisfy `text`. -/
def HeadText (text : UInt8 → Prop) : Bytes → HttpParser → Prop
  | [], _ => True
  | ch :: rest, p =>
      (parsingHeader p.state = true → text ch) ∧
        ((round p ch 1).flow = .next → HeadText text rest (round p ch 1).parser)

/-- A callback handed a text in two parts does what it does with the whole,
as long as the bytes of a head text satisfy `text`. -/
structure Additive (settings : ParserSettings ρ) (text : UInt8 → Prop) : Prop where
  head : ∀ m user first second, (∀ c ∈ first, text c) →
    settings.onData m (settings.onData m user first) second =
      settings.onData m user (first ++ second)
  body : ∀ user first second,
    settings.onData .body (settings.onData .body user first) second =
      settings.onData .body user (first ++ second)

/-! ## Marks -/

def clear : Mark → Option Bytes := fun _ => none

def only (m : Mark) (text : Bytes) : Mark → Option Bytes := Function.update clear m (some text)

theorem only_self (m : Mark) (text : Bytes) : only m text m = some text := by simp [only]

theorem advance_clear (user : ρ) (taken : Bytes) :
    Loop.advance taken ⟨user, clear⟩ = ⟨user, clear⟩ := rfl

theorem advance_only (user : ρ) (m : Mark) (text taken : Bytes) :
    Loop.advance taken ⟨user, only m text⟩ = ⟨user, only m (text ++ taken)⟩ := by
  simp only [Loop.advance, Loop.mk.injEq, true_and]
  funext k
  by_cases same : k = m
  · subst same
    simp [only]
  · simp [only, clear, same]

section Marks

variable (settings : ParserSettings ρ) (method : HttpMethod) (taken : Bytes) (user : ρ) (m : Mark)
  (text : Bytes)

theorem act_mark_clear :
    Loop.act settings method taken ⟨user, clear⟩ (.mark m) = ⟨user, only m []⟩ := rfl

theorem act_mark_only :
    Loop.act settings method taken ⟨user, only m text⟩ (.mark m) = ⟨user, only m text⟩ := by
  simp [Loop.act, only]

theorem callback_clear : Loop.callback settings m taken ⟨user, clear⟩ = ⟨user, clear⟩ := rfl

theorem callback_only :
    Loop.callback settings m taken ⟨user, only m text⟩ =
      ⟨settings.onData m user (text ++ taken), clear⟩ := by
  simp only [Loop.callback, only_self, Loop.mk.injEq, true_and]
  funext k
  by_cases same : k = m
  · subst same
    simp [clear]
  · simp [only, clear, same]

theorem callback_other {k : Mark} (different : k ≠ m) :
    Loop.callback settings k taken ⟨user, only m text⟩ = ⟨user, only m text⟩ := by
  simp [Loop.callback, only, clear, different]

theorem finish_clear : Loop.finish settings ⟨user, clear⟩ = some user := rfl

theorem finish_only :
    Loop.finish settings ⟨user, only m text⟩ = some (settings.onData m user text) := by
  unfold Loop.finish
  have single : ([Mark.headerField, .headerValue, .url, .body].filter fun k =>
      (only m text k).isSome).length ≤ 1 := by
    cases m <;> simp [only, clear, Function.update]
  rw [if_pos single]
  cases m <;>
    simp [callback_only, callback_clear, callback_other]

end Marks

/-- Every byte read so far has reached its callback, or stands behind the one mark
the state keeps. -/
def Shows (settings : ParserSettings ρ) (text : UInt8 → Prop) (s : ParserState) (l : Loop ρ)
    (user : ρ) : Prop :=
  match markOf s with
  | some m => ∃ t, l.marks = only m t ∧ (∀ c ∈ t, text c) ∧ user = settings.onData m l.user t
  | none =>
      (l.marks = clear ∧ user = l.user) ∨
        (inBody s = true ∧ ∃ t, l.marks = only .body t ∧ user = settings.onData .body l.user t)

/-- After a segment the value is as if the pending text had been delivered, and
delivering nothing more leaves it there. -/
def Resumes (settings : ParserSettings ρ) (s : ParserState) (user : ρ) : Prop :=
  ∀ m, markOf s = some m → settings.onData m user [] = user

def Agrees (settings : ParserSettings ρ) (out : Option (HttpParser × ρ)) : Reading ρ → Prop
  | .ended p user => out = some (p, user) ∧ p.httpErrno = .ok ∧ Resumes settings p.state user
  | .left p user _ => out = some (p, user) ∧ p.httpErrno = .ok ∧ p.state = .startReq
  | .failed p => ∃ user, out = some (p, user) ∧ p.httpErrno ≠ .ok
  | .aborted => out = none

/-! ## Bodies are taken in one go -/

theorem round_available (p : HttpParser) (ch : UInt8) (a b : ℕ) (identity : p.state ≠ .bodyIdentity)
    (chunk : p.state ≠ .chunkData) : round p ch a = round p ch b := by
  unfold round executeByte
  cases s : p.state <;> first | rfl | exact absurd s identity | exact absurd s chunk

/-- A state that counts `contentLength` down: `fin` and `actions` are what it does
with the last byte. -/
structure CountsDown (p fin : HttpParser) (actions : List Action) : Prop where
  last : ∀ ch n a, 0 < n → n < ullongMax → n ≤ a →
    round { p with contentLength := n } ch a = ⟨fin, actions, n - 1, .next⟩
  more : ∀ ch n a, 0 < a → n < ullongMax → a < n →
    round { p with contentLength := n } ch a =
      ⟨{ p with contentLength := n - a }, [.mark .body], a - 1, .next⟩

theorem bodyIdentity_countsDown (p : HttpParser) (s : p.state = .bodyIdentity) :
    CountsDown p { p with contentLength := 0, state := .startReq }
      [.mark .body, .dataThrough .body, .messageComplete] where
  last := by
    intro ch n a positive bounded enough
    have taken : min n a = n := Nat.min_eq_left enough
    have nonzero : n ≠ 0 := by omega
    simp [round, executeByte, s, parsingHeader, bodyIdentity, Reaction.check, nonzero, bounded, taken]
  more := by
    intro ch n a positive bounded short
    have taken : min n a = a := Nat.min_eq_right (by omega)
    have nonzero : n ≠ 0 := by omega
    have remains : n - a ≠ 0 := by omega
    simp [round, executeByte, s, parsingHeader, bodyIdentity, Reaction.check, nonzero, bounded,
      taken, remains]

theorem chunkData_countsDown (p : HttpParser) (s : p.state = .chunkData)
    (chunked : p.flags.chunked = true) :
    CountsDown p { p with contentLength := 0, state := .chunkDataAlmostDone } [.mark .body] where
  last := by
    intro ch n a positive bounded enough
    have taken : min n a = n := Nat.min_eq_left enough
    have nonzero : n ≠ 0 := by omega
    simp [round, executeByte, s, parsingHeader, chunkData, Reaction.check, nonzero, bounded, taken,
      chunked]
  more := by
    intro ch n a positive bounded short
    have taken : min n a = a := Nat.min_eq_right (by omega)
    have nonzero : n ≠ 0 := by omega
    have remains : n - a ≠ 0 := by omega
    simp [round, executeByte, s, parsingHeader, chunkData, Reaction.check, nonzero, bounded, taken,
      remains, chunked]

/-- Reading a run of body bytes one by one is reading them in one go. -/
theorem read_countsDown {settings : ParserSettings ρ} {text : UInt8 → Prop}
    (additive : Additive settings text) {p fin : HttpParser} {actions : List Action}
    (counts : CountsDown p fin actions) (finish : ρ → ρ)
    (absorbed : ∀ ch user, absorb settings p.state fin.method ch user actions =
      finish (settings.onData .body user [ch])) (rest : Bytes) :
    ∀ (taken : Bytes) (n : ℕ) (user : ρ), taken ≠ [] → taken.length ≤ n → n < ullongMax →
      read settings (taken ++ rest) { p with contentLength := n } user =
        if taken.length = n then read settings rest fin (finish (settings.onData .body user taken))
        else
          read settings rest { p with contentLength := n - taken.length }
            (settings.onData .body user taken) := by
  intro taken
  induction taken with
  | nil => intro n user nonempty; exact absurd rfl nonempty
  | cons ch tail ih =>
      intro n user _ enough bounded
      simp only [List.length_cons] at enough
      by_cases one : n = 1
      · subst one
        have empty : tail = [] := List.eq_nil_of_length_eq_zero (by omega)
        subst empty
        have last := counts.last ch 1 1 one_pos bounded le_rfl
        simp only [List.cons_append, List.nil_append, read, last, absorbed, List.length_singleton,
          if_true]
      · have more := counts.more ch n 1 one_pos bounded (by omega)
        simp only [List.cons_append, read, more, absorb]
        by_cases empty : tail = []
        · subst empty
          have short : ¬ 0 + 1 = n := by omega
          simp only [List.nil_append, List.length_cons, List.length_nil, if_neg short]
        · rw [ih (n - 1) _ empty (by omega) (by omega), additive.body]
          have same : tail.length = n - 1 ↔ tail.length + 1 = n := by omega
          simp only [List.length_cons, List.singleton_append, same, Nat.sub_sub, Nat.add_comm 1]

theorem headText_countsDown (text : UInt8 → Prop) {p fin : HttpParser} {actions : List Action}
    (counts : CountsDown p fin actions) (rest : Bytes) :
    ∀ (taken : Bytes) (n : ℕ), taken ≠ [] → taken.length ≤ n → n < ullongMax →
      HeadText text (taken ++ rest) { p with contentLength := n } →
        HeadText text rest
          (if taken.length = n then fin else { p with contentLength := n - taken.length }) := by
  intro taken
  induction taken with
  | nil => intro n nonempty; exact absurd rfl nonempty
  | cons ch tail ih =>
      intro n _ enough bounded holds
      simp only [List.length_cons] at enough ⊢
      by_cases one : n = 1
      · subst one
        have empty : tail = [] := List.eq_nil_of_length_eq_zero (by omega)
        subst empty
        have last := counts.last ch 1 1 one_pos bounded le_rfl
        simp only [List.cons_append, List.nil_append, HeadText, last, forall_const] at holds
        simpa using holds.2
      · have more := counts.more ch n 1 one_pos bounded (by omega)
        simp only [List.cons_append, HeadText, more, forall_const] at holds
        by_cases empty : tail = []
        · subst empty
          have short : ¬ 0 + 1 = n := by omega
          simpa only [List.nil_append, List.length_nil, if_neg short] using holds.2
        · have after := ih (n - 1) empty (by omega) (by omega) holds.2
          have same : tail.length = n - 1 ↔ tail.length + 1 = n := by omega
          simpa only [same, Nat.sub_sub, Nat.add_comm 1] using after

/-! ## A call reads its segment -/

theorem markOf_inBody {s : ParserState} (inside : inBody s = true) : markOf s = none := by
  cases s <;> simp_all [inBody, markOf, inUrl]

theorem shows_clear (settings : ParserSettings ρ) (text : UInt8 → Prop) {s : ParserState}
    (unmarked : markOf s = none) (user : ρ) : Shows settings text s ⟨user, clear⟩ user := by
  simp [Shows, unmarked]

theorem shows_unmarked {settings : ParserSettings ρ} {text : UInt8 → Prop} {s : ParserState}
    {l : Loop ρ} {user : ρ} (shows : Shows settings text s l user) (unmarked : markOf s = none)
    (outside : inBody s = false) : l = ⟨user, clear⟩ := by
  obtain ⟨behind, marks⟩ := l
  simp only [Shows, unmarked, outside, Bool.false_eq_true, false_and, or_false] at shows
  obtain ⟨rfl, rfl⟩ := shows
  rfl

theorem shows_finish {settings : ParserSettings ρ} {text : UInt8 → Prop}
    (additive : Additive settings text) {s : ParserState} {l : Loop ρ} {user : ρ}
    (shows : Shows settings text s l user) :
    l.finish settings = some user ∧ Resumes settings s user := by
  obtain ⟨behind, marks⟩ := l
  cases marked : markOf s with
  | some m =>
      simp only [Shows, marked] at shows
      obtain ⟨t, rfl, clean, rfl⟩ := shows
      refine ⟨finish_only settings behind m t, fun k same => ?_⟩
      cases Option.some.inj (marked.symm.trans same)
      rw [additive.head m behind t [] clean, List.append_nil]
  | none =>
      have resumes : Resumes settings s user := by
        intro m same
        rw [marked] at same
        cases same
      simp only [Shows, marked] at shows
      rcases shows with ⟨rfl, rfl⟩ | ⟨-, t, rfl, rfl⟩
      · exact ⟨finish_clear settings user, resumes⟩
      · exact ⟨finish_only settings behind .body t, resumes⟩

theorem shows_bodyMark {settings : ParserSettings ρ} {text : UInt8 → Prop}
    (additive : Additive settings text) {s : ParserState} (inside : inBody s = true) {l : Loop ρ}
    {user : ρ} (shows : Shows settings text s l user) (method : HttpMethod) (taken : Bytes) :
    ∃ behind t, (l.act settings method taken (.mark .body)) = ⟨behind, only .body t⟩ ∧
      settings.onData .body behind (t ++ taken) = settings.onData .body user taken := by
  obtain ⟨behind, marks⟩ := l
  simp only [Shows, markOf_inBody inside] at shows
  rcases shows with ⟨rfl, rfl⟩ | ⟨-, t, rfl, rfl⟩
  · exact ⟨user, [], act_mark_clear settings method taken user .body, rfl⟩
  · exact ⟨behind, t, act_mark_only settings method taken behind .body t,
      (additive.body behind t taken).symm⟩

section Loops

variable {settings : ParserSettings ρ} {text : UInt8 → Prop} {fuel : ℕ}

/-- The claim about a call, for segments that `fuel` rounds can take. -/
def LoopAgrees (settings : ParserSettings ρ) (text : UInt8 → Prop) (fuel : ℕ) : Prop :=
  ∀ (data : Bytes) (p : HttpParser) (l : Loop ρ) (user : ρ), data.length ≤ fuel →
    p.httpErrno = .ok → Shows settings text p.state l user → HeadText text data p →
      Agrees settings (executeLoop settings fuel data p l) (read settings data p user)

theorem countsDown_agrees (additive : Additive settings text) (ih : LoopAgrees settings text fuel)
    {p fin : HttpParser} {actions : List Action} (counts : CountsDown p fin actions)
    (inside : inBody p.state = true) (ok : p.httpErrno = .ok) (finOk : fin.httpErrno = .ok)
    (positive : 0 < p.contentLength) (bounded : p.contentLength < ullongMax) (finish : ρ → ρ)
    (absorbed : ∀ ch user, absorb settings p.state fin.method ch user actions =
      finish (settings.onData .body user [ch]))
    (lands : ∀ (l : Loop ρ) user taken, Shows settings text p.state l user →
      Shows settings text fin.state
        ((actions.foldl (Loop.act settings fin.method taken) l).advance taken)
        (finish (settings.onData .body user taken)))
    (ch : UInt8) (rest : Bytes) (l : Loop ρ) (user : ρ) (enough : (ch :: rest).length ≤ fuel + 1)
    (shows : Shows settings text p.state l user) (head : HeadText text (ch :: rest) p) :
    Agrees settings (executeLoop settings (fuel + 1) (ch :: rest) p l)
      (read settings (ch :: rest) p user) := by
  simp only [List.length_cons] at enough
  by_cases whole : p.contentLength ≤ rest.length + 1
  · have reaction : round p ch (rest.length + 1) = ⟨fin, actions, p.contentLength - 1, .next⟩ :=
      counts.last ch p.contentLength _ positive bounded whole
    have split : ch :: rest =
        (ch :: rest.take (p.contentLength - 1)) ++ rest.drop (p.contentLength - 1) := by
      rw [List.cons_append, List.take_append_drop]
    have size : (ch :: rest.take (p.contentLength - 1)).length = p.contentLength := by
      rw [List.length_cons, List.length_take]
      omega
    have reads := read_countsDown additive counts finish absorbed
      (rest.drop (p.contentLength - 1)) (ch :: rest.take (p.contentLength - 1)) p.contentLength user
      (List.cons_ne_nil _ _) (by omega) bounded
    have headRest := headText_countsDown text counts (rest.drop (p.contentLength - 1))
      (ch :: rest.take (p.contentLength - 1)) p.contentLength (List.cons_ne_nil _ _) (by omega)
      bounded (split ▸ head)
    rw [if_pos size] at reads headRest
    rw [← split] at reads
    have reads' : read settings (ch :: rest) p user = _ := reads
    rw [reads']
    simp only [executeLoop, reaction]
    refine ih _ _ _ _ ?_ finOk (lands l user _ shows) headRest
    rw [List.length_drop]
    omega
  · have reaction : round p ch (rest.length + 1) =
        ⟨{ p with contentLength := p.contentLength - (rest.length + 1) }, [.mark .body],
          rest.length, .next⟩ :=
      counts.more ch p.contentLength _ (by omega) bounded (by omega)
    have size : ¬ (ch :: rest).length = p.contentLength := by
      rw [List.length_cons]
      omega
    have reads := read_countsDown additive counts finish absorbed [] (ch :: rest) p.contentLength
      user (List.cons_ne_nil _ _) (by rw [List.length_cons]; omega) bounded
    have headRest := headText_countsDown text counts [] (ch :: rest) p.contentLength
      (List.cons_ne_nil _ _) (by rw [List.length_cons]; omega) bounded
      (by rw [List.append_nil]; exact head)
    rw [if_neg size] at reads headRest
    rw [List.append_nil] at reads
    have reads' : read settings (ch :: rest) p user = _ := reads
    rw [reads']
    simp only [executeLoop, reaction, List.take_length, List.drop_length, List.foldl_cons,
      List.foldl_nil, List.length_cons]
    obtain ⟨behind, t, marked, grown⟩ := shows_bodyMark additive inside shows p.method (ch :: rest)
    have shown : Shows settings text p.state ⟨behind, only .body (t ++ ch :: rest)⟩
        (settings.onData .body user (ch :: rest)) := by
      unfold Shows
      rw [markOf_inBody inside]
      exact Or.inr ⟨inside, _, rfl, grown.symm⟩
    obtain ⟨finished, resumes⟩ := shows_finish additive shown
    rw [marked, advance_only, finished]
    exact ⟨rfl, ok, resumes⟩

theorem bodyIdentity_agrees (additive : Additive settings text)
    (ih : LoopAgrees settings text fuel) {p : HttpParser} (s : p.state = .bodyIdentity)
    (ok : p.httpErrno = .ok) (ch : UInt8) (rest : Bytes) (l : Loop ρ) (user : ρ)
    (enough : (ch :: rest).length ≤ fuel + 1) (shows : Shows settings text p.state l user)
    (head : HeadText text (ch :: rest) p) :
    Agrees settings (executeLoop settings (fuel + 1) (ch :: rest) p l)
      (read settings (ch :: rest) p user) := by
  have inside : inBody p.state = true := by simp [s, inBody]
  by_cases valid : (p.contentLength ≠ 0 && p.contentLength < ullongMax) = true
  · have bounds : p.contentLength ≠ 0 ∧ p.contentLength < ullongMax := by simpa using valid
    refine countsDown_agrees additive ih (bodyIdentity_countsDown p s) inside ok ok (by omega)
      bounds.2 (fun user => settings.onMessageComplete user p.method) (fun _ _ => rfl) ?_ ch rest l
      user enough shows head
    intro l user taken shows
    obtain ⟨behind, t, marked, whole⟩ := shows_bodyMark additive inside shows p.method taken
    simp only [List.foldl_cons, List.foldl_nil, marked]
    simp only [Loop.act, callback_only, advance_clear, whole]
    exact shows_clear settings text (by simp [markOf, inUrl]) _
  · have aborts : ∀ a, round p ch a = ⟨p, [], 0, .abort⟩ := by
      intro a
      simp only [round, s, parsingHeader, Bool.false_eq_true, if_false, executeByte, bodyIdentity,
        Reaction.check, if_neg valid]
    simp [executeLoop, read, aborts, Agrees]

theorem chunkData_agrees (additive : Additive settings text)
    (ih : LoopAgrees settings text fuel) {p : HttpParser} (s : p.state = .chunkData)
    (ok : p.httpErrno = .ok) (ch : UInt8) (rest : Bytes) (l : Loop ρ) (user : ρ)
    (enough : (ch :: rest).length ≤ fuel + 1) (shows : Shows settings text p.state l user)
    (head : HeadText text (ch :: rest) p) :
    Agrees settings (executeLoop settings (fuel + 1) (ch :: rest) p l)
      (read settings (ch :: rest) p user) := by
  have inside : inBody p.state = true := by simp [s, inBody]
  by_cases valid : (p.flags.chunked && p.contentLength ≠ 0 && p.contentLength < ullongMax) = true
  · have bounds : (p.flags.chunked = true ∧ p.contentLength ≠ 0) ∧ p.contentLength < ullongMax := by
      simpa using valid
    refine countsDown_agrees additive ih (chunkData_countsDown p s bounds.1.1) inside ok ok
      (by omega) bounds.2 id (fun _ _ => rfl) ?_ ch rest l user enough shows head
    intro l user taken shows
    obtain ⟨behind, t, marked, whole⟩ := shows_bodyMark additive inside shows p.method taken
    simp only [List.foldl_cons, List.foldl_nil, marked, advance_only, id_eq]
    exact Or.inr ⟨rfl, _, rfl, whole.symm⟩
  · have aborts : ∀ a, round p ch a = ⟨p, [], 0, .abort⟩ := by
      intro a
      simp only [round, s, parsingHeader, Bool.false_eq_true, if_false, executeByte, chunkData,
        Reaction.check, if_neg valid]
    simp [executeLoop, read, aborts, Agrees]

theorem parsingHeader_of_outside {s : ParserState} {m : Mark} (marked : markOf s = some m) :
    parsingHeader s = true := by
  cases s <;> simp_all [markOf, inUrl, parsingHeader]

/-- A round outside the counted bodies takes one byte. -/
theorem single_agrees (additive : Additive settings text) (ih : LoopAgrees settings text fuel)
    {p : HttpParser} (identity : p.state ≠ .bodyIdentity) (chunk : p.state ≠ .chunkData)
    (ok : p.httpErrno = .ok) (ch : UInt8) (rest : Bytes) (l : Loop ρ) (user : ρ)
    (enough : (ch :: rest).length ≤ fuel + 1) (shows : Shows settings text p.state l user)
    (head : HeadText text (ch :: rest) p) :
    Agrees settings (executeLoop settings (fuel + 1) (ch :: rest) p l)
      (read settings (ch :: rest) p user) := by
  have short : rest.length ≤ fuel := by simpa using enough
  have shape := round_shape p ch 1
  simp only [HeadText] at head
  simp only [executeLoop, read, round_available p ch (rest.length + 1) 1 identity chunk]
  generalize round p ch 1 = reaction at shape head
  cases shape with
  | quiet q errno outside same =>
      simp only [Reaction.go, List.foldl_nil, List.take_zero, List.drop_zero, absorb] at head ⊢
      refine ih _ _ _ _ short (errno.trans ok) ?_ (head.2 trivial)
      cases marked : markOf p.state with
      | none =>
          rw [shows_unmarked shows marked outside, advance_clear]
          exact shows_clear settings text (same.trans marked) user
      | some m =>
          obtain ⟨behind, marks⟩ := l
          simp only [Shows, marked] at shows
          obtain ⟨t, rfl, clean, rfl⟩ := shows
          simp only [Shows, same, marked, advance_only]
          refine ⟨_, rfl, ?_, additive.head m behind t [ch] clean⟩
          intro c member
          rcases List.mem_append.mp member with old | new
          · exact clean c old
          · rw [List.mem_singleton.mp new]
            exact head.1 (parsingHeader_of_outside marked)
  | start m q errno outside header before after =>
      simp only [Reaction.go, List.take_zero, List.drop_zero, absorb] at head ⊢
      refine ih _ _ _ _ short (errno.trans ok) ?_ (head.2 trivial)
      rw [shows_unmarked shows before outside]
      simp only [List.foldl_cons, List.foldl_nil, act_mark_clear, advance_only, List.nil_append]
      simp only [Shows, after]
      refine ⟨_, rfl, ?_, rfl⟩
      intro c member
      rw [List.mem_singleton.mp member]
      exact head.1 header
  | stop m q errno before after =>
      simp only [Reaction.go, List.take_zero, List.drop_zero, absorb] at head ⊢
      refine ih _ _ _ _ short (errno.trans ok) ?_ (head.2 trivial)
      obtain ⟨behind, marks⟩ := l
      simp only [Shows, before] at shows
      obtain ⟨t, rfl, clean, rfl⟩ := shows
      simp only [List.foldl_cons, List.foldl_nil, Loop.act, callback_only, advance_clear,
        List.append_nil]
      exact shows_clear settings text after _
  | emptyValue q errno outside before after =>
      simp only [Reaction.go, List.take_zero, List.drop_zero, absorb] at head ⊢
      refine ih _ _ _ _ short (errno.trans ok) ?_ (head.2 trivial)
      rw [shows_unmarked shows before outside]
      simp only [List.foldl_cons, List.foldl_nil, act_mark_clear]
      simp only [Loop.act, callback_only, advance_clear, List.append_nil]
      exact shows_clear settings text after _
  | complete q errno outside before after =>
      simp only [Reaction.go, List.take_zero, List.drop_zero, absorb] at head ⊢
      refine ih _ _ _ _ short (errno.trans ok) ?_ (head.2 trivial)
      rw [shows_unmarked shows before outside]
      exact shows_clear settings text (by rw [after]; simp [markOf, inUrl]) _
  | bodyPart toRead q errno counted => exact absurd counted (not_or.mpr ⟨identity, chunk⟩)
  | bodyEnd toRead q errno counted => exact absurd counted (not_or.mpr ⟨identity, chunk⟩)
  | bodyStop q errno inside outside after =>
      simp only [Reaction.go, List.take_zero, List.drop_zero, absorb] at head ⊢
      refine ih _ _ _ _ short (errno.trans ok) ?_ (head.2 trivial)
      obtain ⟨behind, marks⟩ := l
      simp only [Shows, markOf_inBody inside] at shows
      rcases shows with ⟨rfl, rfl⟩ | ⟨-, t, rfl, rfl⟩
      · exact shows_clear settings text after user
      · simp only [List.foldl_cons, List.foldl_nil, Loop.act, callback_only, advance_clear,
          List.append_nil]
        exact shows_clear settings text after _
  | upgraded q errno outside before after =>
      have fine : q.httpErrno = .ok := errno.trans ok
      rw [shows_unmarked shows before outside]
      simp only [fine, if_true, absorb]
      exact ⟨rfl, fine, after⟩
  | failed q errno error =>
      simp only [Reaction.fail, error, if_false]
      exact ⟨_, rfl, error⟩
  | aborted q => rfl

theorem executeLoop_agrees (additive : Additive settings text) :
    LoopAgrees settings text fuel := by
  induction fuel with
  | zero =>
      intro data p l user enough ok shows _
      have empty : data = [] := List.eq_nil_of_length_eq_zero (Nat.le_zero.mp enough)
      subst empty
      obtain ⟨finished, resumes⟩ := shows_finish additive shows
      simp only [executeLoop, finished, read]
      exact ⟨rfl, ok, resumes⟩
  | succ fuel ih =>
      intro data p l user enough ok shows head
      cases data with
      | nil =>
          obtain ⟨finished, resumes⟩ := shows_finish additive shows
          simp only [executeLoop, finished, read]
          exact ⟨rfl, ok, resumes⟩
      | cons ch rest =>
          by_cases identity : p.state = .bodyIdentity
          · exact bodyIdentity_agrees additive ih identity ok ch rest l user enough shows head
          · by_cases chunk : p.state = .chunkData
            · exact chunkData_agrees additive ih chunk ok ch rest l user enough shows head
            · exact single_agrees additive ih identity chunk ok ch rest l user enough shows head

end Loops

theorem entryMarks_eq (s : ParserState) :
    entryMarks s = match markOf s with
      | some m => only m []
      | none => clear := by
  funext k
  cases s <;> cases k <;> rfl

theorem execute_agrees {settings : ParserSettings ρ} {text : UInt8 → Prop}
    (additive : Additive settings text) (p : HttpParser) (user : ρ) (data : Bytes)
    (ok : p.httpErrno = .ok) (nonempty : data ≠ []) (resumes : Resumes settings p.state user)
    (head : HeadText text data p) :
    Agrees settings (httpParserExecute settings p user data) (read settings data p user) := by
  have fine : ¬ p.httpErrno ≠ .ok := not_not.mpr ok
  simp only [httpParserExecute, if_neg fine, if_neg nonempty]
  refine executeLoop_agrees additive data p _ user le_rfl ok ?_ head
  rw [entryMarks_eq]
  cases marked : markOf p.state with
  | none => exact shows_clear settings text marked user
  | some m =>
      simp only [Shows, marked]
      exact ⟨[], rfl, by simp, (resumes m marked).symm⟩

/-! ## Successive calls -/

/-- `http_parser_execute` on one segment after the other. -/
def executeAll (settings : ParserSettings ρ) : HttpParser → ρ → List Bytes → Option (HttpParser × ρ)
  | p, user, [] => some (p, user)
  | p, user, data :: rest =>
      (httpParserExecute settings p user data).bind fun out => executeAll settings out.1 out.2 rest

theorem headText_append (settings : ParserSettings ρ) {text : UInt8 → Prop} (second : Bytes) :
    ∀ (first : Bytes) (p : HttpParser) (user : ρ), HeadText text (first ++ second) p →
      HeadText text first p ∧ ∀ q final, read settings first p user = .ended q final →
        HeadText text second q := by
  intro first
  induction first with
  | nil =>
      intro p user holds
      refine ⟨trivial, fun q final done => ?_⟩
      simp only [read, Reading.ended.injEq] at done
      rw [← done.1]
      exact holds
  | cons ch rest ih =>
      intro p user holds
      simp only [List.cons_append, HeadText] at holds ⊢
      refine ⟨⟨holds.1, fun next => (ih _ user (holds.2 next)).1⟩, fun q final done => ?_⟩
      simp only [read] at done
      cases flow : (round p ch 1).flow with
      | next =>
          rw [flow] at done
          exact (ih _ _ (holds.2 flow)).2 q final done
      | abort => simp [flow] at done
      | leave =>
          simp only [flow] at done
          split at done <;> simp at done

def Reading.Whole (r : Reading ρ) (p : HttpParser) (user : ρ) : Prop :=
  r = .ended p user ∨ r = .left p user []

/-- However the bytes are cut into segments, the calls end as the reading does. -/
theorem executeAll_reads {settings : ParserSettings ρ} {text : UInt8 → Prop}
    (additive : Additive settings text) (q : HttpParser) (final : ρ) :
    ∀ (segments : List Bytes) (p : HttpParser) (user : ρ), p.httpErrno = .ok →
      Resumes settings p.state user → (∀ s ∈ segments, s ≠ []) →
      HeadText text segments.flatten p → (read settings segments.flatten p user).Whole q final →
        executeAll settings p user segments = some (q, final) := by
  intro segments
  induction segments with
  | nil =>
      intro p user _ _ _ _ whole
      rcases whole with done | done
      · simp only [List.flatten_nil, read, Reading.ended.injEq] at done
        rw [executeAll, done.1, done.2]
      · simp [read] at done
  | cons data rest ih =>
      intro p user ok resumes nonempty head whole
      rw [List.flatten_cons] at head whole
      obtain ⟨headFirst, headRest⟩ := headText_append settings rest.flatten data p
        user head
      have agrees := execute_agrees additive p user data ok (nonempty data List.mem_cons_self)
        resumes headFirst
      have others : ∀ s ∈ rest, s ≠ [] := fun s member => nonempty s (List.mem_cons_of_mem _ member)
      rw [Reading.Whole, read_append] at whole
      simp only [executeAll]
      cases reading : read settings data p user with
      | ended next value =>
          rw [reading] at agrees whole
          obtain ⟨out, fine, resumed⟩ := agrees
          rw [out]
          exact ih next value fine resumed others (headRest next value reading) whole
      | left next value more =>
          rw [reading] at agrees whole
          simp only [Reading.andThen, reduceCtorEq, Reading.left.injEq, false_or,
            List.append_eq_nil_iff, List.flatten_eq_nil_iff] at whole
          obtain ⟨rfl, rfl, -, empty⟩ := whole
          have last : rest = [] := by
            cases rest with
            | nil => rfl
            | cons s _ => exact absurd (empty s List.mem_cons_self) (others s List.mem_cons_self)
          rw [agrees.1, last]
          rfl
      | failed next => simp [reading, Reading.andThen] at whole
      | aborted => simp [reading, Reading.andThen] at whole

section Maps

variable {settings : ParserSettings ρ} {image : ParserSettings σ} (f : ρ → σ)

/-- The callbacks of `image` do to `f user` what those of `settings` do to `user`. -/
structure Commutes (settings : ParserSettings ρ) (image : ParserSettings σ) (f : ρ → σ) : Prop where
  data : ∀ m user text, f (settings.onData m user text) = image.onData m (f user) text
  complete : ∀ user method,
    f (settings.onMessageComplete user method) = image.onMessageComplete (f user) method

def Loop.map (l : Loop ρ) : Loop σ := ⟨f l.user, l.marks⟩

theorem advance_map (taken : Bytes) (l : Loop ρ) :
    (l.map f).advance taken = (l.advance taken).map f := rfl

variable (commutes : Commutes settings image f)

include commutes

theorem callback_map (m : Mark) (through : Bytes) (l : Loop ρ) :
    (l.callback settings m through).map f = (l.map f).callback image m through := by
  simp only [Loop.callback, Loop.map]
  cases l.marks m with
  | none => rfl
  | some text => simp only [commutes.data]

theorem act_map (method : HttpMethod) (taken : Bytes) (l : Loop ρ) (action : Action) :
    (l.act settings method taken action).map f = (l.map f).act image method taken action := by
  cases action with
  | mark m =>
      simp only [Loop.act, Loop.map]
      cases l.marks m <;> rfl
  | data m => exact callback_map f commutes m [] l
  | dataThrough m => exact callback_map f commutes m taken l
  | messageComplete => simp only [Loop.act, Loop.map, commutes.complete]

theorem acts_map (method : HttpMethod) (taken : Bytes) (actions : List Action) :
    ∀ l : Loop ρ, (actions.foldl (Loop.act settings method taken) l).map f =
      actions.foldl (Loop.act image method taken) (l.map f) := by
  induction actions with
  | nil => intro l; rfl
  | cons action rest ih =>
      intro l
      rw [List.foldl_cons, List.foldl_cons, ih, act_map f commutes]

theorem finish_map (l : Loop ρ) : (l.map f).finish image = (l.finish settings).map f := by
  have marks : (l.map f).marks = l.marks := rfl
  simp only [Loop.finish, marks, ← callback_map f commutes]
  split <;> rfl

theorem executeLoop_map :
    ∀ (fuel : ℕ) (data : Bytes) (p : HttpParser) (l : Loop ρ),
      executeLoop image fuel data p (l.map f) =
        (executeLoop settings fuel data p l).map fun out => (out.1, f out.2) := by
  intro fuel
  induction fuel with
  | zero =>
      intro data p l
      cases data with
      | nil =>
          simp only [executeLoop, finish_map f commutes, Option.map_map]
          rfl
      | cons ch rest => rfl
  | succ fuel ih =>
      intro data p l
      cases data with
      | nil =>
          simp only [executeLoop, finish_map f commutes, Option.map_map]
          rfl
      | cons ch rest =>
          simp only [executeLoop, ← acts_map f commutes]
          cases (round p ch (rest.length + 1)).flow with
          | abort => rfl
          | leave => rfl
          | next =>
              dsimp only
              rw [advance_map, ih]

theorem execute_map (p : HttpParser) (user : ρ) (data : Bytes) :
    httpParserExecute image p (f user) data =
      (httpParserExecute settings p user data).map fun out => (out.1, f out.2) := by
  unfold httpParserExecute
  split
  · rfl
  · split
    · split <;> rfl
    · exact executeLoop_map f commutes _ _ _ ⟨user, entryMarks p.state⟩

theorem executeAll_map (segments : List Bytes) :
    ∀ (p : HttpParser) (user : ρ), executeAll image p (f user) segments =
      (executeAll settings p user segments).map fun out => (out.1, f out.2) := by
  induction segments with
  | nil => intro p user; rfl
  | cons data rest ih =>
      intro p user
      simp only [executeAll, execute_map f commutes]
      cases httpParserExecute settings p user data with
      | none => rfl
      | some out => exact ih out.1 out.2

end Maps

end AirCast.Http
