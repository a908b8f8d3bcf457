import AirCast.Http.HttpParserSegments

/-! # The request line under the parser

From a fresh parser a method and its spaces run no callback; the URL is marked
with its first byte and handed out at the space or line end behind it.  `glide`
follows the rounds that touch no mark. -/

set_option autoImplicit false

namespace AirCast.Http

variable {ρ : Type}

def glide : Bytes → HttpParser → Option HttpParser
  | [], p => some p
  | ch :: rest, p =>
      let reaction := round p ch 1
      if reaction.flow = .next ∧ reaction.actions = [] ∧ reaction.skip = 0 ∧ inBody p.state = false
      then glide rest reaction.parser
      else none

theorem glide_append (second : Bytes) :
    ∀ (first : Bytes) (p : HttpParser),
      glide (first ++ second) p = (glide first p).bind (glide second) := by
  intro first
  induction first with
  | nil => intro p; rfl
  | cons ch rest ih =>
      intro p
      simp only [List.cons_append, glide]
      split
      · exact ih _
      · rfl

theorem advance_nil (l : Loop ρ) : l.advance [] = l := by
  obtain ⟨user, marks⟩ := l
  simp only [Loop.advance, Loop.mk.injEq, true_and]
  funext m
  cases marks m <;> simp

theorem advance_advance (first second : Bytes) (l : Loop ρ) :
    (l.advance first).advance second = l.advance (first ++ second) := by
  obtain ⟨user, marks⟩ := l
  simp only [Loop.advance, Loop.mk.injEq, true_and]
  funext m
  cases marks m <;> simp

theorem round_one {p : HttpParser} (outside : inBody p.state = false) (ch : UInt8) (a : ℕ) :
    round p ch a = round p ch 1 := by
  apply round_available
  · intro s
    simp [s, inBody] at outside
  · intro s
    simp [s, inBody] at outside

theorem glide_loop (settings : ParserSettings ρ) (rest : Bytes) (fuel : ℕ) :
    ∀ (bytes : Bytes) (p q : HttpParser) (l : Loop ρ), glide bytes p = some q →
      executeLoop settings (bytes.length + fuel) (bytes ++ rest) p l =
        executeLoop settings fuel rest q (l.advance bytes) := by
  intro bytes
  induction bytes with
  | nil =>
      intro p q l glides
      cases Option.some.inj glides
      rw [advance_nil, List.length_nil, Nat.zero_add, List.nil_append]
  | cons ch tail ih =>
      intro p q l glides
      simp only [glide] at glides
      split at glides
      · rename_i quiet
        obtain ⟨flow, actions, skip, outside⟩ := quiet
        have size : (ch :: tail).length + fuel = (tail.length + fuel) + 1 := by
          rw [List.length_cons]
          omega
        rw [size, List.cons_append]
        simp only [executeLoop, round_one outside ch ((tail ++ rest).length + 1), flow, actions,
          skip, List.foldl_nil, List.take_zero, List.drop_zero]
        rw [ih _ q _ glides, advance_advance, List.singleton_append]
      · simp at glides

theorem not_whole_of_fail {settings : ParserSettings ρ} {p t q : HttpParser} {ch : UInt8}
    {rest : Bytes} {user final : ρ} {errno : HttpErrno} (error : errno ≠ .ok)
    (fails : round p ch 1 = .fail t errno) :
    ¬ (read settings (ch :: rest) p user).Whole q final := by
  simp [Reading.Whole, read, fails, Reaction.fail, error]

theorem read_go {settings : ParserSettings ρ} {p t : HttpParser} {ch : UInt8} {actions : List Action}
    (goes : round p ch 1 = .go t actions) (rest : Bytes) (user : ρ) :
    read settings (ch :: rest) p user =
      read settings rest t (absorb settings p.state t.method ch user actions) := by
  simp only [read, goes, Reaction.go]

theorem read_glide {settings : ParserSettings ρ} (rest : Bytes) :
    ∀ (bytes : Bytes) (p q : HttpParser) (user : ρ), glide bytes p = some q →
      ∃ user', read settings (bytes ++ rest) p user = read settings rest q user' := by
  intro bytes
  induction bytes with
  | nil =>
      intro p q user glides
      cases Option.some.inj glides
      exact ⟨user, rfl⟩
  | cons ch tail ih =>
      intro p q user glides
      simp only [glide] at glides
      split at glides
      · rename_i quiet
        simp only [List.cons_append, read, quiet.1]
        exact ih _ q _ glides
      · simp at glides

theorem round_header {settings : ParserSettings ρ} {p q : HttpParser} {ch : UInt8} {rest : Bytes}
    {user final : ρ} (header : parsingHeader p.state = true)
    (whole : (read settings (ch :: rest) p user).Whole q final) :
    round p ch 1 = executeByte { p with nread := p.nread + 1 } ch 1 := by
  have unfolded : round p ch 1 =
      if httpMaxHeaderSize < p.nread + 1 then
        .fail { p with nread := p.nread + 1 } .headerOverflow
      else executeByte { p with nread := p.nread + 1 } ch 1 := by
    simp only [round, header, if_true]
  by_cases long : httpMaxHeaderSize < p.nread + 1
  · rw [if_pos long] at unfolded
    exact absurd whole (not_whole_of_fail (by decide) unfolded)
  · rw [if_neg long] at unfolded
    exact unfolded

theorem method_glides (method : HttpMethod) :
    ∃ q, glide (method.str.chars ++ [sp]) httpParserInit = some q ∧ q.state = .reqSpacesBeforeUrl := by
  have glides : (glide (method.str.chars ++ [sp]) httpParserInit).map (·.state) =
      some .reqSpacesBeforeUrl := by
    cases method <;> decide
  obtain ⟨q, found, state⟩ := Option.map_eq_some_iff.mp glides
  exact ⟨q, found, state⟩

theorem spaces_glide {settings : ParserSettings ρ} {q : HttpParser} {final : ρ} (rest : Bytes) :
    ∀ (spaces : ℕ) (p : HttpParser) (user : ρ), p.state = .reqSpacesBeforeUrl →
      (read settings (List.replicate spaces sp ++ rest) p user).Whole q final →
        ∃ p', glide (List.replicate spaces sp) p = some p' ∧ p'.state = .reqSpacesBeforeUrl ∧
          (read settings rest p' user).Whole q final := by
  intro spaces
  induction spaces with
  | zero => intro p user state whole; exact ⟨p, rfl, state, whole⟩
  | succ spaces ih =>
      intro p user state whole
      rw [List.replicate_succ, List.cons_append] at whole
      have goes : round p sp 1 = .go { p with nread := p.nread + 1 } [] := by
        rw [round_header (by simp [state, parsingHeader]) whole]
        simp [executeByte, state, reqSpacesBeforeUrl]
      have absorbed : absorb settings p.state p.method sp user [] = user := by
        simp [absorb, state, markOf, inUrl]
      have outside : inBody p.state = false := by simp [state, inBody]
      rw [read_go goes, absorbed] at whole
      obtain ⟨p', glides, state', whole'⟩ := ih { p with nread := p.nread + 1 } user state whole
      refine ⟨p', ?_, state', whole'⟩
      rw [List.replicate_succ, glide, goes]
      simpa [Reaction.go, outside] using glides

def EndsUrl (c : UInt8) : Prop := c = sp ∨ c = cr ∨ c = lf

instance (c : UInt8) : Decidable (EndsUrl c) := inferInstanceAs (Decidable (_ ∨ _))

theorem parseUrlChar_zero (s : ParserState) : parseUrlChar s 0 = .dead := by
  cases s <;> decide

theorem urlChar_goes {settings : ParserSettings ρ} {p t q : HttpParser} {s : ParserState}
    {ch : UInt8} {rest : Bytes} {user final : ρ} {actions : List Action}
    (reacts : round p ch 1 = urlChar t s ch actions)
    (whole : (read settings (ch :: rest) p user).Whole q final) :
    parseUrlChar s ch ≠ .dead ∧ ch ≠ 0 ∧
      round p ch 1 = .go { t with state := parseUrlChar s ch } actions := by
  by_cases dead : parseUrlChar s ch = .dead
  · simp only [urlChar, dead, if_true] at reacts
    exact absurd whole (not_whole_of_fail (by decide) reacts)
  · refine ⟨dead, ?_, ?_⟩
    · rintro rfl
      exact dead (parseUrlChar_zero s)
    · simpa only [urlChar, dead, if_false] using reacts

theorem url_starts {settings : ParserSettings ρ} {p q : HttpParser} {ch : UInt8} {rest : Bytes}
    {user final : ρ} (state : p.state = .reqSpacesBeforeUrl) (inside : ¬ EndsUrl ch)
    (whole : (read settings (ch :: rest) p user).Whole q final) :
    ∃ p', round p ch 1 = .go p' [.mark .url] ∧ inUrl p'.state = true ∧ ch ≠ 0 := by
  have notSpace : ch ≠ sp := fun same => inside (Or.inl same)
  have entry : inUrl (if p.method = .connect then .reqServerStart else p.state) = true ∨
      (if p.method = .connect then .reqServerStart else p.state) = .reqSpacesBeforeUrl := by
    split
    · exact Or.inl rfl
    · exact Or.inr state
  have reacts : round p ch 1 = urlChar { p with nread := p.nread + 1 }
      (if p.method = .connect then .reqServerStart else p.state) ch [.mark .url] := by
    rw [round_header (by simp [state, parsingHeader]) whole]
    simp only [executeByte, state, reqSpacesBeforeUrl, if_neg notSpace]
  obtain ⟨alive, nonzero, goes⟩ := urlChar_goes reacts whole
  exact ⟨_, goes, urlChar_inUrl ch _ entry alive, nonzero⟩

theorem parsingHeader_inUrl {s : ParserState} (url : inUrl s = true) : parsingHeader s = true :=
  parsingHeader_of_outside (markOf_inUrl url)

theorem url_glides {settings : ParserSettings ρ} {q : HttpParser} {final : ρ} (rest : Bytes) :
    ∀ (url : Bytes) (p : HttpParser) (user : ρ), inUrl p.state = true →
      (∀ c ∈ url, ¬ EndsUrl c) → (read settings (url ++ rest) p user).Whole q final →
        ∃ p' user', glide url p = some p' ∧ inUrl p'.state = true ∧ (∀ c ∈ url, c ≠ 0) ∧
          (read settings rest p' user').Whole q final := by
  intro url
  induction url with
  | nil => intro p user state _ whole; exact ⟨p, user, rfl, state, by simp, whole⟩
  | cons ch tail ih =>
      intro p user state plain whole
      have inside := plain ch List.mem_cons_self
      simp only [EndsUrl, not_or] at inside
      rw [List.cons_append] at whole
      have reacts : round p ch 1 = urlChar { p with nread := p.nread + 1 } p.state ch [] := by
        rw [round_header (parsingHeader_inUrl state) whole]
        revert state
        cases s : p.state <;> intro state <;> simp [inUrl] at state <;>
          simp [executeByte, reqSchema, reqUrl, inside]
      obtain ⟨alive, nonzero, goes⟩ := urlChar_goes reacts whole
      have outside : inBody p.state = false := by
        revert state
        cases p.state <;> simp [inUrl, inBody]
      rw [read_go goes] at whole
      obtain ⟨p', user', glides, state', clean, whole'⟩ := ih _ _
        (urlChar_inUrl ch _ (Or.inl state) alive)
        (fun c member => plain c (List.mem_cons_of_mem _ member)) whole
      refine ⟨p', user', ?_, state', ?_, whole'⟩
      · rw [glide, goes]
        simpa [Reaction.go, outside] using glides
      · intro c member
        rcases List.mem_cons.mp member with rfl | member
        · exact nonzero
        · exact clean c member

theorem url_stops {settings : ParserSettings ρ} {p q : HttpParser} {ch : UInt8} {rest : Bytes}
    {user final : ρ} (state : inUrl p.state = true) (ends : EndsUrl ch)
    (whole : (read settings (ch :: rest) p user).Whole q final) :
    ∃ p', round p ch 1 = .go p' [.data .url] := by
  have reacts := round_header (parsingHeader_inUrl state) whole
  have cases_ : executeByte { p with nread := p.nread + 1 } ch 1 =
        .fail { p with nread := p.nread + 1 } .invalidUrl ∨
      executeByte { p with nread := p.nread + 1 } ch 1 = reqUrl { p with nread := p.nread + 1 } ch := by
    revert state
    cases s : p.state <;> intro state <;> simp [inUrl] at state <;>
      first | exact Or.inl (if_pos ends) | exact Or.inr rfl
  rcases cases_ with fails | url
  · exact absurd whole (not_whole_of_fail (by decide) (reacts.trans fails))
  · rw [reacts, url, reqUrl]
    by_cases space : ch = sp
    · rw [if_pos space]
      exact ⟨_, rfl⟩
    · have line : ch = cr ∨ ch = lf := by
        rcases ends with h | h
        · exact absurd h space
        · exact h
      rw [if_neg space, if_pos line]
      exact ⟨_, rfl⟩

end AirCast.Http
