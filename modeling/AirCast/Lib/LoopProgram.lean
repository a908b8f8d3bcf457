import Mathlib

/-! # Programs with loops that may not end

A program gets the fuel of its loops and a state.  It is stable: more fuel does not
change a run that did not run out of it.  `Ends` is the meaning of a program; it has
one rule for each way to build programs, and `loop_induction` for the loops. -/

set_option autoImplicit false

namespace AirCast

inductive Outcome (α : Type) where
  | done (value : α)
  | failed
  | outOfFuel
  deriving DecidableEq

namespace Outcome

variable {α β : Type}

def bind (first : Outcome α) (next : α → Outcome β) : Outcome β :=
  match first with
  | .done value => next value
  | .failed => .failed
  | .outOfFuel => .outOfFuel

theorem bind_eq_done {first : Outcome α} {next : α → Outcome β} {value : β} :
    first.bind next = .done value ↔ ∃ a, first = .done a ∧ next a = .done value := by
  cases first <;> simp [bind]

theorem bind_stable {first more : Outcome α} {next later : α → Outcome β}
    (firstStable : first ≠ .outOfFuel → more = first)
    (nextStable : ∀ a, next a ≠ .outOfFuel → later a = next a)
    (found : first.bind next ≠ .outOfFuel) : more.bind later = first.bind next := by
  cases first with
  | done a =>
      rw [firstStable (by simp)]
      exact nextStable a found
  | failed =>
      rw [firstStable (by simp)]
      rfl
  | outOfFuel => exact absurd rfl found

end Outcome

structure Program (σ α : Type) where
  run : ℕ → σ → Outcome (α × σ)
  stable : ∀ fuel more s, fuel ≤ more → run fuel s ≠ .outOfFuel → run more s = run fuel s

namespace Program

variable {σ α β : Type}

def action (step : σ → Option (α × σ)) : Program σ α where
  run _ s := (step s).elim .failed .done
  stable _ _ _ _ _ := rfl

instance : Monad (Program σ) where
  pure value := action fun s => some (value, s)
  bind p f :=
    { run := fun fuel s => (p.run fuel s).bind fun found => (f found.1).run fuel found.2
      stable := fun fuel more s enough found =>
        Outcome.bind_stable (p.stable fuel more s enough)
          (fun reached => (f reached.1).stable fuel more reached.2 enough) found }

def rounds (body : β → Program σ (β ⊕ α)) : ℕ → β → σ → Outcome (α × σ)
  | 0, _, _ => .outOfFuel
  | fuel + 1, b, s =>
      ((body b).run fuel s).bind fun found =>
        match found.1 with
        | .inl next => rounds body fuel next found.2
        | .inr value => .done (value, found.2)

theorem rounds_stable (body : β → Program σ (β ⊕ α)) :
    ∀ (fuel more : ℕ) (b : β) (s : σ), fuel ≤ more →
      rounds body fuel b s ≠ .outOfFuel → rounds body more b s = rounds body fuel b s := by
  intro fuel
  induction fuel with
  | zero => intro more b s _ found; exact absurd rfl found
  | succ fuel ih =>
      intro more b s enough found
      obtain ⟨more, rfl⟩ : ∃ rest, more = rest + 1 := ⟨more - 1, by omega⟩
      have enough : fuel ≤ more := by omega
      refine Outcome.bind_stable ((body b).stable fuel more s enough) ?_ found
      rintro ⟨next | value, t⟩ found
      · exact ih more next t enough found
      · rfl

def loop (body : β → Program σ (β ⊕ α)) (b : β) : Program σ α where
  run fuel s := rounds body fuel b s
  stable fuel more s := rounds_stable body fuel more b s

def skip (p : Program σ α) : Program σ Unit := do
  let _ ← p
  return ()

def when (condition : Prop) [Decidable condition] (p : Program σ Unit) : Program σ Unit :=
  if condition then p else pure ()

/-- With enough fuel the program gives a value and a state. -/
def Ends (p : Program σ α) (s : σ) (value : α) (t : σ) : Prop :=
  ∃ fuel, p.run fuel s = .done (value, t)

theorem Ends.unique {p : Program σ α} {s t u : σ} {value other : α}
    (first : p.Ends s value t) (second : p.Ends s other u) : value = other ∧ t = u := by
  obtain ⟨fuel, first⟩ := first
  obtain ⟨more, second⟩ := second
  have left := p.stable fuel (max fuel more) s (le_max_left _ _) (by simp [first])
  have right := p.stable more (max fuel more) s (le_max_right _ _) (by simp [second])
  have same := left.symm.trans right
  rw [first, second] at same
  simpa using same

theorem not_ends_of_failed {p : Program σ α} (fuel : ℕ) {s : σ} (failed : p.run fuel s = .failed)
    (value : α) (t : σ) : ¬ p.Ends s value t := by
  rintro ⟨more, done⟩
  have left := p.stable fuel (max fuel more) s (le_max_left _ _) (by simp [failed])
  have right := p.stable more (max fuel more) s (le_max_right _ _) (by simp [done])
  rw [failed] at left
  rw [done, left] at right
  cases right

theorem ends_action {step : σ → Option (α × σ)} {s t : σ} {value : α} :
    (action step).Ends s value t ↔ step s = some (value, t) := by
  cases found : step s <;> simp [Ends, action, found]

@[simp] theorem ends_pure {s t : σ} {value other : α} :
    (pure value : Program σ α).Ends s other t ↔ other = value ∧ t = s := by
  simp [pure, ends_action, eq_comm]

theorem ends_bind {p : Program σ α} {f : α → Program σ β} {s u : σ} {value : β} :
    (p >>= f).Ends s value u ↔ ∃ a t, p.Ends s a t ∧ (f a).Ends t value u := by
  constructor
  · rintro ⟨fuel, done⟩
    obtain ⟨⟨a, t⟩, first, second⟩ := Outcome.bind_eq_done.mp done
    exact ⟨a, t, ⟨fuel, first⟩, ⟨fuel, second⟩⟩
  · rintro ⟨a, t, ⟨fuel, first⟩, ⟨more, second⟩⟩
    have left := p.stable fuel (max fuel more) s (le_max_left _ _) (by simp [first])
    have right := (f a).stable more (max fuel more) t (le_max_right _ _) (by simp [second])
    exact ⟨max fuel more,
      Outcome.bind_eq_done.mpr ⟨(a, t), left.trans first, right.trans second⟩⟩

theorem ends_bind_of_ends {p : Program σ α} {f : α → Program σ β} {s t u : σ} {a : α} {value : β}
    (first : p.Ends s a t) : (p >>= f).Ends s value u ↔ (f a).Ends t value u := by
  rw [ends_bind]
  constructor
  · rintro ⟨b, v, found, rest⟩
    obtain ⟨rfl, rfl⟩ := first.unique found
    exact rest
  · intro rest
    exact ⟨a, t, first, rest⟩

@[simp] theorem ends_skip {p : Program σ α} {s t : σ} {value : Unit} :
    p.skip.Ends s value t ↔ ∃ a, p.Ends s a t := by
  rw [skip, ends_bind]
  constructor
  · rintro ⟨a, t, ends, rest⟩
    obtain ⟨_, rfl⟩ := ends_pure.mp rest
    exact ⟨a, ends⟩
  · rintro ⟨a, ends⟩
    exact ⟨a, t, ends, ends_pure.mpr ⟨rfl, rfl⟩⟩

theorem Ends.skip {p : Program σ α} {s t : σ} {a : α} (ends : p.Ends s a t) :
    p.skip.Ends s () t :=
  ends_skip.mpr ⟨a, ends⟩

theorem ends_when {condition : Prop} [Decidable condition] {p : Program σ Unit} {s t : σ}
    {value : Unit} :
    (when condition p).Ends s value t ↔
      (condition ∧ p.Ends s value t) ∨ (¬ condition ∧ t = s) := by
  by_cases holds : condition <;> simp [when, holds]

theorem ends_when_of_not {condition : Prop} [Decidable condition] {p : Program σ Unit} {s : σ}
    (fails : ¬ condition) : (when condition p).Ends s () s :=
  ends_when.mpr (.inr ⟨fails, rfl⟩)

theorem ends_loop {body : β → Program σ (β ⊕ α)} {b : β} {s u : σ} {value : α} :
    (loop body b).Ends s value u ↔
      (∃ next t, (body b).Ends s (.inl next) t ∧ (loop body next).Ends t value u) ∨
        (body b).Ends s (.inr value) u := by
  constructor
  · rintro ⟨fuel, done⟩
    cases fuel with
    | zero => simp [loop, rounds] at done
    | succ fuel =>
        obtain ⟨⟨next | result, t⟩, first, rest⟩ := Outcome.bind_eq_done.mp done
        · exact .inl ⟨next, t, ⟨fuel, first⟩, ⟨fuel, rest⟩⟩
        · obtain ⟨rfl, rfl⟩ : result = value ∧ t = u := by simpa using rest
          exact .inr ⟨fuel, first⟩
  · rintro (⟨next, t, ⟨fuel, first⟩, ⟨more, rest⟩⟩ | ⟨fuel, last⟩)
    · have left := (body b).stable fuel (max fuel more) s (le_max_left _ _) (by simp [first])
      have right := (loop body next).stable more (max fuel more) t (le_max_right _ _)
        (by simp [rest])
      exact ⟨max fuel more + 1,
        Outcome.bind_eq_done.mpr ⟨(.inl next, t), left.trans first, right.trans rest⟩⟩
    · exact ⟨fuel + 1, Outcome.bind_eq_done.mpr ⟨(.inr value, u), last, rfl⟩⟩

theorem loop_induction {body : β → Program σ (β ⊕ α)} (Result : β → σ → α → σ → Prop)
    (again : ∀ b s next t value u, (body b).Ends s (.inl next) t →
      Result next t value u → Result b s value u)
    (last : ∀ b s value u, (body b).Ends s (.inr value) u → Result b s value u) :
    ∀ {b : β} {s : σ} {value : α} {u : σ}, (loop body b).Ends s value u → Result b s value u := by
  rintro b s value u ⟨fuel, done⟩
  induction fuel generalizing b s with
  | zero => simp [loop, rounds] at done
  | succ fuel ih =>
      obtain ⟨⟨next | result, t⟩, first, rest⟩ := Outcome.bind_eq_done.mp done
      · exact again b s next t value u ⟨fuel, first⟩ (ih rest)
      · obtain ⟨rfl, rfl⟩ : result = value ∧ t = u := by simpa using rest
        exact last b s result t ⟨fuel, first⟩

theorem not_ends_loop {body : β → Program σ (β ⊕ α)} (Inv : β → Prop)
    (kept : ∀ b s next t, Inv b → (body b).Ends s (.inl next) t → Inv next)
    (stays : ∀ b s value t, Inv b → ¬ (body b).Ends s (.inr value) t)
    {b : β} (holds : Inv b) (s : σ) (value : α) (u : σ) : ¬ (loop body b).Ends s value u :=
  fun ends => loop_induction (fun b _ _ _ => ¬ Inv b)
    (fun b s next t _ _ round out inv => out (kept b s next t inv round))
    (fun b s value u result inv => stays b s value u inv result) ends holds

end Program

end AirCast
