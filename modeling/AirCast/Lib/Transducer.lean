import Mathlib

/-! # Deterministic machines that answer every input

`run` collects the answers of a whole input list.  `run_guarded` lifts a
step-preserved property to runs, `run_simulates` lifts a step simulation to the
equality of all answers.  Both only ask for the steps whose inputs the
environment may offer (`Admissible`). -/

set_option autoImplicit false

namespace AirCast

structure Transducer (σ ι ο : Type*) where
  step : σ → ι → σ × ο

namespace Transducer

variable {σ τ ι κ ο υ : Type*}

def run (m : Transducer σ ι ο) : σ → List ι → σ × List ο
  | s, [] => (s, [])
  | s, i :: rest =>
      let next := m.step s i
      let tail := m.run next.1 rest
      (tail.1, next.2 :: tail.2)

/-- Every input of the list is allowed in the state in which it arrives. -/
def Admissible (m : Transducer σ ι ο) (ok : σ → ι → Prop) : σ → List ι → Prop
  | _, [] => True
  | s, i :: rest => ok s i ∧ m.Admissible ok (m.step s i).1 rest

instance decidableAdmissible (m : Transducer σ ι ο) (ok : σ → ι → Prop)
    [∀ s i, Decidable (ok s i)] : ∀ (s : σ) (inputs : List ι), Decidable (m.Admissible ok s inputs)
  | _, [] => isTrue trivial
  | s, i :: rest =>
      have := decidableAdmissible m ok (m.step s i).1 rest
      inferInstanceAs (Decidable (ok s i ∧ m.Admissible ok (m.step s i).1 rest))

theorem admissible_of_forall (m : Transducer σ ι ο) (ok : σ → ι → Prop) :
    ∀ (inputs : List ι) (s : σ), (∀ i ∈ inputs, ∀ t, ok t i) → m.Admissible ok s inputs := by
  intro inputs
  induction inputs with
  | nil => intro s _; trivial
  | cons i rest ih =>
      intro s allowed
      obtain ⟨first, later⟩ := List.forall_mem_cons.mp allowed
      exact ⟨first s, ih _ later⟩

theorem admissible_and_iff {m : Transducer σ ι ο} {ok good : σ → ι → Prop} :
    ∀ {inputs : List ι} {s : σ}, m.Admissible (fun s i => ok s i ∧ good s i) s inputs ↔
      m.Admissible ok s inputs ∧ m.Admissible good s inputs := by
  intro inputs
  induction inputs with
  | nil => intro s; simp [Admissible]
  | cons i rest ih =>
      intro s
      simp only [Admissible, ih]
      exact and_and_and_comm

theorem admissible_and {m : Transducer σ ι ο} {ok good : σ → ι → Prop} {inputs : List ι} {s : σ}
    (admissible : m.Admissible ok s inputs) (all : ∀ i ∈ inputs, ∀ t, good t i) :
    m.Admissible (fun s i => ok s i ∧ good s i) s inputs :=
  admissible_and_iff.mpr ⟨admissible, m.admissible_of_forall good inputs s all⟩

@[simp] theorem run_nil (m : Transducer σ ι ο) (s : σ) : m.run s [] = (s, []) := rfl

theorem run_cons (m : Transducer σ ι ο) (s : σ) (i : ι) (rest : List ι) :
    m.run s (i :: rest) =
      ((m.run (m.step s i).1 rest).1,
        (m.step s i).2 :: (m.run (m.step s i).1 rest).2) := rfl

theorem run_guarded (m : Transducer σ ι ο) (ok : σ → ι → Prop) (Inv : σ → Prop) (good : ο → Prop)
    (kept : ∀ s i, Inv s → ok s i → Inv (m.step s i).1 ∧ good (m.step s i).2) :
    ∀ (inputs : List ι) (s : σ), Inv s → m.Admissible ok s inputs →
      Inv (m.run s inputs).1 ∧ ∀ answer ∈ (m.run s inputs).2, good answer := by
  intro inputs
  induction inputs with
  | nil => intro s holds _; exact ⟨holds, by simp⟩
  | cons i rest ih =>
      intro s holds admissible
      obtain ⟨next, answer⟩ := kept s i holds admissible.1
      obtain ⟨final, answers⟩ := ih (m.step s i).1 next admissible.2
      exact ⟨final, List.forall_mem_cons.mpr ⟨answer, answers⟩⟩

theorem run_invariant (m : Transducer σ ι ο) (Inv : σ → Prop)
    (kept : ∀ s i, Inv s → Inv (m.step s i).1) :
    ∀ (inputs : List ι) (s : σ), Inv s → Inv (m.run s inputs).1 := by
  intro inputs
  induction inputs with
  | nil => intro s holds; exact holds
  | cons i rest ih => intro s holds; exact ih (m.step s i).1 (kept s i holds)

theorem run_answers_iff (m : Transducer σ ι ο) (ok : σ → ι → Prop) (Inv : σ → Prop)
    (good : ο → Prop) (preserved : ∀ s i, Inv s → Inv (m.step s i).1)
    (exact : ∀ s i, Inv s → (good (m.step s i).2 ↔ ok s i)) :
    ∀ (inputs : List ι) (s : σ), Inv s →
      ((∀ answer ∈ (m.run s inputs).2, good answer) ↔ m.Admissible ok s inputs) := by
  intro inputs
  induction inputs with
  | nil => intro s _; simp [Admissible]
  | cons i rest ih =>
      intro s holds
      rw [run_cons, List.forall_mem_cons, exact s i holds,
        ih (m.step s i).1 (preserved s i holds)]
      rfl

/-- Where a step that is taken as given keeps the invariant if its input is allowed, and shows a
bad state if it is not, the states of a run are good exactly if the run is admissible. -/
theorem run_states_iff_given (m : Transducer σ ι ο) (given ok : σ → ι → Prop) (Inv good : σ → Prop)
    (shows : ∀ s, Inv s → good s)
    (kept : ∀ s i, Inv s → given s i → ok s i → Inv (m.step s i).1)
    (exact : ∀ s i, Inv s → given s i → good (m.step s i).1 → ok s i) :
    ∀ (inputs : List ι) (s : σ), Inv s → m.Admissible given s inputs →
      ((∀ front back, inputs = front ++ back → good (m.run s front).1) ↔
        m.Admissible ok s inputs) := by
  intro inputs
  induction inputs with
  | nil =>
      intro s holds _
      refine ⟨fun _ => trivial, fun _ front back split => ?_⟩
      rw [List.nil_eq_append_iff] at split
      rw [split.1]
      exact shows s holds
  | cons i rest ih =>
      rintro s holds ⟨first, later⟩
      constructor
      · intro states
        have allowed := exact s i holds first (states [i] rest rfl)
        refine ⟨allowed, (ih (m.step s i).1 (kept s i holds first allowed) later).mp ?_⟩
        intro front back split
        exact states (i :: front) back (by rw [split, List.cons_append])
      · rintro ⟨allowed, admissible⟩ front back split
        cases front with
        | nil => exact shows s holds
        | cons j front =>
            rw [List.cons_append, List.cons.injEq] at split
            obtain ⟨rfl, split⟩ := split
            exact (ih (m.step s i).1 (kept s i holds first allowed) later).mpr admissible front back
              split

theorem run_states_iff (m : Transducer σ ι ο) (ok : σ → ι → Prop) (Inv good : σ → Prop)
    (shows : ∀ s, Inv s → good s) (kept : ∀ s i, Inv s → ok s i → Inv (m.step s i).1)
    (exact : ∀ s i, Inv s → good (m.step s i).1 → ok s i) (inputs : List ι) (s : σ)
    (holds : Inv s) :
    (∀ front back, inputs = front ++ back → good (m.run s front).1) ↔ m.Admissible ok s inputs :=
  m.run_states_iff_given (fun _ _ => True) ok Inv good shows (fun s i holds _ => kept s i holds)
    (fun s i holds _ => exact s i holds) inputs s holds
    (m.admissible_of_forall _ inputs s fun _ _ _ => trivial)

theorem run_append (m : Transducer σ ι ο) :
    ∀ (front back : List ι) (s : σ),
      (m.run s (front ++ back)).1 = (m.run (m.run s front).1 back).1 := by
  intro front
  induction front with
  | nil => intro back s; rfl
  | cons i rest ih => intro back s; exact ih back (m.step s i).1

theorem run_concat (m : Transducer σ ι ο) (front : List ι) (i : ι) (s : σ) :
    (m.run s (front ++ [i])).1 = (m.step (m.run s front).1 i).1 := by
  rw [run_append]
  rfl

theorem admissible_iff (m : Transducer σ ι ο) (ok : σ → ι → Prop) :
    ∀ (inputs : List ι) (s : σ), m.Admissible ok s inputs ↔
      ∀ front i back, inputs = front ++ i :: back → ok (m.run s front).1 i := by
  intro inputs
  induction inputs with
  | nil => intro s; simp [Admissible]
  | cons j rest ih =>
      intro s
      constructor
      · rintro ⟨first, later⟩ front i back split
        cases front with
        | nil =>
            obtain ⟨rfl, rfl⟩ := List.cons.inj split
            exact first
        | cons k front =>
            rw [List.cons_append, List.cons.injEq] at split
            obtain ⟨rfl, split⟩ := split
            exact (ih _).mp later front i back split
      · intro allowed
        refine ⟨allowed [] j rest rfl, (ih _).mpr fun front i back split => ?_⟩
        exact allowed (j :: front) i back (by rw [split, List.cons_append])

theorem admissible_congr (m : Transducer σ ι ο) (ok good : σ → ι → Prop) (Inv : σ → Prop)
    (kept : ∀ s i, Inv s → ok s i → Inv (m.step s i).1)
    (exact : ∀ s i, Inv s → (good s i ↔ ok s i)) :
    ∀ (inputs : List ι) (s : σ), Inv s → (m.Admissible good s inputs ↔ m.Admissible ok s inputs) := by
  intro inputs
  induction inputs with
  | nil => intro s _; rfl
  | cons i rest ih =>
      intro s holds
      simp only [Admissible, exact s i holds]
      exact and_congr_right fun allowed => ih _ (kept s i holds allowed)

/-- The machine with a record of its inputs beside it; the answers show the record as
it was before the input. -/
def observe {η : Type*} (m : Transducer σ ι ο) (watch : σ → ι → η → η) :
    Transducer (σ × η) ι (η × ο) where
  step s i := (((m.step s.1 i).1, watch s.1 i s.2), (s.2, (m.step s.1 i).2))

theorem observe_run {η : Type*} (m : Transducer σ ι ο) (watch : σ → ι → η → η) :
    ∀ (inputs : List ι) (s : σ) (h : η),
      ((m.observe watch).run (s, h) inputs).1.1 = (m.run s inputs).1 ∧
        ((m.observe watch).run (s, h) inputs).2.map Prod.snd = (m.run s inputs).2 := by
  intro inputs
  induction inputs with
  | nil => intro s h; exact ⟨rfl, rfl⟩
  | cons i rest ih =>
      intro s h
      obtain ⟨state, answers⟩ := ih (m.step s i).1 (watch s i h)
      exact ⟨state, congrArg ((m.step s i).2 :: ·) answers⟩

def comap (code : κ → ι) (m : Transducer σ ι ο) : Transducer σ κ ο :=
  ⟨fun s k => m.step s (code k)⟩

theorem comap_run (code : κ → ι) (m : Transducer σ ι ο) :
    ∀ (inputs : List κ) (s : σ), (m.comap code).run s inputs = m.run s (inputs.map code) := by
  intro inputs
  induction inputs with
  | nil => intro s; rfl
  | cons k rest ih => intro s; simp [run_cons, comap, ← ih]

def answering (part : ο → υ) (m : Transducer σ ι ο) : Transducer σ ι υ :=
  ⟨fun s i => ((m.step s i).1, part (m.step s i).2)⟩

theorem answering_run (part : ο → υ) (m : Transducer σ ι ο) : ∀ (inputs : List ι) (s : σ),
    (m.answering part).run s inputs = ((m.run s inputs).1, (m.run s inputs).2.map part) := by
  intro inputs
  induction inputs with
  | nil => intro s; rfl
  | cons i rest ih => intro s; rw [run_cons, run_cons, ih]; rfl

theorem run_simulates (concrete : Transducer σ ι ο) (abstract : Transducer τ ι υ)
    (render : υ → ο) (ok : τ → ι → Prop) (R : σ → τ → Prop)
    (simulates : ∀ s t i, R s t → ok t i →
      R (concrete.step s i).1 (abstract.step t i).1 ∧
        (concrete.step s i).2 = render (abstract.step t i).2) :
    ∀ (inputs : List ι) (s : σ) (t : τ), R s t → abstract.Admissible ok t inputs →
      R (concrete.run s inputs).1 (abstract.run t inputs).1 ∧
        (concrete.run s inputs).2 = (abstract.run t inputs).2.map render := by
  intro inputs
  induction inputs with
  | nil => intro s t related _; exact ⟨related, rfl⟩
  | cons i rest ih =>
      intro s t related admissible
      obtain ⟨next, answer⟩ := simulates s t i related admissible.1
      obtain ⟨final, answers⟩ := ih _ _ next admissible.2
      refine ⟨final, ?_⟩
      simp only [List.map_cons, run_cons, answer, answers]

end Transducer

/-- A machine that has ended takes every input. -/
def Alive {σ ι : Type*} (ok : σ → ι → Prop) : Option σ → ι → Prop
  | none, _ => True
  | some s, input => ok s input

instance decidableAlive {σ ι : Type*} (ok : σ → ι → Prop) [∀ s i, Decidable (ok s i)] :
    ∀ (state : Option σ) (input : ι), Decidable (Alive ok state input)
  | none, _ => isTrue trivial
  | some s, input => inferInstanceAs (Decidable (ok s input))

end AirCast
