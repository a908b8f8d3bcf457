import AirCast.Lib.Transducer

/-! # Parties that share a machine

Every input comes from a party.  A party is isolated when its answers are those of a
run in which it is alone.  For that it is enough that a relation between the shared
state and the state of the lonely run is kept by the party's own inputs, which are
answered alike, and by the inputs of the others. -/

set_option autoImplicit false

namespace AirCast

variable {σ τ ι ο υ π : Type*} [DecidableEq π]

def inputsOf (who : π) (inputs : List (π × ι)) : List (π × ι) := inputs.filter (·.1 = who)

def answersOf (who : π) : List (π × ι) → List ο → List ο
  | (party, _) :: inputs, answer :: answers =>
      if party = who then answer :: answersOf who inputs answers else answersOf who inputs answers
  | _, _ => []

theorem answersOf_map (who : π) (render : ο → υ) :
    ∀ (inputs : List (π × ι)) (answers : List ο),
      answersOf who inputs (answers.map render) = (answersOf who inputs answers).map render := by
  intro inputs
  induction inputs with
  | nil => intro answers; rfl
  | cons input rest ih =>
      intro answers
      cases answers with
      | nil => rfl
      | cons answer others =>
          simp only [List.map_cons, answersOf, ih]
          split <;> rfl

namespace Transducer

theorem run_isolated (shared : Transducer σ (π × ι) ο) (alone : Transducer τ (π × ι) υ)
    (render : ο → υ) (ok : σ → π × ι → Prop) (who : π) (R : σ → τ → Prop)
    (own : ∀ s t i, R s t → ok s (who, i) →
      R (shared.step s (who, i)).1 (alone.step t (who, i)).1 ∧
        render (shared.step s (who, i)).2 = (alone.step t (who, i)).2)
    (other : ∀ s t party i, party ≠ who → R s t → ok s (party, i) →
      R (shared.step s (party, i)).1 t) :
    ∀ (inputs : List (π × ι)) (s : σ) (t : τ), R s t → shared.Admissible ok s inputs →
      R (shared.run s inputs).1 (alone.run t (inputsOf who inputs)).1 ∧
        (answersOf who inputs (shared.run s inputs).2).map render =
          (alone.run t (inputsOf who inputs)).2 := by
  intro inputs
  induction inputs with
  | nil => intro s t related _; exact ⟨related, rfl⟩
  | cons input rest ih =>
      obtain ⟨party, i⟩ := input
      intro s t related admissible
      by_cases same : party = who
      · subst same
        obtain ⟨next, answer⟩ := own s t i related admissible.1
        obtain ⟨final, answers⟩ := ih _ _ next admissible.2
        rw [inputsOf, List.filter_cons_of_pos (by simp)]
        refine ⟨final, ?_⟩
        rw [run_cons, run_cons, answersOf, if_pos rfl, List.map_cons, answer, answers]
        rfl
      · obtain ⟨final, answers⟩ := ih _ _ (other s t party i same related admissible.1) admissible.2
        rw [inputsOf, List.filter_cons_of_neg (by simpa using same)]
        refine ⟨final, ?_⟩
        rw [run_cons, answersOf, if_neg same, answers]
        rfl

end Transducer

end AirCast
