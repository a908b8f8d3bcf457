import Mathlib.Logic.Basic

/-! # Two stateful programs side by side

`Lockstep` relates what two programs give from each state, and asks that they leave the same
state; `Agree` lets them end in different ones.  Both go through the programs one action after
the other. -/

set_option autoImplicit false

namespace AirCast

variable {σ α β γ δ : Type} {R : α → β → Prop} {Q : γ → δ → Prop}

def Lockstep (R : α → β → Prop) (one : StateM σ α) (other : StateM σ β) : Prop :=
  ∀ s, R (one.run s).1 (other.run s).1 ∧ (one.run s).2 = (other.run s).2

def Agree (R : α → β → Prop) (one : StateM σ α) (other : StateM σ β) : Prop :=
  ∀ s, R (one.run s).1 (other.run s).1

section

variable {one : StateM σ α} {other : StateM σ β} {f : α → StateM σ γ} {g : β → StateM σ δ}

theorem Lockstep.pure {a : α} {b : β} (related : R a b) :
    Lockstep R (pure a : StateM σ α) (pure b) := fun _ => ⟨related, rfl⟩

theorem Lockstep.mono {S : α → β → Prop} (together : Lockstep R one other)
    (weaker : ∀ a b, R a b → S a b) : Lockstep S one other :=
  fun s => ⟨weaker _ _ (together s).1, (together s).2⟩

theorem Lockstep.bind (first : Lockstep R one other)
    (next : ∀ a b, R a b → Lockstep Q (f a) (g b)) : Lockstep Q (one >>= f) (other >>= g) := by
  intro s
  obtain ⟨related, same⟩ := first s
  have behind := next _ _ related (one.run s).2
  exact ⟨(congrArg (fun t => Q _ ((g _).run t).1) same).mp behind.1,
    behind.2.trans (congrArg (fun t => ((g _).run t).2) same)⟩

theorem Lockstep.bind_agree (first : Lockstep R one other)
    (next : ∀ a b, R a b → Agree Q (f a) (g b)) : Agree Q (one >>= f) (other >>= g) := by
  intro s
  obtain ⟨related, same⟩ := first s
  exact (congrArg (fun t => Q _ ((g _).run t).1) same).mp (next _ _ related (one.run s).2)

/-- Both take an action or none. -/
theorem Lockstep.ite_agree {c : Prop} [Decidable c] (first : Lockstep R one other) (a : α) (b : β)
    (related : R a b) (next : ∀ a b, R a b → Agree Q (f a) (g b)) :
    Agree Q (if c then one >>= f else f a) (if c then other >>= g else g b) := by
  by_cases taken : c
  · rw [if_pos taken, if_pos taken]
    exact first.bind_agree next
  · rw [if_neg taken, if_neg taken]
    exact next a b related

end

section

variable {one : StateM σ α} {f : α → StateM σ γ} {g : α → StateM σ δ}

theorem Lockstep.after (next : ∀ a, Lockstep Q (f a) (g a)) : Lockstep Q (one >>= f) (one >>= g) :=
  fun s => next _ (one.run s).2

theorem Agree.after (next : ∀ a, Agree Q (f a) (g a)) : Agree Q (one >>= f) (one >>= g) :=
  fun s => next _ (one.run s).2

end

end AirCast
