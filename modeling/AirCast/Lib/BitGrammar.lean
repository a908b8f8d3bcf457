import AirCast.Lib.BitCodes

/-! # Readers of bit strings

A reader moves a cursor through a stream of bits.  `Reads` says that it takes exactly the given
bits and what it makes of them; the bits of a sequence of readers are those of its parts. -/

set_option autoImplicit false

namespace AirCast

theorem natOf_append (front back : List Bool) :
    natOf (front ++ back) = natOf front * 2 ^ back.length + natOf back := by
  induction front with
  | nil => simp [natOf]
  | cons bit rest ih =>
      rw [List.cons_append, natOf, natOf, ih, List.length_append, pow_add]
      ring

section reads

variable {σ α β : Type} (stream : ℕ → Option Bool) (cursor : ℕ → σ)

/-- Wherever the bits stand, the reader gives the value and leaves the cursor behind them. -/
def Reads (reader : StateM σ α) (bits : List Bool) (value : α) : Prop :=
  ∀ position, Carries stream position bits →
    reader (cursor position) = (value, cursor (position + bits.length))

variable {stream cursor}

theorem Reads.pure (value : α) : Reads stream cursor (pure value) [] value := by
  intro position _
  rfl

theorem Reads.bind {reader : StateM σ α} {next : α → StateM σ β} {front back : List Bool} {a : α}
    {b : β} (first : Reads stream cursor reader front a)
    (second : Reads stream cursor (next a) back b) :
    Reads stream cursor (reader >>= next) (front ++ back) b := by
  intro position carried
  obtain ⟨here, behind⟩ := (carries_append stream front back position).mp carried
  have step : (reader >>= next) (cursor position) =
      next (reader (cursor position)).1 (reader (cursor position)).2 := rfl
  rw [step, first position here, second _ behind, List.length_append, Nat.add_assoc]

theorem Reads.bind_pure {reader : StateM σ α} {bits : List Bool} {a : α} (f : α → β)
    (first : Reads stream cursor reader bits a) :
    Reads stream cursor (reader >>= fun x => Pure.pure (f x)) bits (f a) := by
  rw [← List.append_nil bits]
  exact first.bind (Reads.pure (f a))

end reads

end AirCast
