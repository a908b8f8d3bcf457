import Mathlib

/-! # Texts that arrive in segments

What a socket holds is a list of non-empty segments.  One `receive` hands out the
front of the first segment, as much of it as the caller has room for; it hands out
nothing once all is read, or when there is no room.  A loop that receives until it
has a given number of elements sees the text and not the segments. -/

set_option autoImplicit false

namespace AirCast

variable {α : Type}

structure Arrivals (α : Type) where
  parts : List (List α)
  nonempty : ∀ s ∈ parts, s ≠ []

namespace Arrivals

def text (arrivals : Arrivals α) : List α := arrivals.parts.flatten

def receive (capacity : ℕ) : Arrivals α → List α × Arrivals α
  | ⟨[], closed⟩ => ([], ⟨[], closed⟩)
  | ⟨segment :: rest, nonempty⟩ =>
      if room : capacity < segment.length then
        (segment.take capacity,
          { parts := segment.drop capacity :: rest
            nonempty := by
              intro s member
              rcases List.mem_cons.mp member with rfl | member
              · rw [ne_eq, List.drop_eq_nil_iff, not_le]
                exact room
              · exact nonempty s (List.mem_cons_of_mem _ member) })
      else (segment, ⟨rest, fun s member => nonempty s (List.mem_cons_of_mem _ member)⟩)

theorem receive_text (capacity : ℕ) (arrivals : Arrivals α) :
    (arrivals.receive capacity).1 ++ (arrivals.receive capacity).2.text = arrivals.text := by
  obtain ⟨parts, nonempty⟩ := arrivals
  cases parts with
  | nil => rfl
  | cons segment rest =>
      simp only [receive]
      split
      · simp only [text, List.flatten_cons]
        rw [← List.append_assoc, List.take_append_drop]
      · rfl

theorem receive_length (capacity : ℕ) (arrivals : Arrivals α) :
    (arrivals.receive capacity).1.length ≤ capacity := by
  obtain ⟨parts, nonempty⟩ := arrivals
  cases parts with
  | nil => simp [receive]
  | cons segment rest =>
      simp only [receive]
      split
      · exact List.length_take_le _ _
      · rename_i fits
        exact not_lt.mp fits

theorem receive_eq_nil_iff (capacity : ℕ) (arrivals : Arrivals α) :
    (arrivals.receive capacity).1 = [] ↔ capacity = 0 ∨ arrivals.text = [] := by
  obtain ⟨parts, nonempty⟩ := arrivals
  cases parts with
  | nil => simp [receive, text]
  | cons segment rest =>
      have started := nonempty segment List.mem_cons_self
      simp only [receive, text, List.flatten_cons, List.append_eq_nil_iff, started, false_and,
        or_false]
      split
      · rw [List.take_eq_nil_iff]
        simp [started]
      · rename_i whole
        have := List.length_pos_iff.mpr started
        simp only [started, false_iff]
        omega

/-- At most `fuel` calls, none of them for more than `limit` elements; `none` where
the text ends first. -/
def receiveWithin (limit : ℕ) : ℕ → ℕ → Arrivals α → Option (List α × Arrivals α)
  | _, 0, arrivals => some ([], arrivals)
  | 0, _ + 1, _ => none
  | fuel + 1, wanted + 1, arrivals =>
      let got := arrivals.receive (min limit (wanted + 1))
      if got.1.length = 0 then none
      else
        (receiveWithin limit fuel (wanted + 1 - got.1.length) got.2).map fun more =>
          (got.1 ++ more.1, more.2)

def receiveExactly (limit wanted : ℕ) (arrivals : Arrivals α) : Option (List α × Arrivals α) :=
  receiveWithin limit wanted wanted arrivals

theorem receiveWithin_enough {limit : ℕ} (positive : 0 < limit) (fuel : ℕ) :
    ∀ (wanted : ℕ) (arrivals : Arrivals α), wanted ≤ fuel → wanted ≤ arrivals.text.length →
      ∃ rest, receiveWithin limit fuel wanted arrivals = some (arrivals.text.take wanted, rest) ∧
        rest.text = arrivals.text.drop wanted := by
  induction fuel with
  | zero =>
      intro wanted arrivals small _
      obtain rfl : wanted = 0 := by omega
      exact ⟨arrivals, by simp [receiveWithin], by simp⟩
  | succ fuel ih =>
      intro wanted arrivals small enough
      cases wanted with
      | zero => exact ⟨arrivals, by simp [receiveWithin], by simp⟩
      | succ wanted =>
          have split := receive_text (min limit (wanted + 1)) arrivals
          have short := receive_length (min limit (wanted + 1)) arrivals
          have started : (arrivals.receive (min limit (wanted + 1))).1 ≠ [] := by
            rw [ne_eq, receive_eq_nil_iff, not_or]
            refine ⟨by omega, ?_⟩
            rintro empty
            simp [empty] at enough
          simp only [receiveWithin]
          generalize arrivals.receive (min limit (wanted + 1)) = got at split short started ⊢
          obtain ⟨front, behind⟩ := got
          dsimp only at split short started ⊢
          have positiveLength := List.length_pos_iff.mpr started
          rw [← split, List.length_append] at enough
          obtain ⟨rest, more, left⟩ := ih (wanted + 1 - front.length) behind (by omega) (by omega)
          refine ⟨rest, ?_, ?_⟩
          · rw [if_neg (by omega), more, Option.map_some, ← split, List.take_append,
              List.take_of_length_le (by omega : front.length ≤ wanted + 1)]
          · have passed : front.drop (wanted + 1) = [] := List.drop_eq_nil_of_le (by omega)
            rw [left, ← split, List.drop_append, passed, List.nil_append]

theorem receiveWithin_closed {limit : ℕ} (fuel : ℕ) :
    ∀ (wanted : ℕ) (arrivals : Arrivals α), arrivals.text.length < wanted →
      receiveWithin limit fuel wanted arrivals = none := by
  induction fuel with
  | zero =>
      intro wanted arrivals short
      obtain ⟨n, rfl⟩ : ∃ n, wanted = n + 1 := ⟨wanted - 1, by omega⟩
      rfl
  | succ fuel ih =>
      intro wanted arrivals short
      obtain ⟨n, rfl⟩ : ∃ n, wanted = n + 1 := ⟨wanted - 1, by omega⟩
      have split := receive_text (min limit (n + 1)) arrivals
      simp only [receiveWithin]
      generalize arrivals.receive (min limit (n + 1)) = got at split ⊢
      split
      · rfl
      · rw [← split, List.length_append] at short
        rw [ih _ _ (by omega), Option.map_none]

section Exactly

variable {limit wanted : ℕ} {arrivals : Arrivals α}

theorem receiveExactly_enough (positive : 0 < limit) (enough : wanted ≤ arrivals.text.length) :
    ∃ rest, receiveExactly limit wanted arrivals = some (arrivals.text.take wanted, rest) ∧
      rest.text = arrivals.text.drop wanted :=
  receiveWithin_enough positive wanted wanted arrivals le_rfl enough

theorem receiveExactly_closed (short : arrivals.text.length < wanted) :
    receiveExactly limit wanted arrivals = none :=
  receiveWithin_closed wanted wanted arrivals short

end Exactly

end Arrivals

structure Segmentation (text : List α) extends Arrivals α where
  whole : parts.flatten = text

/-- Some segment ends strictly inside the `length` elements from `start` on. -/
def Segmentation.Cuts {text : List α} (segments : Segmentation text) (start length : ℕ) : Prop :=
  ∃ front back, segments.parts = front ++ back ∧ start < front.flatten.length ∧
    front.flatten.length < start + length

theorem segment_at (n : ℕ) :
    ∀ parts : List (List α), n < parts.flatten.length →
      ∃ front segment back, parts = front ++ segment :: back ∧ front.flatten.length ≤ n ∧
        n < front.flatten.length + segment.length := by
  intro parts
  induction parts generalizing n with
  | nil => intro short; simp at short
  | cons part rest ih =>
      intro short
      rw [List.flatten_cons, List.length_append] at short
      by_cases here : n < part.length
      · exact ⟨[], part, rest, rfl, by simp, by simpa using here⟩
      · obtain ⟨front, segment, back, split, opens, reaches⟩ := ih (n - part.length) (by omega)
        refine ⟨part :: front, segment, back, by simp [split], ?_, ?_⟩
        · rw [List.flatten_cons, List.length_append]
          omega
        · rw [List.flatten_cons, List.length_append]
          omega

theorem cuts_iff {text : List α} (segments : Segmentation text) {front : List (List α)}
    {segment : List α} {back : List (List α)} {start : ℕ} (length : ℕ)
    (split : segments.parts = front ++ segment :: back) (opens : front.flatten.length ≤ start)
    (reaches : start < front.flatten.length + segment.length) :
    segments.Cuts start length ↔ front.flatten.length + segment.length - start < length := by
  constructor
  · rintro ⟨earlier, later, other, after, inside⟩
    rw [split] at other
    rcases List.append_eq_append_iff.mp other with ⟨gap, rfl, parts⟩ | ⟨gap, rfl, -⟩
    · cases gap with
      | nil =>
          rw [List.append_nil] at after
          omega
      | cons part gap =>
          simp only [List.cons_append, List.cons.injEq] at parts
          simp only [List.flatten_append, List.flatten_cons, List.length_append, ← parts.1]
            at inside
          omega
    · rw [List.flatten_append, List.length_append] at opens
      omega
  · intro inside
    refine ⟨front ++ [segment], back, by simp [split], ?_, ?_⟩ <;>
      simp only [List.flatten_append, List.flatten_cons, List.flatten_nil, List.append_nil,
        List.length_append] <;> omega

end AirCast
