import Mathlib

/-! # Queues of posted messages

A posted message gets an identity no earlier message has.  It stays pending
until it is taken or removed; after that its identity is gone for good. -/

set_option autoImplicit false

namespace AirCast

structure MessageQueue (α : Type*) where
  next : ℕ
  pending : List (ℕ × α)

namespace MessageQueue

variable {α : Type*}

def empty : MessageQueue α := ⟨0, []⟩

def post (queue : MessageQueue α) (message : α) : MessageQueue α :=
  ⟨queue.next + 1, queue.pending ++ [(queue.next, message)]⟩

def remove (queue : MessageQueue α) (doomed : α → Bool) : MessageQueue α :=
  { queue with pending := queue.pending.filter fun entry => !doomed entry.2 }

def take (queue : MessageQueue α) (index : ℕ) : MessageQueue α :=
  { queue with pending := queue.pending.eraseIdx index }

def Tracks (queue : MessageQueue α) (identity : ℕ) (message : α) : Prop :=
  identity < queue.next ∧ ∀ other, (identity, other) ∈ queue.pending → other = message

def Gone (queue : MessageQueue α) (identity : ℕ) : Prop :=
  identity < queue.next ∧ ∀ other, (identity, other) ∉ queue.pending

def Numbered (queue : MessageQueue α) : Prop :=
  ∀ entry ∈ queue.pending, entry.1 < queue.next

/-- What posting, removing and taking have in common: a later queue holds nothing that was
not pending before, up to the message it posts. -/
def Ages (before later : MessageQueue α) : Prop :=
  before.next ≤ later.next ∧
    ∀ entry ∈ later.pending, entry ∈ before.pending ∨
      (before.next ≤ entry.1 ∧ entry.1 < later.next)

theorem ages_refl (queue : MessageQueue α) : Ages queue queue :=
  ⟨le_refl _, fun _ member => Or.inl member⟩

theorem ages_trans {first second third : MessageQueue α} (earlier : Ages first second)
    (later : Ages second third) : Ages first third := by
  refine ⟨earlier.1.trans later.1, fun entry member => ?_⟩
  rcases later.2 entry member with before | ⟨fresh, past⟩
  · rcases earlier.2 entry before with before | ⟨fresh, past⟩
    · exact Or.inl before
    · exact Or.inr ⟨fresh, past.trans_le later.1⟩
  · exact Or.inr ⟨earlier.1.trans fresh, past⟩

theorem post_ages (queue : MessageQueue α) (message : α) : Ages queue (queue.post message) := by
  refine ⟨Nat.le_succ _, fun entry member => ?_⟩
  rcases List.mem_append.mp member with before | new
  · exact Or.inl before
  · rw [List.mem_singleton.mp new]
    exact Or.inr ⟨le_refl _, Nat.lt_succ_self _⟩

theorem take_ages (queue : MessageQueue α) (index : ℕ) : Ages queue (queue.take index) :=
  ⟨le_refl _, fun _ member => Or.inl (List.mem_of_mem_eraseIdx member)⟩

section later

variable {before later : MessageQueue α} {identity : ℕ} {message : α}

theorem gone_of_ages (ages : Ages before later) (gone : before.Gone identity) :
    later.Gone identity := by
  refine ⟨gone.1.trans_le ages.1, fun other member => ?_⟩
  rcases ages.2 _ member with old | ⟨fresh, _⟩
  · exact gone.2 other old
  · exact absurd gone.1 (not_lt.mpr fresh)

theorem tracks_of_ages (ages : Ages before later) (tracks : before.Tracks identity message) :
    later.Tracks identity message := by
  refine ⟨tracks.1.trans_le ages.1, fun other member => ?_⟩
  rcases ages.2 _ member with old | ⟨fresh, _⟩
  · exact tracks.2 other old
  · exact absurd tracks.1 (not_lt.mpr fresh)

theorem numbered_of_ages (ages : Ages before later) (numbered : before.Numbered) :
    later.Numbered := by
  intro entry member
  rcases ages.2 entry member with old | ⟨_, past⟩
  · exact (numbered entry old).trans_le ages.1
  · exact past

end later

theorem post_tracks {queue : MessageQueue α} (numbered : queue.Numbered) (message : α) :
    (queue.post message).Tracks queue.next message := by
  refine ⟨Nat.lt_succ_self _, fun other member => ?_⟩
  rcases List.mem_append.mp member with old | new
  · exact absurd (numbered _ old) (lt_irrefl _)
  · exact congrArg Prod.snd (List.mem_singleton.mp new)

theorem gone_of_empty {queue : MessageQueue α} {identity : ℕ} (none : queue.pending = [])
    (past : identity < queue.next) : queue.Gone identity :=
  ⟨past, fun other member => by simp [none] at member⟩

end MessageQueue

end AirCast
