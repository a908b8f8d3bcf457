import Mathlib

/-! # One allocated block of memory

A block is its cells, each written or still undefined.  `resize` keeps the first
`min old new` cells, `store` succeeds only inside the capacity, and `Holds` says
which written cells stand at the front. -/

set_option autoImplicit false

namespace AirCast

structure MemoryBlock (α : Type*) where
  cells : List (Option α)

namespace MemoryBlock

variable {α : Type*}

def capacity (b : MemoryBlock α) : ℕ := b.cells.length

def alloc (n : ℕ) : MemoryBlock α := ⟨List.replicate n none⟩

def resize (b : MemoryBlock α) (n : ℕ) : MemoryBlock α :=
  ⟨b.cells.take n ++ List.replicate (n - b.capacity) none⟩

/-- `none` when the copy would leave the block. -/
def store (b : MemoryBlock α) (offset : ℕ) (values : List α) : Option (MemoryBlock α) :=
  if offset + values.length ≤ b.capacity then
    some ⟨b.cells.take offset ++ values.map some ++ b.cells.drop (offset + values.length)⟩
  else none

def load (b : MemoryBlock α) (n : ℕ) : Option (List α) := (b.cells.take n).mapM id

def Holds (b : MemoryBlock α) (values : List α) : Prop := values.map some <+: b.cells

theorem Holds.length_le {b : MemoryBlock α} {values : List α} (holds : b.Holds values) :
    values.length ≤ b.capacity := by
  simpa [capacity] using List.IsPrefix.length_le holds

theorem holds_nil (b : MemoryBlock α) : b.Holds [] := List.nil_prefix

@[simp] theorem capacity_alloc (n : ℕ) : (alloc n : MemoryBlock α).capacity = n := by
  simp [alloc, capacity]

@[simp] theorem capacity_resize (b : MemoryBlock α) (n : ℕ) : (b.resize n).capacity = n := by
  simp only [resize, capacity, List.length_append, List.length_take, List.length_replicate]
  omega

theorem Holds.resize {b : MemoryBlock α} {values : List α} (holds : b.Holds values) {n : ℕ}
    (fits : values.length ≤ n) : (b.resize n).Holds values := by
  have kept : values.map some <+: b.cells.take n :=
    List.prefix_take_iff.mpr ⟨holds, by simpa using fits⟩
  exact kept.trans (List.prefix_append _ _)

theorem Holds.store {b : MemoryBlock α} {values : List α} (more : List α)
    (holds : b.Holds values) (fits : values.length + more.length ≤ b.capacity) :
    ∃ after, b.store values.length more = some after ∧ after.Holds (values ++ more) := by
  refine ⟨_, if_pos fits, ?_⟩
  obtain ⟨rest, cells⟩ := holds
  have front : b.cells.take values.length = values.map some := by
    rw [← cells, ← List.length_map some, List.take_left]
  simp only [Holds, front, List.map_append]
  exact List.prefix_append _ _

theorem store_eq_none {b : MemoryBlock α} {offset : ℕ} {values : List α}
    (overrun : b.capacity < offset + values.length) : b.store offset values = none :=
  if_neg (by omega)

theorem length_le_of_store {b after : MemoryBlock α} {offset : ℕ} {values : List α}
    (stored : b.store offset values = some after) : offset + values.length ≤ b.capacity := by
  by_contra overrun
  rw [store_eq_none (by omega)] at stored
  simp at stored

theorem capacity_store {b after : MemoryBlock α} {offset : ℕ} {values : List α}
    (stored : b.store offset values = some after) : after.capacity = b.capacity := by
  have inside := length_le_of_store stored
  rw [store, if_pos inside] at stored
  obtain rfl := Option.some.inj stored
  simp only [capacity, List.length_append, List.length_take, List.length_map,
    List.length_drop] at inside ⊢
  omega

theorem mapM_written (values : List α) : (values.map some).mapM id = some values := by
  induction values with
  | nil => rfl
  | cons v rest ih =>
      rw [List.map_cons, List.mapM_cons, ih]
      rfl

theorem Holds.load {b : MemoryBlock α} {values : List α} (holds : b.Holds values) :
    b.load values.length = some values := by
  obtain ⟨rest, cells⟩ := holds
  have front : b.cells.take values.length = values.map some := by
    rw [← cells, ← List.length_map some, List.take_left]
  rw [MemoryBlock.load, front, mapM_written]

theorem Holds.load_take {b : MemoryBlock α} {values : List α} (holds : b.Holds values) {n : ℕ}
    (within : n ≤ values.length) : b.load n = some (values.take n) := by
  have front : b.Holds (values.take n) :=
    List.IsPrefix.trans ((List.take_prefix n values).map some) holds
  have loaded := front.load
  rwa [List.length_take, Nat.min_eq_left within] at loaded

theorem length_of_mapM : ∀ {cells : List (Option α)} {values : List α},
    cells.mapM id = some values → values.length = cells.length := by
  intro cells
  induction cells with
  | nil => intro values read; simpa using read.symm
  | cons c rest ih =>
      intro values read
      simp only [List.mapM_cons, Option.bind_eq_bind, Option.bind_eq_some_iff, Option.pure_def,
        Option.some.injEq] at read
      obtain ⟨v, -, tail, readTail, rfl⟩ := read
      simp [ih readTail]

theorem length_le_of_load {b : MemoryBlock α} {n : ℕ} {values : List α}
    (loaded : b.load n = some values) : values.length ≤ n := by
  rw [length_of_mapM loaded, List.length_take]
  exact Nat.min_le_left _ _

/-- The `n` cells from `offset` on, `none` when one is outside or was never written. -/
def loadAt (b : MemoryBlock α) (offset n : ℕ) : Option (List α) :=
  if offset + n ≤ b.capacity then ((b.cells.drop offset).take n).mapM id else none

section middle

variable {b : MemoryBlock α} (front : List (Option α)) (middle : List α)
  (back : List (Option α))

theorem loadAt_middle (cells : b.cells = front ++ (middle.map some ++ back)) :
    b.loadAt front.length middle.length = some middle := by
  have inside : front.length + middle.length ≤ b.capacity := by simp [capacity, cells]
  have window : (b.cells.drop front.length).take middle.length = middle.map some := by
    rw [cells, List.drop_left]
    exact List.take_left' (List.length_map some)
  rw [loadAt, if_pos inside, window, mapM_written]

theorem store_middle (cells : b.cells = front ++ (middle.map some ++ back)) {values : List α}
    (same : values.length = middle.length) :
    b.store front.length values = some ⟨front ++ (values.map some ++ back)⟩ := by
  have inside : front.length + values.length ≤ b.capacity := by
    simp only [capacity, cells, List.length_append, List.length_map]
    omega
  have before : b.cells.take front.length = front := by rw [cells, List.take_left]
  have behind : b.cells.drop (front.length + values.length) = back := by
    rw [cells, ← List.drop_drop, List.drop_left]
    exact List.drop_left' (by rw [List.length_map, same])
  rw [store, if_pos inside, before, behind, List.append_assoc]

end middle

end MemoryBlock

end AirCast
