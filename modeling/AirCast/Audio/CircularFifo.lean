import AirCast.Lib.RingLayout

/-! # The queues of chunk pointers

`CircularFifo`: an array of one cell more than the queue's size, a tail index and
a head index.  A push to a full queue and a pop from an empty one fail. -/

set_option autoImplicit false

namespace AirCast.Audio

structure CircularFifo (Element : Type*) where
  array : List Element
  tail : ℕ
  head : ℕ

namespace CircularFifo

variable {Element : Type*}

def empty (uninitialised : List Element) : CircularFifo Element := ⟨uninitialised, 0, 0⟩

def increment (fifo : CircularFifo Element) (idx : ℕ) : ℕ := (idx + 1) % fifo.array.length

/-- `none` is the result `false`. -/
def push (fifo : CircularFifo Element) (item : Element) : Option (CircularFifo Element) :=
  let nextTail := fifo.increment fifo.tail
  if nextTail ≠ fifo.head then
    some { fifo with array := overwrite fifo.array fifo.tail [item], tail := nextTail }
  else none

/-- The item and the queue without it; `none` is the result `false`. -/
def pop (fifo : CircularFifo Element) : Option (Element × CircularFifo Element) :=
  if fifo.head = fifo.tail then none
  else (fifo.array[fifo.head]?).map fun item =>
    (item, { fifo with head := fifo.increment fifo.head })

def elements (fifo : CircularFifo Element) : List Element :=
  (fifo.array.rotate fifo.head).take
    ((fifo.tail + fifo.array.length - fifo.head) % fifo.array.length)

/-- A queue for `size` elements that holds the given ones. -/
structure Holds (fifo : CircularFifo Element) (size : ℕ) (elements : List Element) : Prop where
  capacity : fifo.array.length = size + 1
  layout : RingLayout fifo.array fifo.head fifo.tail elements

variable {fifo : CircularFifo Element} {size : ℕ} {elements : List Element}

theorem Holds.elements_eq (holds : fifo.Holds size elements) : fifo.elements = elements :=
  holds.layout.rotated

theorem Holds.length_le (holds : fifo.Holds size elements) : elements.length ≤ size := by
  have small := holds.layout.length_lt
  rw [holds.capacity] at small
  omega

theorem empty_holds (uninitialised : List Element) (capacity : uninitialised.length = size + 1) :
    (empty uninitialised).Holds size [] :=
  ⟨capacity, RingLayout.empty uninitialised (List.ne_nil_of_length_pos (by omega))⟩

theorem Holds.push (holds : fifo.Holds size elements) (item : Element)
    (room : elements.length < size) :
    ∃ next, fifo.push item = some next ∧ next.Holds size (elements ++ [item]) := by
  have capacity := holds.capacity
  have below := holds.layout.write_lt
  have notFull : fifo.increment fifo.tail ≠ fifo.head := by
    intro same
    have full := holds.layout.full_iff.mp same
    omega
  refine ⟨_, if_pos notFull, ?_, ?_⟩
  · simp only [overwrite, List.length_append, List.length_take, List.length_drop,
      List.length_singleton]
    omega
  · have free : [item].length < fifo.array.length - elements.length := by
      rw [List.length_singleton]
      omega
    by_cases last : fifo.tail + 1 = fifo.array.length
    · have atStart : fifo.increment fifo.tail = 0 := by
        rw [increment, last, Nat.mod_self]
      rw [atStart]
      exact holds.layout.write_toEnd free last
    · have inside : fifo.tail + 1 < fifo.array.length := by omega
      have next : fifo.increment fifo.tail = fifo.tail + 1 := Nat.mod_eq_of_lt inside
      rw [next]
      exact holds.layout.write_inside free inside

theorem Holds.pop_nil (holds : fifo.Holds size []) : fifo.pop = none :=
  if_pos (holds.layout.eq_nil_iff.mpr rfl)

/-- A pop takes the oldest element. -/
theorem Holds.pop_cons {item : Element} {rest : List Element}
    (holds : fifo.Holds size (item :: rest)) :
    ∃ next, fifo.pop = some (item, next) ∧ next.Holds size rest := by
  have below := holds.layout.read_lt
  have notEmpty : fifo.head ≠ fifo.tail := by
    intro same
    exact List.cons_ne_nil item rest (holds.layout.eq_nil_iff.mp same)
  have filled : 1 ≤ (item :: rest).length := by simp
  have moved : window fifo.array fifo.head 1 = [item] ∧
      RingLayout fifo.array (fifo.increment fifo.head) fifo.tail rest := by
    by_cases last : fifo.head + 1 = fifo.array.length
    · have atStart : fifo.increment fifo.head = 0 := by
        rw [increment, last, Nat.mod_self]
      rw [atStart]
      exact holds.layout.read_toEnd filled last
    · have inside : fifo.head + 1 < fifo.array.length := by omega
      have next : fifo.increment fifo.head = fifo.head + 1 := Nat.mod_eq_of_lt inside
      rw [next]
      exact holds.layout.read_inside filled inside
  obtain ⟨read, layout⟩ := moved
  have found : fifo.array[fifo.head]? = some item := by
    rw [window, List.take_one, List.head?_drop] at read
    cases cell : fifo.array[fifo.head]? with
    | none => simp [cell] at read
    | some other =>
        rw [cell] at read
        exact congrArg some (List.head_eq_of_cons_eq read)
  refine ⟨{ fifo with head := fifo.increment fifo.head }, ?_, holds.capacity, layout⟩
  rw [pop, if_neg notEmpty, found]
  rfl

end CircularFifo

end AirCast.Audio
