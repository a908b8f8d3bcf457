import Mathlib

/-! # Where a ring keeps its content

The cells of a ring that is never full, with a read and a write position: the
content lies in one piece, or in two pieces around the end of the cells.  At least
one cell stays free, so equal positions mean an empty ring. -/

set_option autoImplicit false

namespace AirCast

variable {α : Type*}

def overwrite (cells : List α) (position : ℕ) (values : List α) : List α :=
  cells.take position ++ values ++ cells.drop (position + values.length)

theorem overwrite_middle {front middle back values : List α}
    (same : values.length = middle.length) :
    overwrite (front ++ (middle ++ back)) front.length values = front ++ (values ++ back) := by
  have behind : (front ++ (middle ++ back)).drop (front.length + values.length) = back := by
    rw [← List.drop_drop, List.drop_left, same, List.drop_left]
  rw [overwrite, behind, List.take_left, List.append_assoc]

theorem take_overwrite {cells : List α} (values : List α) {position : ℕ} (inside : position ≤ cells.length) :
    (overwrite cells position values).take (position + values.length) =
      cells.take position ++ values := by
  refine List.take_left' ?_
  rw [List.length_append, List.length_take]
  omega

def window (cells : List α) (position count : ℕ) : List α := (cells.drop position).take count

theorem window_middle {front middle back : List α} :
    window (front ++ (middle ++ back)) front.length middle.length = middle := by
  rw [window, List.drop_left, List.take_left]

inductive RingLayout (cells : List α) (read write : ℕ) (content : List α) : Prop
  | straight (front back : List α) (layout : cells = front ++ (content ++ back))
      (readAt : read = front.length) (writeAt : write = front.length + content.length)
      (room : back ≠ [])
  | wrapped (first second gap : List α) (layout : cells = second ++ (gap ++ first))
      (split : content = first ++ second) (readAt : read = second.length + gap.length)
      (writeAt : write = second.length) (room : gap ≠ []) (some : first ≠ [])

namespace RingLayout

variable {cells content : List α} {read write : ℕ}

theorem length_lt (layout : RingLayout cells read write content) :
    content.length < cells.length := by
  cases layout with
  | straight front back cells _ _ room =>
      have positive := List.length_pos_of_ne_nil room
      simp only [cells, List.length_append]
      omega
  | wrapped first second gap cells split _ _ room _ =>
      have positive := List.length_pos_of_ne_nil room
      simp only [cells, split, List.length_append]
      omega

theorem read_lt (layout : RingLayout cells read write content) : read < cells.length := by
  cases layout with
  | straight front back layout readAt writeAt room =>
      have positive := List.length_pos_of_ne_nil room
      simp only [layout, readAt, List.length_append]
      omega
  | wrapped first second gap layout split readAt writeAt room some =>
      have positive := List.length_pos_of_ne_nil some
      simp only [layout, readAt, List.length_append]
      omega

theorem write_lt (layout : RingLayout cells read write content) : write < cells.length := by
  cases layout with
  | straight front back layout readAt writeAt room =>
      have positive := List.length_pos_of_ne_nil room
      simp only [layout, writeAt, List.length_append]
      omega
  | wrapped first second gap layout split readAt writeAt room some =>
      have positive := List.length_pos_of_ne_nil room
      simp only [layout, writeAt, List.length_append]
      omega

theorem full_iff (layout : RingLayout cells read write content) :
    (write + 1) % cells.length = read ↔ content.length + 1 = cells.length := by
  have below := layout.write_lt
  cases layout with
  | straight front back layout readAt writeAt room =>
      have size := congrArg List.length layout
      have positive := List.length_pos_of_ne_nil room
      simp only [List.length_append] at size
      by_cases last : write + 1 = cells.length
      · rw [last, Nat.mod_self]
        omega
      · rw [Nat.mod_eq_of_lt (by omega)]
        omega
  | wrapped first second gap layout split readAt writeAt room some =>
      have size := congrArg List.length layout
      have parts := congrArg List.length split
      have positive := List.length_pos_of_ne_nil some
      have gapPositive := List.length_pos_of_ne_nil room
      simp only [List.length_append] at size parts
      rw [Nat.mod_eq_of_lt (by omega)]
      omega

theorem empty (cells : List α) (room : cells ≠ []) : RingLayout cells 0 0 [] :=
  .straight [] cells rfl rfl rfl room

theorem eq_nil_iff (layout : RingLayout cells read write content) :
    read = write ↔ content = [] := by
  cases layout with
  | straight front back cells readAt writeAt room =>
      rw [readAt, writeAt]
      constructor
      · intro same
        exact List.length_eq_zero_iff.mp (by omega)
      · rintro rfl
        rfl
  | wrapped first second gap cells split readAt writeAt room some =>
      have positive := List.length_pos_of_ne_nil room
      rw [readAt, writeAt, split]
      constructor
      · intro same
        omega
      · intro nothing
        exact absurd (List.append_eq_nil_iff.mp nothing).1 some

theorem readSpace (layout : RingLayout cells read write content) :
    (write + cells.length - read) % cells.length = content.length := by
  have small := layout.length_lt
  cases layout with
  | straight front back layout readAt writeAt room =>
      have distance : write + cells.length - read = content.length + cells.length := by omega
      rw [distance, Nat.add_mod_right, Nat.mod_eq_of_lt small]
  | wrapped first second gap layout split readAt writeAt room some =>
      have size := congrArg List.length layout
      have parts := congrArg List.length split
      simp only [List.length_append] at size parts
      have distance : write + cells.length - read = content.length := by omega
      rw [distance, Nat.mod_eq_of_lt small]

theorem writeSpace (layout : RingLayout cells read write content) :
    (read + cells.length - write - 1) % cells.length =
      cells.length - 1 - content.length := by
  have small := layout.length_lt
  cases layout with
  | straight front back layout readAt writeAt room =>
      have distance : read + cells.length - write - 1 = cells.length - 1 - content.length := by
        omega
      rw [distance, Nat.mod_eq_of_lt (by omega)]
  | wrapped first second gap layout split readAt writeAt room some =>
      have size := congrArg List.length layout
      have parts := congrArg List.length split
      simp only [List.length_append] at size parts
      have distance : read + cells.length - write - 1 =
          (cells.length - 1 - content.length) + cells.length := by omega
      rw [distance, Nat.add_mod_right, Nat.mod_eq_of_lt (by omega)]

theorem rotated (layout : RingLayout cells read write content) :
    (cells.rotate read).take ((write + cells.length - read) % cells.length) = content := by
  rw [layout.readSpace]
  cases layout with
  | straight front back layout readAt writeAt room =>
      rw [layout, readAt, List.rotate_append_length_eq, List.append_assoc, List.take_left]
  | wrapped first second gap layout split readAt writeAt room some =>
      rw [layout, readAt, ← List.length_append, ← List.append_assoc,
        List.rotate_append_length_eq, split, ← List.append_assoc, List.take_left]

/-- Values that end before the last cell are written in one piece. -/
theorem write_inside (layout : RingLayout cells read write content) {values : List α}
    (free : values.length < cells.length - content.length)
    (inside : write + values.length < cells.length) :
    RingLayout (overwrite cells write values) read (write + values.length)
      (content ++ values) := by
  cases layout with
  | straight front back layout readAt writeAt room =>
      have size := congrArg List.length layout
      simp only [List.length_append] at size
      have cut : back = back.take values.length ++ back.drop values.length :=
        (List.take_append_drop _ _).symm
      refine .straight front (back.drop values.length) ?_ readAt ?_ ?_
      · rw [layout, writeAt, ← List.length_append, ← List.append_assoc, cut,
          overwrite_middle (by rw [List.length_take]; omega)]
        simp
      · rw [writeAt, List.length_append]
        omega
      · rw [ne_eq, List.drop_eq_nil_iff]
        omega
  | wrapped first second gap layout split readAt writeAt room some =>
      have size := congrArg List.length layout
      have parts := congrArg List.length split
      simp only [List.length_append] at size parts
      have cut : gap = gap.take values.length ++ gap.drop values.length :=
        (List.take_append_drop _ _).symm
      refine .wrapped first (second ++ values) (gap.drop values.length) ?_ ?_ ?_ ?_ ?_ some
      · rw [layout, writeAt, cut, List.append_assoc,
          overwrite_middle (by rw [List.length_take]; omega)]
        simp
      · rw [split, List.append_assoc]
      · rw [readAt, List.length_append, List.length_drop]
        omega
      · rw [writeAt, List.length_append]
      · rw [ne_eq, List.drop_eq_nil_iff]
        omega

theorem write_toEnd (layout : RingLayout cells read write content) {values : List α}
    (free : values.length < cells.length - content.length)
    (reaches : write + values.length = cells.length) :
    RingLayout (overwrite cells write values) read 0 (content ++ values) := by
  cases layout with
  | straight front back layout readAt writeAt room =>
      have size := congrArg List.length layout
      simp only [List.length_append] at size
      have positive := List.length_pos_of_ne_nil room
      refine .wrapped (content ++ values) [] front ?_ (List.append_nil _).symm ?_ rfl ?_ ?_
      · have whole : overwrite (front ++ content ++ (back ++ [])) (front ++ content).length values =
            front ++ content ++ (values ++ []) := overwrite_middle (by omega)
        rw [layout, writeAt, ← List.length_append, ← List.append_assoc,
          ← List.append_nil back, whole]
        simp
      · rw [readAt, List.length_nil, Nat.zero_add]
      · exact List.ne_nil_of_length_pos (by omega)
      · exact List.append_ne_nil_of_right_ne_nil _ (List.ne_nil_of_length_pos (by omega))
  | wrapped first second gap layout split readAt writeAt room some =>
      have size := congrArg List.length layout
      have parts := congrArg List.length split
      have positive := List.length_pos_of_ne_nil some
      simp only [List.length_append] at size parts
      omega

/-- A read that ends before the last cell. -/
theorem read_inside (layout : RingLayout cells read write content) {count : ℕ}
    (filled : count ≤ content.length) (inside : read + count < cells.length) :
    window cells read count = content.take count ∧
      RingLayout cells (read + count) write (content.drop count) := by
  cases layout with
  | straight front back layout readAt writeAt room =>
      have cut : content = content.take count ++ content.drop count :=
        (List.take_append_drop _ _).symm
      have length : (content.take count).length = count := by
        rw [List.length_take]
        omega
      constructor
      · rw [layout, readAt, window, List.drop_left, List.take_append_of_le_length filled]
      · refine .straight (front ++ content.take count) back ?_ ?_ ?_ room
        · rw [layout, List.append_assoc, ← List.append_assoc (content.take count),
            List.take_append_drop]
        · rw [readAt, List.length_append, length]
        · rw [writeAt, List.length_append, length, List.length_drop]
          omega
  | wrapped first second gap layout split readAt writeAt room some =>
      have size := congrArg List.length layout
      simp only [List.length_append] at size
      have within : count < first.length := by omega
      have length : (first.take count).length = count := by
        rw [List.length_take]
        omega
      constructor
      · rw [layout, readAt, window, ← List.drop_drop, List.drop_left, List.drop_left, split,
          List.take_append_of_le_length (by omega)]
      · refine .wrapped (first.drop count) second (gap ++ first.take count) ?_ ?_ ?_ writeAt ?_ ?_
        · rw [layout, List.append_assoc gap, List.take_append_drop]
        · rw [split, List.drop_append_of_le_length (by omega)]
        · rw [readAt, List.length_append, length]
          omega
        · exact List.append_ne_nil_of_left_ne_nil room _
        · rw [ne_eq, List.drop_eq_nil_iff]
          omega

theorem read_toEnd (layout : RingLayout cells read write content) {count : ℕ}
    (filled : count ≤ content.length) (reaches : read + count = cells.length) :
    window cells read count = content.take count ∧
      RingLayout cells 0 write (content.drop count) := by
  cases layout with
  | straight front back layout readAt writeAt room =>
      have size := congrArg List.length layout
      have positive := List.length_pos_of_ne_nil room
      simp only [List.length_append] at size
      omega
  | wrapped first second gap layout split readAt writeAt room some =>
      have size := congrArg List.length layout
      simp only [List.length_append] at size
      obtain rfl : count = first.length := by omega
      constructor
      · rw [layout, readAt, window, ← List.drop_drop, List.drop_left, List.drop_left, split,
          List.take_left, List.take_length]
      · rw [split, List.drop_left]
        refine .straight [] (gap ++ first) ?_ rfl ?_ ?_
        · rw [layout, List.nil_append]
        · rw [writeAt, List.length_nil, Nat.zero_add]
        · exact List.append_ne_nil_of_left_ne_nil room _

end RingLayout

end AirCast
