import Mathlib

/-! # Stream ciphers

Every byte is added to a byte of the key stream, which depends on its place alone.  A cipher that
keeps its place from call to call may be given the stream in any pieces. -/

set_option autoImplicit false

namespace AirCast.StreamCipher

def xorStream (key : ℕ → UInt8) : ℕ → List UInt8 → List UInt8
  | _, [] => []
  | place, b :: rest => (b ^^^ key place) :: xorStream key (place + 1) rest

section

variable (key : ℕ → UInt8)

@[simp] theorem xorStream_length (data : List UInt8) :
    ∀ place, (xorStream key place data).length = data.length := by
  induction data with
  | nil => intro place; rfl
  | cons b rest ih => intro place; rw [xorStream, List.length_cons, ih, List.length_cons]

theorem xorStream_append (front back : List UInt8) : ∀ place,
    xorStream key place (front ++ back) =
      xorStream key place front ++ xorStream key (place + front.length) back := by
  induction front with
  | nil => intro place; rfl
  | cons b rest ih =>
      intro place
      rw [List.cons_append, xorStream, ih, xorStream, List.length_cons, List.cons_append,
        show place + 1 + rest.length = place + (rest.length + 1) by omega]

theorem xorStream_twice (data : List UInt8) : ∀ place,
    xorStream key place (xorStream key place data) = data := by
  induction data with
  | nil => intro place; rfl
  | cons b rest ih =>
      intro place
      rw [xorStream, xorStream, ih, UInt8.xor_assoc, UInt8.xor_self, UInt8.xor_zero]

theorem zipWith_xor {key : ℕ → UInt8} (data : List UInt8) : ∀ (buffer : List UInt8) (place : ℕ),
    data.length ≤ buffer.length → (∀ i < data.length, buffer.getD i 0 = key (place + i)) →
      List.zipWith (· ^^^ ·) data buffer = xorStream key place data := by
  induction data with
  | nil => intro buffer place _ _; rfl
  | cons b rest ih =>
      intro buffer place enough holds
      cases buffer with
      | nil => exact absurd enough (Nat.not_succ_le_zero _)
      | cons k buffer =>
          have first := holds 0 (Nat.succ_pos _)
          rw [List.getD_cons_zero, Nat.add_zero] at first
          rw [List.zipWith_cons_cons, xorStream, first,
            ih buffer (place + 1) (Nat.le_of_succ_le_succ enough) fun i inside => by
              have later := holds (i + 1) (Nat.succ_lt_succ inside)
              rwa [List.getD_cons_succ, ← Nat.add_assoc, Nat.add_right_comm] at later]

end

section calls

variable {σ ι : Type} (call : ι → σ → List UInt8 → σ × List UInt8)

def runCalls : σ → List (ι × List UInt8) → σ × List (List UInt8)
  | s, [] => (s, [])
  | s, piece :: rest =>
      let out := call piece.1 s piece.2
      let others := runCalls out.1 rest
      (others.1, out.2 :: others.2)

variable {call} {key : ℕ → UInt8} {At : ℕ → σ → Prop}

theorem runCalls_stream (moves : ∀ i s place data, At place s →
      At (place + data.length) (call i s data).1 ∧ (call i s data).2 = xorStream key place data)
    (pieces : List (ι × List UInt8)) : ∀ (s : σ) (place : ℕ), At place s →
      At (place + (pieces.map Prod.snd).flatten.length) (runCalls call s pieces).1 ∧
        (runCalls call s pieces).2.flatten =
          xorStream key place (pieces.map Prod.snd).flatten := by
  induction pieces with
  | nil => intro s place here; exact ⟨here, rfl⟩
  | cons piece rest ih =>
      intro s place here
      obtain ⟨next, written⟩ := moves piece.1 s place piece.2 here
      obtain ⟨final, others⟩ := ih _ _ next
      rw [List.map_cons, List.flatten_cons, List.length_append, xorStream_append]
      refine ⟨by rwa [← Nat.add_assoc], ?_⟩
      rw [runCalls, List.flatten_cons, written, others]

end calls

end AirCast.StreamCipher
