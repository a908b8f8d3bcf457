import AirCast.Lib.BitCodes
import AirCast.Mirror.SpsParser

/-! # What the reads of the parser find

The parser counts bytes with eight bits, so it reads the buffer as a stream that starts
again after 256 bytes.  Each read ends exactly where the stream has the bits for it. -/

set_option autoImplicit false

namespace AirCast.Mirror

def bitAt (buffer : Bytes) (offset : ℕ) : Option Bool := byteStream buffer (offset % 2048)

section reader

variable (wide : ℕ → BitVec 32) (buffer : Bytes)

/-- The number that the loop of `sps_parser_read_bits` collects. -/
def collect : List Bool → BitVec 32
  | [] => 0
  | bit :: rest => (if bit then shiftOne wide rest.length else 0) ||| collect rest

theorem ends_byteAt {index o o' : ℕ} {b : UInt8} :
    (byteAt buffer index).Ends o b o' ↔ buffer[index]? = some b ∧ o' = o := by
  rw [byteAt, Program.ends_action]
  cases buffer[index]? <;> simp [eq_comm]

theorem masked_iff (b : UInt8) (bitNumber : ℕ) (inside : bitNumber < 8) :
    b.toNat <<< bitNumber &&& 0x80 ≠ 0 ↔ b.toNat.testBit (7 - bitNumber) = true := by
  have mask := Nat.and_two_pow (b.toNat <<< bitNumber) 7
  rw [show (0x80 : ℕ) = 2 ^ 7 from rfl, mask, Nat.testBit_shiftLeft]
  have reached : (7 ≥ bitNumber) := by omega
  simp [reached]

/-- The variables after `c` rounds, at a position of the stream. -/
def cursorAt (count c position : ℕ) (result : BitVec 32) : BitCursor where
  c := c
  index := position / 8 % 256
  bitNumber := position % 8
  outBitNumber := (count + 255 - c) % 256
  result := result

theorem cursorAt_advance {count c : ℕ} (position : ℕ) (result : BitVec 32) (b : UInt8)
    (more : c < count) (small : count < 256) :
    (cursorAt count c position result).advance wide b =
      cursorAt count (c + 1) (position + 1)
        (result ||| if b.toNat.testBit (7 - position % 8) then shiftOne wide (count - 1 - c)
          else 0) := by
  have masked := masked_iff b (position % 8) (Nat.mod_lt _ (by norm_num))
  have out : (count + 255 - c) % 256 = count - 1 - c := by omega
  simp only [BitCursor.advance, cursorAt, BitCursor.mk.injEq, out, masked]
  refine ⟨by omega, by split <;> omega, by split <;> omega, by omega, ?_⟩
  split <;> simp

theorem ends_readBitsRound {count c position o o' : ℕ} {result : BitVec 32}
    {next : BitCursor ⊕ BitVec 32} (more : c < count) (small : count < 256) :
    (readBitsRound wide buffer count (cursorAt count c position result)).Ends o next o' ↔
      ∃ bit, bitAt buffer position = some bit ∧ o' = o ∧
        next = .inl (cursorAt count (c + 1) (position + 1)
          (result ||| if bit then shiftOne wide (count - 1 - c) else 0)) := by
  have place : position % 2048 / 8 = position / 8 % 256 := by omega
  have bitPlace : position % 2048 % 8 = position % 8 := by omega
  have running : (cursorAt count c position result).c < count := more
  simp only [readBitsRound, running, if_true, Program.ends_bind, ends_byteAt, Program.ends_pure,
    cursorAt_advance wide position result _ more small, bitAt, byteStream, place, bitPlace,
    Option.map_eq_some_iff]
  constructor
  · rintro ⟨b, t, ⟨found, rfl⟩, rfl, rfl⟩
    exact ⟨_, ⟨b, found, rfl⟩, rfl, rfl⟩
  · rintro ⟨_, ⟨b, found, rfl⟩, rfl, rfl⟩
    exact ⟨b, o', ⟨found, rfl⟩, rfl, rfl⟩

theorem ends_readBitsLoop {count : ℕ} (small : count < 256) :
    ∀ (left c position : ℕ) (result v : BitVec 32) (o o' : ℕ), c + left = count →
      ((Program.loop (readBitsRound wide buffer count) (cursorAt count c position result)).Ends
          o v o' ↔
        ∃ bits, bits.length = left ∧ Carries (bitAt buffer) position bits ∧
          v = result ||| collect wide bits ∧ o' = o) := by
  intro left
  induction left with
  | zero =>
      intro c position result v o o' whole
      have stopped : readBitsRound wide buffer count (cursorAt count c position result) =
          pure (.inr result) := if_neg (by simp only [cursorAt]; omega)
      rw [Program.ends_loop, stopped]
      simp [List.length_eq_zero_iff, Carries, collect]
  | succ left ih =>
      intro c position result v o o' whole
      have more : c < count := by omega
      have place : count - 1 - c = left := by omega
      rw [Program.ends_loop]
      simp only [ends_readBitsRound wide buffer more small]
      constructor
      · rintro (⟨next, t, ⟨bit, found, rfl, same⟩, rest⟩ | ⟨bit, found, rfl, same⟩)
        · obtain rfl := Sum.inl.inj same
          obtain ⟨bits, rfl, carried, rfl, rfl⟩ := (ih _ _ _ _ _ _ (by omega)).mp rest
          exact ⟨bit :: bits, rfl, ⟨found, carried⟩, by rw [place, collect, BitVec.or_assoc], rfl⟩
        · cases same
      · rintro ⟨_ | ⟨bit, bits⟩, long, carried, rfl, rfl⟩
        · simp at long
        · have long : bits.length = left := by simpa using long
          refine .inl ⟨_, _, ⟨bit, carried.1, rfl, rfl⟩, (ih _ _ _ _ _ _ (by omega)).mpr
            ⟨bits, long, carried.2, ?_, rfl⟩⟩
          rw [place, collect, long, BitVec.or_assoc]

theorem not_ends_readBitsLoop {count : ℕ} (large : 256 ≤ count) (cursor : BitCursor)
    (start : cursor.c < 256) (o : ℕ) (v : BitVec 32) (o' : ℕ) :
    ¬ (Program.loop (readBitsRound wide buffer count) cursor).Ends o v o' := by
  refine Program.not_ends_loop (fun cursor => cursor.c < 256) ?_ ?_ start o v o'
  · intro cursor s next t inside round
    have running : cursor.c < count := by omega
    simp only [readBitsRound, running, if_true, Program.ends_bind, Program.ends_pure] at round
    obtain ⟨b, _, _, same, _⟩ := round
    obtain rfl := Sum.inl.inj same
    exact Nat.mod_lt _ (by norm_num)
  · intro cursor s value t inside round
    have running : cursor.c < count := by omega
    simp only [readBitsRound, running, if_true, Program.ends_bind, Program.ends_pure] at round
    obtain ⟨b, _, _, same, _⟩ := round
    cases same

theorem ends_readBits {count o o' : ℕ} {v : BitVec 32} :
    (readBits wide buffer count).Ends o v o' ↔
      count < 256 ∧ ∃ bits, bits.length = count ∧ Carries (bitAt buffer) o bits ∧
        v = collect wide bits ∧ o' = o + count := by
  have start : (⟨0, o / 8 % 256, (o - o / 8 % 256 * 8) % 256, (count + 255) % 256, 0⟩ : BitCursor) =
      cursorAt count 0 o 0 := by
    simp only [cursorAt, BitCursor.mk.injEq]
    refine ⟨trivial, trivial, by omega, rfl, trivial⟩
  simp only [readBits, Program.ends_bind, Program.ends_action, Program.ends_pure,
    Option.some.injEq, Prod.mk.injEq]
  constructor
  · rintro ⟨_, _, ⟨rfl, rfl⟩, result, t, loop, _, _, ⟨_, rfl⟩, rfl, rfl⟩
    rw [start] at loop
    by_cases small : count < 256
    · obtain ⟨bits, long, carried, rfl, rfl⟩ :=
        (ends_readBitsLoop wide buffer small count 0 o 0 _ _ _ (Nat.zero_add _)).mp loop
      exact ⟨small, bits, long, carried, BitVec.zero_or, rfl⟩
    · exact absurd loop
        (not_ends_readBitsLoop wide buffer (not_lt.mp small) _ (by simp [cursorAt]) _ _ _)
  · rintro ⟨small, bits, long, carried, rfl, rfl⟩
    refine ⟨o, o, ⟨rfl, rfl⟩, _, o, ?_, (), o + count, ⟨trivial, rfl⟩, rfl, rfl⟩
    rw [start]
    exact (ends_readBitsLoop wide buffer small count 0 o 0 _ _ _ (Nat.zero_add _)).mpr
      ⟨bits, long, carried, BitVec.zero_or.symm, rfl⟩

def flagValue (bit : Bool) : BitVec 32 := if bit then 1 else 0

theorem flagValue_eq_zero (bit : Bool) : flagValue bit = 0 ↔ bit = false := by
  cases bit <;> decide

theorem ends_flag {o o' : ℕ} {v : BitVec 32} :
    (readBits wide buffer 1).Ends o v o' ↔
      ∃ bit, Carries (bitAt buffer) o [bit] ∧ v = flagValue bit ∧ o' = o + 1 := by
  have value (bit : Bool) : collect wide [bit] = flagValue bit := by
    cases bit <;> simp [collect, flagValue, shiftOne]
  rw [ends_readBits]
  constructor
  · rintro ⟨_, bits, long, carried, rfl, rfl⟩
    obtain ⟨bit, rfl⟩ := List.length_eq_one_iff.mp long
    exact ⟨bit, carried, value bit, rfl⟩
  · rintro ⟨bit, carried, rfl, rfl⟩
    exact ⟨by norm_num, [bit], rfl, carried, (value bit).symm, rfl⟩

/-- A code that the eight bit counter of `sps_parser_read_bits` can read. -/
structure GolombCode where
  suffix : List Bool
  short : suffix.length < 256

namespace GolombCode

def bits (code : GolombCode) : List Bool := golombBits code.suffix

/-- What `sps_parser_read_ueg` makes of the code. -/
def value (code : GolombCode) : BitVec 32 :=
  if code.suffix = [] then 0
  else shiftOne wide code.suffix.length - 1 + collect wide code.suffix

end GolombCode

def zeroScan (bitcount : ℕ) : Program ℕ ℕ :=
  .loop (fun bitcount => do
    if (← readBits wide buffer 1) = 0 then return .inl (bitcount + 1)
    else return .inr bitcount) bitcount

theorem zeroScan_found {bitcount o v o' : ℕ}
    (ends : (zeroScan wide buffer bitcount).Ends o v o') :
    ∃ zeros, Carries (bitAt buffer) o (List.replicate zeros false ++ [true]) ∧
      v = bitcount + zeros ∧ o' = o + (zeros + 1) := by
  refine Program.loop_induction (fun bitcount o v o' =>
    ∃ zeros, Carries (bitAt buffer) o (List.replicate zeros false ++ [true]) ∧
      v = bitcount + zeros ∧ o' = o + (zeros + 1)) ?_ ?_ ends
  · rintro bitcount o next t v o' round ⟨zeros, carried, rfl, rfl⟩
    rw [Program.ends_bind] at round
    obtain ⟨_, _, flag, round⟩ := round
    obtain ⟨bit, first, rfl, rfl⟩ := (ends_flag wide buffer).mp flag
    cases bit with
    | false =>
        simp only [flagValue, Bool.false_eq_true, if_false, if_true, Program.ends_pure,
          Sum.inl.injEq] at round
        obtain ⟨rfl, rfl⟩ := round
        exact ⟨zeros + 1, ⟨first.1, carried⟩, by omega, by omega⟩
    | true => simp [flagValue] at round
  · rintro bitcount o v o' round
    rw [Program.ends_bind] at round
    obtain ⟨_, _, flag, round⟩ := round
    obtain ⟨bit, first, rfl, rfl⟩ := (ends_flag wide buffer).mp flag
    cases bit with
    | false => simp [flagValue] at round
    | true =>
        obtain ⟨rfl, rfl⟩ : v = bitcount ∧ o' = o + 1 := by simpa [flagValue] using round
        exact ⟨0, first, rfl, rfl⟩

theorem zeroScan_ends (zeros : ℕ) :
    ∀ (bitcount o : ℕ), Carries (bitAt buffer) o (List.replicate zeros false ++ [true]) →
      (zeroScan wide buffer bitcount).Ends o (bitcount + zeros) (o + (zeros + 1)) := by
  induction zeros with
  | zero =>
      intro bitcount o carried
      refine Program.ends_loop.mpr (.inr (Program.ends_bind.mpr
        ⟨1, o + 1, (ends_flag wide buffer).mpr ⟨true, carried, rfl, rfl⟩, ?_⟩))
      simp
  | succ zeros ih =>
      intro bitcount o carried
      refine Program.ends_loop.mpr (.inl ⟨bitcount + 1, o + 1, Program.ends_bind.mpr
        ⟨0, o + 1, (ends_flag wide buffer).mpr ⟨false, ⟨carried.1, trivial⟩, rfl, rfl⟩, ?_⟩, ?_⟩)
      · simp
      · have rest := ih (bitcount + 1) (o + 1) carried.2
        rwa [Nat.add_assoc bitcount, Nat.add_assoc o, Nat.add_comm 1 zeros,
          Nat.add_comm 1 (zeros + 1)] at rest

theorem ends_readUeg {o o' : ℕ} {v : BitVec 32} :
    (readUeg wide buffer).Ends o v o' ↔
      ∃ code : GolombCode, Carries (bitAt buffer) o code.bits ∧ v = code.value wide ∧
        o' = o + code.bits.length := by
  have split (suffix : List Bool) : Carries (bitAt buffer) o (golombBits suffix) ↔
      Carries (bitAt buffer) o (List.replicate suffix.length false ++ [true]) ∧
        Carries (bitAt buffer) (o + (suffix.length + 1)) suffix := by
    rw [golombBits, ← List.singleton_append, ← List.append_assoc, carries_append]
    simp
  constructor
  · intro ends
    rw [readUeg, Program.ends_bind] at ends
    obtain ⟨bitcount, t, scan, ends⟩ := ends
    obtain ⟨zeros, marked, rfl, rfl⟩ := zeroScan_found wide buffer scan
    rw [Nat.zero_add] at ends
    by_cases none : zeros = 0
    · subst none
      obtain ⟨rfl, rfl⟩ : v = 0 ∧ o' = o + 1 := by simpa using ends
      exact ⟨⟨[], by norm_num⟩, marked, rfl, rfl⟩
    · simp only [ne_eq, none, not_false_eq_true, if_true, Program.ends_bind, ends_readBits,
        Program.ends_pure] at ends
      obtain ⟨_, _, ⟨short, suffix, rfl, carried, rfl, rfl⟩, rfl, rfl⟩ := ends
      refine ⟨⟨suffix, short⟩, (split suffix).mpr ⟨marked, carried⟩, ?_, ?_⟩
      · rw [GolombCode.value, if_neg (by simpa using none)]
      · show _ = o + (golombBits suffix).length
        rw [length_golombBits]
        omega
  · rintro ⟨⟨suffix, short⟩, carried, rfl, rfl⟩
    obtain ⟨marked, carried⟩ := (split suffix).mp carried
    rw [readUeg, Program.ends_bind]
    refine ⟨suffix.length, o + (suffix.length + 1), ?_, ?_⟩
    · have scan := zeroScan_ends wide buffer suffix.length 0 o marked
      rwa [Nat.zero_add] at scan
    · by_cases none : suffix = []
      · subst none
        simp [GolombCode.value, GolombCode.bits, golombBits]
      · simp only [ne_eq, List.length_eq_zero_iff, none, not_false_eq_true, if_true,
          Program.ends_bind, ends_readBits, Program.ends_pure]
        refine ⟨_, _, ⟨short, suffix, rfl, carried, rfl, rfl⟩, ?_, ?_⟩
        · rw [GolombCode.value, if_neg none]
        · show o + (golombBits suffix).length = _
          rw [length_golombBits]
          omega

theorem ends_readEg {o o' : ℕ} {v : BitVec 32} :
    (readEg wide buffer).Ends o v o' ↔
      ∃ code : GolombCode, Carries (bitAt buffer) o code.bits ∧
        v = signedValue (code.value wide) ∧ o' = o + code.bits.length := by
  rw [readEg, Program.ends_bind]
  simp only [ends_readUeg, Program.ends_pure]
  constructor
  · rintro ⟨_, _, ⟨code, carried, rfl, rfl⟩, rfl, rfl⟩
    exact ⟨code, carried, rfl, rfl⟩
  · rintro ⟨code, carried, rfl, rfl⟩
    exact ⟨_, _, ⟨code, carried, rfl, rfl⟩, rfl, rfl⟩

end reader

end AirCast.Mirror
