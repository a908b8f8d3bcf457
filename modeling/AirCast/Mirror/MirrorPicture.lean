import AirCast.CString
import AirCast.Lib.MemoryBlock

/-! # Pictures from length fields to start codes

The branch of `video_mirroring_process` for payload type 0.  It copies the access
unit into `mirrbuff`, walks it by its length fields and overwrites each of them
with a start code, in place. -/

set_option autoImplicit false

namespace AirCast.Mirror

def mirrorBuffSize : ℕ := 4 * 1024 * 1024

def startCode : Bytes := [0, 0, 0, 1]

def bigEndian (bytes : Bytes) : ℕ := bytes.foldl (fun value b => 256 * value + b.toNat) 0

/-- The `while` loop, at most `fuel` rounds; `none` is a read or a write outside the buffer,
or a loop that has not ended. -/
def rewriteHeads : ℕ → MemoryBlock UInt8 → ℤ → ℤ → Option (MemoryBlock UInt8)
  | 0, _, _, _ => none
  | fuel + 1, mirrbuff, buflen, rLen =>
      if rLen < buflen then
        if rLen < 0 then none
        else do
          let head ← mirrbuff.loadAt rLen.toNat 4
          let next := toInt (toInt (rLen + 4) + bigEndian head)
          let mirrbuff ← mirrbuff.store rLen.toNat startCode
          rewriteHeads fuel mirrbuff buflen next
      else some mirrbuff

/-- `mirrbuff` after the call, and the bytes handed to `write264Stream`. -/
def processPicture (fuel : ℕ) (mirrbuff : MemoryBlock UInt8) (buffer : Bytes) :
    Option (MemoryBlock UInt8 × Bytes) := do
  let mirrbuff ← mirrbuff.store 0 buffer
  let mirrbuff ← rewriteHeads fuel mirrbuff buffer.length 0
  let data ← mirrbuff.load buffer.length
  return (mirrbuff, data)

def lengthField (n : ℕ) : Bytes :=
  [UInt8.ofNat (n / 2 ^ 24), UInt8.ofNat (n / 2 ^ 16), UInt8.ofNat (n / 2 ^ 8), UInt8.ofNat n]

def avcc (units : List Bytes) : Bytes := units.flatMap fun unit => lengthField unit.length ++ unit

def annexB (units : List Bytes) : Bytes := units.flatMap fun unit => startCode ++ unit

theorem bigEndian_lengthField {n : ℕ} (small : n < 2 ^ 32) : bigEndian (lengthField n) = n := by
  simp only [bigEndian, lengthField, List.foldl_cons, List.foldl_nil, UInt8.toNat_ofNat']
  omega

theorem lengthField_bigEndian {word : Bytes} (four : word.length = 4) :
    word = lengthField (bigEndian word) ∧ bigEndian word < 2 ^ 32 := by
  obtain ⟨a, b, c, d, rfl⟩ : ∃ a b c d, word = [a, b, c, d] := by
    rcases word with _ | ⟨a, _ | ⟨b, _ | ⟨c, _ | ⟨d, _ | _⟩⟩⟩⟩ <;> simp at four
    exact ⟨a, b, c, d, rfl⟩
  have a8 := a.toNat_lt
  have b8 := b.toNat_lt
  have c8 := c.toNat_lt
  have d8 := d.toNat_lt
  have byte (x : UInt8) (n : ℕ) (same : n % 256 = x.toNat) : x = UInt8.ofNat n :=
    UInt8.toNat_inj.mp (same.symm.trans (UInt8.toNat_ofNat' (n := n)).symm)
  simp only [bigEndian, lengthField, List.foldl_cons, List.foldl_nil]
  refine ⟨?_, by omega⟩
  congr
  · exact byte a _ (by omega)
  · exact byte b _ (by omega)
  · exact byte c _ (by omega)
  · exact byte d _ (by omega)

theorem avcc_cons (unit : Bytes) (rest : List Bytes) :
    avcc (unit :: rest) = lengthField unit.length ++ (unit ++ avcc rest) := by
  simp [avcc]

theorem annexB_cons (unit : Bytes) (rest : List Bytes) :
    annexB (unit :: rest) = startCode ++ (unit ++ annexB rest) := by
  simp [annexB]

theorem annexB_concat (units : List Bytes) (unit : Bytes) :
    annexB (units ++ [unit]) = annexB units ++ (startCode ++ unit) := by
  simp [annexB]

theorem length_annexB (units : List Bytes) : (annexB units).length = (avcc units).length := by
  induction units with
  | nil => rfl
  | cons unit rest ih =>
      rw [annexB_cons, avcc_cons]
      simp only [List.length_append, ih]
      rfl

/-- With the first units rewritten, each round rewrites the next one. -/
theorem rewriteHeads_units (buflen : ℕ) (small : buflen ≤ mirrorBuffSize)
    (back : List (Option UInt8)) (fuel : ℕ) (rest : List Bytes) :
    ∀ (done : List Bytes) (mirrbuff : MemoryBlock UInt8),
      (annexB done).length + (avcc rest).length ≤ buflen →
      mirrbuff.cells = (annexB done).map some ++ ((avcc rest).map some ++ back) →
      rewriteHeads (rest.length + fuel) mirrbuff buflen (annexB done).length =
        rewriteHeads fuel ⟨(annexB (done ++ rest)).map some ++ back⟩ buflen
          (annexB (done ++ rest)).length := by
  induction rest with
  | nil =>
      intro done mirrbuff total cells
      rw [List.append_nil, List.length_nil, Nat.zero_add]
      obtain ⟨found⟩ := mirrbuff
      obtain rfl : found = _ := cells
      rfl
  | cons unit rest ih =>
      intro done mirrbuff total cells
      rw [avcc_cons] at total cells
      simp only [List.length_append] at total
      have fieldLength : (lengthField unit.length).length = 4 := rfl
      have fits : (annexB done).length + 4 + unit.length ≤ mirrorBuffSize := by omega
      have inside : ((annexB done).length : ℤ) < buflen := by omega
      have bound : mirrorBuffSize < 2 ^ 31 := by decide
      have field : mirrbuff.loadAt (annexB done).length 4 = some (lengthField unit.length) := by
        rw [← List.length_map some]
        refine MemoryBlock.loadAt_middle _ (lengthField unit.length)
          ((unit ++ avcc rest).map some ++ back) ?_
        rw [cells, List.map_append, List.append_assoc]
      have next : toInt (toInt ((annexB done).length + 4) + unit.length) =
          (annexB (done ++ [unit])).length := by
        have offset : toInt ((annexB done).length + 4) = (annexB done).length + 4 :=
          toInt_small (by omega) (by omega)
        rw [annexB_concat, offset, toInt_small (by omega) (by omega)]
        simp only [List.length_append, startCode, List.length_cons, List.length_nil]
        omega
      have stored : mirrbuff.store (annexB done).length startCode =
          some ⟨(annexB done).map some ++
            (startCode.map some ++ ((unit ++ avcc rest).map some ++ back))⟩ := by
        rw [← List.length_map some]
        refine MemoryBlock.store_middle _ (lengthField unit.length) _ ?_ rfl
        rw [cells, List.map_append, List.append_assoc]
      rw [List.length_cons, Nat.add_right_comm, rewriteHeads, if_pos inside, if_neg (by omega),
        Int.toNat_natCast, field]
      simp only [Option.bind_eq_bind, Option.bind_some, stored,
        bigEndian_lengthField (show unit.length < 2 ^ 32 by omega), next]
      rw [ih (done ++ [unit]) _ ?_ ?_, List.append_assoc, List.singleton_append]
      · rw [annexB_concat]
        simp only [List.length_append, startCode, List.length_cons, List.length_nil]
        omega
      · simp [annexB_concat]

theorem rewriteHeads_avcc (units : List Bytes) (back : List (Option UInt8)) {fuel : ℕ}
    (small : (avcc units).length ≤ mirrorBuffSize) (enough : units.length < fuel) :
    rewriteHeads fuel ⟨(avcc units).map some ++ back⟩ (avcc units).length 0 =
      some ⟨(annexB units).map some ++ back⟩ := by
  obtain ⟨spare, rfl⟩ : ∃ spare, fuel = units.length + (spare + 1) :=
    ⟨fuel - units.length - 1, by omega⟩
  have walk := rewriteHeads_units (avcc units).length small back (spare + 1) units []
    ⟨(avcc units).map some ++ back⟩ (by simp [annexB]) (by simp [annexB])
  have ended : ¬ (((annexB units).length : ℤ) < (avcc units).length) := by
    rw [length_annexB]
    omega
  rw [List.nil_append, rewriteHeads, if_neg ended] at walk
  simpa only [annexB, List.flatMap_nil, List.length_nil, Nat.cast_zero] using walk

/-- Every access unit of length fields and NAL units that fits the buffer is handed on with
start codes in their place, in as many rounds as it has units and one more. -/
theorem processPicture_annexB (units : List Bytes) (mirrbuff : MemoryBlock UInt8) (fuel : ℕ)
    (capacity : mirrbuff.capacity = mirrorBuffSize)
    (fits : (avcc units).length ≤ mirrorBuffSize) (enough : units.length < fuel) :
    (annexB units).length = (avcc units).length ∧
      ∃ after, processPicture fuel mirrbuff (avcc units) = some (after, annexB units) := by
  refine ⟨length_annexB units, ?_⟩
  have empty : mirrbuff.Holds [] := mirrbuff.holds_nil
  obtain ⟨copied, stored, holds⟩ := empty.store (avcc units) (by simpa [capacity] using fits)
  obtain ⟨back, cells⟩ := holds
  have rewritten := rewriteHeads_avcc units back fits enough
  have whole : copied = ⟨(avcc units).map some ++ back⟩ := by
    cases copied
    exact congrArg MemoryBlock.mk cells.symm
  rw [← whole] at rewritten
  have holds : (⟨(annexB units).map some ++ back⟩ : MemoryBlock UInt8).Holds (annexB units) :=
    List.prefix_append _ _
  have loaded := holds.load
  rw [length_annexB] at loaded
  refine ⟨⟨(annexB units).map some ++ back⟩, ?_⟩
  simp only [List.length_nil] at stored
  simp only [processPicture, stored, Option.bind_eq_bind, Option.bind_some, rewritten, loaded]
  rfl

theorem twoUnits_annexB :
    (annexB [[0x65, 0x88], []]).length = (avcc [[0x65, 0x88], []]).length ∧
      ∃ after, processPicture 3 (.alloc mirrorBuffSize) (avcc [[0x65, 0x88], []]) =
        some (after, annexB [[0x65, 0x88], []]) :=
  processPicture_annexB [[0x65, 0x88], []] (.alloc mirrorBuffSize) 3
    (MemoryBlock.capacity_alloc mirrorBuffSize) (by decide) (by decide)

end AirCast.Mirror
