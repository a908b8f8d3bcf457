import AirCast.Mirror.MirrorPicture

/-! # Mirror payloads and the bounds of their parsers

A picture is walked by its length fields, a codec record by its two 16-bit lengths.  For
the walk the buffer is a block of as many cells as the payload has bytes, so an access at
or behind the end of the payload fails. -/

set_option autoImplicit false

namespace AirCast.Mirror

/-- The bytes of `head` from `offset` on; `none` is a read behind the payload. -/
def headBytes (head : Bytes) (offset n : ℕ) : Option Bytes :=
  if offset + n ≤ head.length then some ((head.drop offset).take n) else none

/-- The part of `video_mirroring_open` and of `video_mirroring_process` that makes `data` of
the SPS and the PPS.  The counts are read for the log only. -/
def codecRecord (head : Bytes) : Option Bytes := do
  let _spscnt ← headBytes head 5 1
  let spsnalsize := bigEndian (← headBytes head 6 2)
  let _ppscnt ← headBytes head (8 + spsnalsize) 1
  let ppsnalsize := bigEndian (← headBytes head (9 + spsnalsize) 2)
  let sps ← headBytes head 8 spsnalsize
  let pps ← headBytes head (11 + spsnalsize) ppsnalsize
  return startCode ++ sps ++ (startCode ++ pps)

def fieldAt (head : Bytes) (offset : ℕ) : ℕ := bigEndian ((head.drop offset).take 2)

def WholeRecord (head : Bytes) : Prop :=
  11 + fieldAt head 6 + fieldAt head (9 + fieldAt head 6) ≤ head.length

theorem headBytes_eq {head : Bytes} {offset n : ℕ} {bytes : Bytes} :
    headBytes head offset n = some bytes ↔
      offset + n ≤ head.length ∧ (head.drop offset).take n = bytes := by
  rw [headBytes]
  split
  next inside => simp [inside]
  next outside => simp [outside]

theorem codecRecord_iff (head : Bytes) : (codecRecord head).isSome ↔ WholeRecord head := by
  simp only [Option.isSome_iff_exists, codecRecord, Option.bind_eq_bind, Option.bind_eq_some_iff,
    headBytes_eq, Option.pure_def, Option.some.injEq]
  constructor
  · rintro ⟨_, _, -, _, ⟨_, rfl⟩, _, -, _, ⟨_, rfl⟩, _, -, _, ⟨inside, -⟩, -⟩
    rw [WholeRecord, fieldAt, fieldAt]
    omega
  · intro inside
    rw [WholeRecord, fieldAt, fieldAt] at inside
    exact ⟨_, _, ⟨by omega, rfl⟩, _, ⟨by omega, rfl⟩, _, ⟨by omega, rfl⟩, _, ⟨by omega, rfl⟩, _,
      ⟨by omega, rfl⟩, _, ⟨by omega, rfl⟩, rfl⟩

/-- The loop ends and touches only the bytes of the payload. -/
def WalksInside (buffer : Bytes) : Prop :=
  ∃ fuel after, rewriteHeads fuel ⟨buffer.map some⟩ buffer.length 0 = some after

/-- Whole units, behind them nothing or a last one that is cut off.  The end that the length
field of the last one stands for fits an `int`. -/
def WholeUnits (buffer : Bytes) : Prop :=
  ∃ units tail, buffer = avcc units ++ tail ∧
    (tail = [] ∨ ∃ field rest, tail = lengthField field ++ rest ∧ rest.length < field ∧
      (avcc units).length + 4 + field < 2 ^ 31)

/-- Behind whole units stands a length field that carries the offset over `2 ^ 32`, back into
what has been walked. -/
def JumpsBack (buffer : Bytes) : Prop :=
  ∃ units field rest, buffer = avcc units ++ (lengthField field ++ rest) ∧ field < 2 ^ 32 ∧
    2 ^ 32 ≤ (avcc units).length + 4 + field

/-- Every payload is whole units and a rest that no whole unit begins. -/
theorem exists_units (n : ℕ) : ∀ buffer : Bytes, buffer.length ≤ n →
    ∃ units tail, buffer = avcc units ++ tail ∧
      (tail.length < 4 ∨ ∃ field rest, field < 2 ^ 32 ∧ tail = lengthField field ++ rest ∧
        rest.length < field) := by
  induction n with
  | zero =>
      intro buffer short
      exact ⟨[], buffer, rfl, .inl (by omega)⟩
  | succ n ih =>
      intro buffer short
      by_cases cut : buffer.length < 4
      · exact ⟨[], buffer, rfl, .inl cut⟩
      have four : (buffer.take 4).length = 4 := by
        rw [List.length_take]
        omega
      obtain ⟨word, small⟩ := lengthField_bigEndian four
      have split : buffer = lengthField (bigEndian (buffer.take 4)) ++ buffer.drop 4 := by
        rw [← word, List.take_append_drop]
      by_cases whole : (buffer.drop 4).length < bigEndian (buffer.take 4)
      · exact ⟨[], buffer, rfl, .inr ⟨_, _, small, split, whole⟩⟩
      · have behind : ((buffer.drop 4).drop (bigEndian (buffer.take 4))).length ≤ n := by
          simp only [List.length_drop]
          omega
        obtain ⟨units, tail, rest, noUnit⟩ := ih _ behind
        refine ⟨(buffer.drop 4).take (bigEndian (buffer.take 4)) :: units, tail, ?_, noUnit⟩
        have unitLength : ((buffer.drop 4).take (bigEndian (buffer.take 4))).length =
            bigEndian (buffer.take 4) := by
          rw [List.length_take]
          omega
        rw [avcc_cons, unitLength, List.append_assoc, List.append_assoc, ← rest,
          List.take_append_drop, ← split]

theorem rewriteHeads_more (extra : ℕ) {buflen : ℤ} {after : MemoryBlock UInt8} :
    ∀ (fuel : ℕ) (mirrbuff : MemoryBlock UInt8) (rLen : ℤ),
      rewriteHeads fuel mirrbuff buflen rLen = some after →
      rewriteHeads (fuel + extra) mirrbuff buflen rLen = some after := by
  intro fuel
  induction fuel with
  | zero => intro mirrbuff rLen found; cases found
  | succ fuel ih =>
      intro mirrbuff rLen found
      rw [Nat.add_right_comm, rewriteHeads]
      rw [rewriteHeads] at found
      split at found
      next more =>
        split at found
        next => cases found
        next =>
          simp only [Option.bind_eq_bind, Option.bind_eq_some_iff] at found ⊢
          obtain ⟨head, loaded, stored, written, rest⟩ := found
          rw [if_pos more, if_neg ‹_›]
          simp only [Option.bind_eq_some_iff]
          exact ⟨head, loaded, stored, written, ih _ _ rest⟩
      next done => rw [if_neg done, found]

section tail

variable (units : List Bytes) (tail : Bytes)
  (small : (avcc units ++ tail).length ≤ mirrorBuffSize)

def atTail (fuel : ℕ) : Option (MemoryBlock UInt8) :=
  rewriteHeads fuel ⟨(annexB units).map some ++ tail.map some⟩ (avcc units ++ tail).length
    (avcc units).length

include small

theorem walksInside_iff_tail :
    WalksInside (avcc units ++ tail) ↔ ∃ fuel after, atTail units tail fuel = some after := by
  have walk (fuel : ℕ) : rewriteHeads (units.length + fuel) ⟨(avcc units ++ tail).map some⟩
      (avcc units ++ tail).length 0 = atTail units tail fuel := by
    have walk := rewriteHeads_units (avcc units ++ tail).length small (tail.map some) fuel units []
      ⟨(avcc units ++ tail).map some⟩ (by simp [annexB]) (by simp [annexB])
    rw [List.nil_append, length_annexB units] at walk
    exact walk
  constructor
  · rintro ⟨fuel, after, found⟩
    refine ⟨fuel, after, ?_⟩
    rw [← walk, Nat.add_comm]
    exact rewriteHeads_more _ _ _ _ found
  · rintro ⟨fuel, after, found⟩
    exact ⟨_, after, (walk fuel).trans found⟩

theorem walksInside_nil (whole : tail = []) : WalksInside (avcc units ++ tail) := by
  subst whole
  exact (walksInside_iff_tail units [] small).mpr ⟨1, _, if_neg (by simp)⟩

theorem not_walksInside_fragment (present : tail ≠ []) (short : tail.length < 4) :
    ¬ WalksInside (avcc units ++ tail) := by
  rw [walksInside_iff_tail units tail small]
  rintro ⟨_ | fuel, after, found⟩
  · cases found
  have some := List.length_pos_iff.mpr present
  have more : ((avcc units).length : ℤ) < (avcc units ++ tail).length := by
    rw [List.length_append]
    omega
  have outside : MemoryBlock.loadAt ⟨(annexB units).map Option.some ++ tail.map Option.some⟩
      (avcc units).length 4 = none := by
    rw [MemoryBlock.loadAt, if_neg]
    simp only [MemoryBlock.capacity, List.length_append, List.length_map, length_annexB]
    omega
  rw [atTail, rewriteHeads, if_pos more, if_neg (by omega), Int.toNat_natCast, outside] at found
  cases found

theorem atTail_field (field : ℕ) (rest : Bytes) (bounded : field < 2 ^ 32)
    (split : tail = lengthField field ++ rest) (fuel : ℕ) :
    atTail units tail (fuel + 1) =
      rewriteHeads fuel ⟨(annexB units).map some ++ (startCode.map some ++ rest.map some)⟩
        (avcc units ++ tail).length (toInt ((avcc units).length + 4 + field)) := by
  subst split
  have fieldLength : (lengthField field).length = 4 := rfl
  have bound : mirrorBuffSize < 2 ^ 31 := by decide
  simp only [List.length_append] at small
  have more : ((avcc units).length : ℤ) < (avcc units ++ (lengthField field ++ rest)).length := by
    simp only [List.length_append]
    omega
  have offset : toInt ((avcc units).length + 4) = (avcc units).length + 4 :=
    toInt_small (by omega) (by omega)
  have cells : (⟨(annexB units).map some ++ (lengthField field ++ rest).map some⟩ :
      MemoryBlock UInt8).cells =
      (annexB units).map some ++ ((lengthField field).map some ++ rest.map some) := by
    rw [List.map_append]
  have loaded := MemoryBlock.loadAt_middle _ (lengthField field) _ cells
  have stored := MemoryBlock.store_middle _ (lengthField field) _ cells
    (show startCode.length = (lengthField field).length from rfl)
  rw [List.length_map, length_annexB] at loaded stored
  rw [fieldLength] at loaded
  rw [atTail, rewriteHeads, if_pos more, if_neg (by omega), Int.toNat_natCast, loaded]
  simp only [Option.bind_eq_bind, Option.bind_some, stored, bigEndian_lengthField bounded, offset]

/-- What becomes of a last unit is decided by the `int` its length field leads to. -/
theorem walksInside_cut_iff (field : ℕ) (rest : Bytes) (bounded : field < 2 ^ 32)
    (split : tail = lengthField field ++ rest) (cut : rest.length < field)
    (forward : (avcc units).length + 4 + field < 2 ^ 32) :
    WalksInside (avcc units ++ tail) ↔ (avcc units).length + 4 + field < 2 ^ 31 := by
  have total : (avcc units ++ tail).length = (avcc units).length + 4 + rest.length := by
    rw [split, List.length_append, List.length_append]
    show _ + (4 + rest.length) = _
    omega
  rw [walksInside_iff_tail units tail small]
  constructor
  · rintro ⟨_ | fuel, after, found⟩
    · cases found
    by_contra large
    have negative : toInt ((avcc units).length + 4 + field) =
        (avcc units).length + 4 + field - 4294967296 := by
      rw [toInt, ← Int.sub_bmod_right]
      exact Int.bmod_eq_of_le (by omega) (by omega)
    rw [atTail_field units tail small field rest bounded split, negative] at found
    cases fuel with
    | zero => cases found
    | succ fuel =>
        rw [rewriteHeads, if_pos (by omega), if_pos (by omega)] at found
        cases found
  · intro fits
    have next : toInt ((avcc units).length + 4 + field) = (avcc units).length + 4 + field :=
      toInt_small (by omega) (by omega)
    have round := atTail_field units tail small field rest bounded split 1
    rw [next] at round
    exact ⟨2, _, round.trans (if_neg (by omega))⟩

end tail

theorem walksInside_iff (buffer : Bytes) (small : buffer.length ≤ mirrorBuffSize) :
    (WholeUnits buffer → WalksInside buffer) ∧
      (WalksInside buffer → WholeUnits buffer ∨ JumpsBack buffer) := by
  constructor
  · rintro ⟨units, tail, rfl, whole | ⟨field, rest, split, cut, fits⟩⟩
    · exact walksInside_nil units tail small whole
    · exact (walksInside_cut_iff units tail small field rest (by omega) split cut
        (by omega)).mpr fits
  · intro walks
    obtain ⟨units, tail, rfl, fragment | ⟨field, rest, bounded, split, cut⟩⟩ :=
      exists_units buffer.length buffer le_rfl
    · by_cases present : tail = []
      · exact .inl ⟨units, tail, rfl, .inl present⟩
      · exact absurd walks (not_walksInside_fragment units tail small present fragment)
    · by_cases forward : (avcc units).length + 4 + field < 2 ^ 32
      · have fits := (walksInside_cut_iff units tail small field rest bounded split cut
          forward).mp walks
        exact .inl ⟨units, tail, rfl, .inr ⟨field, rest, split, cut, fits⟩⟩
      · exact .inr ⟨units, field, rest, by rw [split], bounded, not_lt.mp forward⟩

/-- The payloads that the connection thread hands on: pictures (types 0 and 9) and codec
records (type 1). -/
inductive PayloadKind where
  | picture
  | codec
  deriving DecidableEq

/-- The parser of the kind touches only the payload, and ends. -/
def ParsedInside : PayloadKind → Bytes → Prop
  | .picture, payload => WalksInside payload
  | .codec, payload => (codecRecord payload).isSome

def WholePayload : PayloadKind → Bytes → Prop
  | .picture, payload => WholeUnits payload
  | .codec, payload => WholeRecord payload

/-- For every payload the connection thread accepts: a whole one is parsed inside its bytes,
and no other one is, but for pictures whose walk jumps back. -/
theorem parsedInside_iff (kind : PayloadKind) (payload : Bytes)
    (accepted : 1 ≤ payload.length ∧ payload.length ≤ mirrorBuffSize) :
    (WholePayload kind payload → ParsedInside kind payload) ∧
      (ParsedInside kind payload →
        WholePayload kind payload ∨ kind = .picture ∧ JumpsBack payload) := by
  cases kind with
  | picture =>
      obtain ⟨whole, inside⟩ := walksInside_iff payload accepted.2
      exact ⟨whole, fun walks => (inside walks).imp_right fun back => ⟨rfl, back⟩⟩
  | codec =>
      exact ⟨(codecRecord_iff payload).mpr, fun parsed => .inl ((codecRecord_iff payload).mp parsed)⟩

theorem oneSlice_parsedInside : ParsedInside .picture [0, 0, 0, 2, 0x65, 0x88] :=
  (parsedInside_iff .picture [0, 0, 0, 2, 0x65, 0x88] (by decide)).1
    ⟨[[0x65, 0x88]], [], rfl, .inl rfl⟩

/-- A picture of one byte, and a record cut off behind the length of its SPS. -/
theorem cutPayloads_outside :
    ¬ ParsedInside .picture [0] ∧ ¬ ParsedInside .codec [1, 0x64, 0, 0x28, 0xff, 0xe1, 0, 9] := by
  constructor
  · exact not_walksInside_fragment [] [0] (by decide) (by decide) (by decide)
  · rw [ParsedInside]
    decide

end AirCast.Mirror
