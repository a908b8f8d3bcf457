import AirCast.Lib.LoopProgram
import AirCast.Mirror.MirrorPicture

/-! # Song metadata in DMAP

`decodeDMAP` reads tag, length and content of one item after the other, behind the eight
bytes of the container.  An unsigned offset is kept modulo `2 ^ 32`; a read outside the
buffer fails. -/

set_option autoImplicit false

namespace AirCast.Audio

open AirCast.Mirror

def loadedWord (bytes : Bytes) : BitVec 32 :=
  let byte (index : ℕ) := (bytes.getD index 0).toBitVec.setWidth 32
  byte 0 ||| byte 1 <<< 8 ||| byte 2 <<< 16 ||| byte 3 <<< 24

def endianSwapBE32 (x : BitVec 32) : BitVec 32 :=
  x <<< 24 ||| (x <<< 8 &&& 0x00FF0000) ||| (x >>> 8 &&& 0x0000FF00) ||| x >>> 24

abbrev TagMap := Bytes → Option Bytes

section decoder

variable (buffer : Bytes)

/-- The `n` bytes that are appended to a string. -/
def bytesAt (offset n : ℕ) : Program Unit Bytes :=
  .action fun _ =>
    if offset + n ≤ buffer.length then some ((buffer.drop offset).take n, ()) else none

def decodeItem (size : ℕ) (state : ℕ × TagMap) : Program Unit ((ℕ × TagMap) ⊕ TagMap) := do
  let (offset, result) := state
  if offset < size then
    let tag ← bytesAt buffer offset 4
    let offset := (offset + 4) % 4294967296
    let word ← bytesAt buffer offset 4
    let length := (endianSwapBE32 (loadedWord word)).toNat
    let offset := (offset + 4) % 4294967296
    let content ← bytesAt buffer offset length
    return .inl ((offset + length) % 4294967296, Function.update result tag (some content))
  else return .inr result

def decodeDMAP (size : ℕ) : Program Unit TagMap :=
  .loop (decodeItem buffer size) (8, fun _ => none)

end decoder

theorem toNat_shift_or (x : BitVec 32) (b : UInt8) (small : x.toNat < 16777216) :
    (x <<< 8 ||| b.toBitVec.setWidth 32).toNat = 256 * x.toNat + b.toNat := by
  have byte : b.toNat < 2 ^ 8 := b.toNat_lt
  have joined := Nat.shiftLeft_add_eq_or_of_lt byte x.toNat
  rw [BitVec.toNat_or, BitVec.toNat_shiftLeft, BitVec.toNat_setWidth, UInt8.toNat_toBitVec,
    Nat.mod_eq_of_lt (show b.toNat < 2 ^ 32 by omega),
    Nat.mod_eq_of_lt (show x.toNat <<< 8 < 2 ^ 32 by rw [Nat.shiftLeft_eq]; omega), ← joined,
    Nat.shiftLeft_eq]
  omega

theorem endianSwap_word (a b c d : UInt8) :
    (endianSwapBE32 (loadedWord [a, b, c, d])).toNat = bigEndian [a, b, c, d] := by
  have swapped : endianSwapBE32 (loadedWord [a, b, c, d]) =
      ((a.toBitVec.setWidth 32 <<< 8 ||| b.toBitVec.setWidth 32) <<< 8 |||
        c.toBitVec.setWidth 32) <<< 8 ||| d.toBitVec.setWidth 32 := by
    refine BitVec.eq_of_getLsbD_eq fun i inside => ?_
    simp only [endianSwapBE32, loadedWord, BitVec.getLsbD_or, BitVec.getLsbD_and,
      BitVec.getLsbD_shiftLeft, BitVec.getLsbD_ushiftRight, BitVec.getLsbD_setWidth]
    interval_cases i <;> simp
  have first : (a.toBitVec.setWidth 32).toNat = a.toNat := by simp
  have a8 := a.toNat_lt
  have b8 := b.toNat_lt
  have c8 := c.toNat_lt
  have two := toNat_shift_or (a.toBitVec.setWidth 32) b (by omega)
  have three := toNat_shift_or (a.toBitVec.setWidth 32 <<< 8 ||| b.toBitVec.setWidth 32) c (by omega)
  rw [swapped, toNat_shift_or _ d (by omega), three, two, first]
  simp only [bigEndian, List.foldl_cons, List.foldl_nil]
  omega

structure DmapItem where
  tag : Bytes
  fourBytes : tag.length = 4
  content : Bytes

namespace DmapItem

def encode (item : DmapItem) : Bytes :=
  item.tag ++ (lengthField item.content.length ++ item.content)

def encodeAll (items : List DmapItem) : Bytes := items.flatMap encode

def store (result : TagMap) (item : DmapItem) : TagMap :=
  Function.update result item.tag (some item.content)

theorem length_encode (item : DmapItem) : item.encode.length = 8 + item.content.length := by
  simp [encode, item.fourBytes, lengthField]
  omega

end DmapItem

section decoder

variable {buffer : Bytes}

theorem ends_bytesAt {offset n : ℕ} {bytes : Bytes} {s t : Unit} :
    (bytesAt buffer offset n).Ends s bytes t ↔
      ∃ rest, buffer.drop offset = bytes ++ rest ∧ bytes.length = n ∧ offset + n ≤ buffer.length := by
  rw [bytesAt, Program.ends_action]
  constructor
  · intro found
    split at found
    next inside =>
      simp only [Option.some.injEq, Prod.mk.injEq, and_true] at found
      refine ⟨(buffer.drop offset).drop n, ?_, ?_, inside⟩
      · rw [← found, List.take_append_drop]
      · rw [← found, List.length_take, List.length_drop]
        omega
    next => simp at found
  · rintro ⟨rest, split, rfl, inside⟩
    rw [if_pos inside, split, List.take_left]

theorem swapped_word {word : Bytes} (four : word.length = 4) :
    (endianSwapBE32 (loadedWord word)).toNat = bigEndian word := by
  rcases word with _ | ⟨a, _ | ⟨b, _ | ⟨c, _ | ⟨d, _ | _⟩⟩⟩⟩ <;> simp at four
  exact endianSwap_word a b c d

/-- A round takes one item from the rest of the buffer. -/
theorem ends_decodeItem {offset : ℕ} {result : TagMap} {next : (ℕ × TagMap) ⊕ TagMap}
    (small : buffer.length < 2 ^ 32) (more : offset < buffer.length) :
    (decodeItem buffer buffer.length (offset, result)).Ends () next () ↔
      ∃ item rest, buffer.drop offset = DmapItem.encode item ++ rest ∧
        next = .inl (offset + item.encode.length, item.store result) := by
  have whole : (buffer.drop offset).length = buffer.length - offset := List.length_drop
  simp only [decodeItem, more, if_true, Program.ends_bind, Program.ends_pure, ends_bytesAt]
  constructor
  · rintro ⟨tag, _, ⟨r1, tagHere, four, in1⟩, word, _, ⟨r2, wordHere, word4, in2⟩,
      content, _, ⟨r3, contentHere, long, in3⟩, rfl, _⟩
    have step1 : (offset + 4) % 4294967296 = offset + 4 := Nat.mod_eq_of_lt (by omega)
    rw [step1] at wordHere in2 contentHere in3
    have step2 : (offset + 4 + 4) % 4294967296 = offset + 8 := Nat.mod_eq_of_lt (by omega)
    rw [step2] at contentHere in3
    rw [swapped_word word4] at long in3
    have behindTag : r1 = word ++ r2 := by
      rw [← wordHere, ← List.drop_drop, tagHere, ← four, List.drop_left]
    have behindWord : r2 = content ++ r3 := by
      rw [← contentHere, show offset + 8 = offset + 4 + 4 from rfl, ← List.drop_drop, wordHere,
        ← word4, List.drop_left]
    refine ⟨⟨tag, four, content⟩, r3, ?_, ?_⟩
    · rw [tagHere, behindTag, behindWord, DmapItem.encode, long,
        ← (lengthField_bigEndian word4).1]
      simp
    · rw [step1, step2, swapped_word word4, DmapItem.length_encode,
        Nat.mod_eq_of_lt (by omega), ← long, Nat.add_assoc]
      rfl
  · rintro ⟨⟨tag, four, content⟩, rest, split, rfl⟩
    have total : buffer.length - offset = 8 + content.length + rest.length := by
      rw [← whole, split, List.length_append, DmapItem.length_encode]
    simp only [DmapItem.encode, List.append_assoc] at split
    have step1 : (offset + 4) % 4294967296 = offset + 4 := Nat.mod_eq_of_lt (by omega)
    have step2 : (offset + 4 + 4) % 4294967296 = offset + 8 := Nat.mod_eq_of_lt (by omega)
    have word4 : (lengthField content.length).length = 4 := rfl
    have length : (endianSwapBE32 (loadedWord (lengthField content.length))).toNat =
        content.length := by
      rw [swapped_word word4, bigEndian_lengthField (by omega)]
    have behindTag : buffer.drop (offset + 4) =
        lengthField content.length ++ (content ++ rest) := by
      rw [← List.drop_drop, split, ← four, List.drop_left]
    have behindWord : buffer.drop (offset + 8) = content ++ rest := by
      rw [show offset + 8 = offset + 4 + 4 from rfl, ← List.drop_drop, behindTag, ← word4,
        List.drop_left]
    refine ⟨tag, (), ⟨_, split, four, by omega⟩, lengthField content.length, (),
      ⟨_, by rw [step1]; exact behindTag, word4, by omega⟩, content, (),
      ⟨rest, by rw [step1, step2]; exact behindWord, length.symm, by omega⟩, ?_, trivial⟩
    rw [step1, step2, length, Nat.mod_eq_of_lt (by omega), DmapItem.length_encode, Nat.add_assoc]
    rfl

theorem decodeLoop_found (small : buffer.length < 2 ^ 32) {state : ℕ × TagMap} {out : TagMap}
    (ends : (Program.loop (decodeItem buffer buffer.length) state).Ends () out ()) :
    state.1 ≤ buffer.length →
      ∃ items, buffer.drop state.1 = DmapItem.encodeAll items ∧
        out = items.foldl DmapItem.store state.2 := by
  refine Program.loop_induction (fun state _ out _ => state.1 ≤ buffer.length →
    ∃ items, buffer.drop state.1 = DmapItem.encodeAll items ∧
      out = items.foldl DmapItem.store state.2) ?_ ?_ ends
  · rintro ⟨offset, result⟩ _ next _ out _ round later inside
    by_cases more : offset < buffer.length
    · obtain ⟨item, rest, split, same⟩ := (ends_decodeItem small more).mp round
      obtain rfl := Sum.inl.inj same
      have total := congrArg List.length split
      rw [List.length_drop, List.length_append] at total
      obtain ⟨items, behind, rfl⟩ := later (by dsimp only; omega)
      refine ⟨item :: items, ?_, rfl⟩
      rw [DmapItem.encodeAll, List.flatMap_cons, ← DmapItem.encodeAll, ← behind, ← List.drop_drop,
        split, List.drop_left]
    · simp [decodeItem, more] at round
  · rintro ⟨offset, result⟩ _ out _ round inside
    by_cases more : offset < buffer.length
    · obtain ⟨item, rest, -, same⟩ := (ends_decodeItem small more).mp round
      cases same
    · obtain rfl : out = result := by simpa [decodeItem, more] using round
      exact ⟨[], List.drop_eq_nil_of_le (not_lt.mp more), rfl⟩

theorem decodeLoop_ends (small : buffer.length < 2 ^ 32) :
    ∀ (items : List DmapItem) (offset : ℕ) (result : TagMap),
      buffer.drop offset = DmapItem.encodeAll items →
      (Program.loop (decodeItem buffer buffer.length) (offset, result)).Ends ()
        (items.foldl DmapItem.store result) () := by
  intro items
  induction items with
  | nil =>
      intro offset result done
      have finished : ¬ offset < buffer.length := not_lt.mpr (List.drop_eq_nil_iff.mp done)
      refine Program.ends_loop.mpr (.inr ?_)
      simp [decodeItem, finished]
  | cons item items ih =>
      intro offset result split
      rw [DmapItem.encodeAll, List.flatMap_cons] at split
      have total := congrArg List.length split
      rw [List.length_drop, List.length_append, DmapItem.length_encode] at total
      refine Program.ends_loop.mpr (.inl ⟨(offset + item.encode.length, item.store result), (),
        (ends_decodeItem small (by omega)).mpr ⟨item, _, split, rfl⟩, ih _ _ ?_⟩)
      rw [← List.drop_drop, split, List.drop_left]
      rfl

theorem ends_decodeDMAP (small : buffer.length < 2 ^ 32) {out : TagMap} :
    (decodeDMAP buffer buffer.length).Ends () out () ↔
      ∃ items, buffer.drop 8 = DmapItem.encodeAll items ∧
        out = items.foldl DmapItem.store fun _ => none := by
  constructor
  · intro ends
    by_cases short : 8 ≤ buffer.length
    · exact decodeLoop_found small ends short
    · have finished : ¬ 8 < buffer.length := by omega
      refine ⟨[], List.drop_eq_nil_of_le (by omega), ?_⟩
      rcases Program.ends_loop.mp ends with ⟨_, _, round, _⟩ | round
      · simp [decodeItem, finished] at round
      · simpa [decodeItem, finished] using round
  · rintro ⟨items, split, rfl⟩
    exact decodeLoop_ends small items 8 _ split

def lastContent (items : List DmapItem) : TagMap := fun tag =>
  (items.reverse.find? fun item => item.tag = tag).map DmapItem.content

theorem foldl_store (items : List DmapItem) :
    items.foldl DmapItem.store (fun _ => none) = lastContent items := by
  induction items using List.reverseRecOn with
  | nil => rfl
  | append_singleton items item ih =>
      funext tag
      rw [List.foldl_append, List.foldl_cons, List.foldl_nil, ih, DmapItem.store, lastContent,
        List.reverse_append, List.reverse_singleton, List.singleton_append, List.find?_cons]
      by_cases same : item.tag = tag
      · subst same
        simp
      · simp [Function.update_of_ne (Ne.symm same), same, lastContent]

/-- What was encoded comes back, for each tag its last content. -/
theorem decodeDMAP_encodeAll (header : Bytes) (items : List DmapItem) (eight : header.length = 8)
    (fits : (header ++ DmapItem.encodeAll items).length < 2 ^ 32) :
    (decodeDMAP (header ++ DmapItem.encodeAll items)
      (header ++ DmapItem.encodeAll items).length).Ends () (lastContent items) () := by
  refine (ends_decodeDMAP fits).mpr ⟨items, ?_, (foldl_store items).symm⟩
  rw [← eight, List.drop_left]

theorem titleTwice_decoded :
    (decodeDMAP (List.replicate 8 0 ++ DmapItem.encodeAll
        [⟨[109, 105, 110, 109], rfl, [65, 0]⟩, ⟨[109, 105, 110, 109], rfl, [66]⟩])
      (List.replicate 8 0 ++ DmapItem.encodeAll
        [⟨[109, 105, 110, 109], rfl, [65, 0]⟩, ⟨[109, 105, 110, 109], rfl, [66]⟩]).length).Ends ()
      (lastContent [⟨[109, 105, 110, 109], rfl, [65, 0]⟩, ⟨[109, 105, 110, 109], rfl, [66]⟩]) () :=
  decodeDMAP_encodeAll (List.replicate 8 0) _ rfl (by decide)

/-- For a buffer whose size is an `int`, the decoder ends without a read outside the buffer
exactly if whole items fill what is behind the first eight bytes. -/
theorem decodeDMAP_inside_iff (buffer : Bytes) (delivered : buffer.length < 2 ^ 31) :
    (∃ out, (decodeDMAP buffer buffer.length).Ends () out ()) ↔
      ∃ items, buffer.drop 8 = DmapItem.encodeAll items := by
  simp only [ends_decodeDMAP (delivered.trans (by norm_num))]
  constructor
  · rintro ⟨_, items, split, rfl⟩
    exact ⟨items, split⟩
  · rintro ⟨items, split⟩
    exact ⟨_, items, split, rfl⟩

def threeItems : List DmapItem :=
  [⟨[109, 105, 110, 109], rfl, [65, 0]⟩, ⟨[97, 115, 97, 114], rfl, []⟩,
    ⟨[109, 105, 110, 109], rfl, [66]⟩]

theorem threeItems_inside :
    ∃ out, (decodeDMAP (List.replicate 8 0 ++ DmapItem.encodeAll threeItems)
      (List.replicate 8 0 ++ DmapItem.encodeAll threeItems).length).Ends () out () :=
  (decodeDMAP_inside_iff (List.replicate 8 0 ++ DmapItem.encodeAll threeItems) (by decide)).mpr
    ⟨threeItems, rfl⟩

/-- An item cut off in its tag, and one whose length is past the end. -/
theorem cutItem_readsOutside :
    (¬ ∃ out, (decodeDMAP (List.replicate 8 0 ++ [109]) 9).Ends () out ()) ∧
    ¬ ∃ out, (decodeDMAP (List.replicate 8 0 ++ [109, 105, 110, 109, 255, 255, 255, 255]) 16).Ends
      () out () := by
  constructor
  · rintro ⟨out, ends⟩
    exact Program.not_ends_of_failed 3 rfl out () ends
  · rintro ⟨out, ends⟩
    exact Program.not_ends_of_failed 3 rfl out () ends

end decoder

end AirCast.Audio
