import AirCast.CString
import AirCast.Lib.Sextets

/-! # The base64 codec

base64.c.  Allocations succeed, and lengths fit an `int`. -/

set_option autoImplicit false

namespace AirCast.Crypt

def defaultCharlist : Bytes :=
  bytesOf "ABCDEFGHIJKLMNOPQRSTUVWXYZabcdefghijklmnopqrstuvwxyz0123456789+/"

/-- `struct base64_s`; the map of the characters is made of `charlist`. -/
structure Base64 where
  charlist : Bytes
  usePadding : Bool
  skipSpaces : Bool
  deriving DecidableEq

def base64Padding : UInt8 := 0x40

def base64Invalid : UInt8 := 0x80

/-- `initialize_charmap`: of characters listed twice the last place counts. -/
def charmap (charlist : Bytes) (c : UInt8) : UInt8 :=
  if c = 61 then base64Padding
  else
    (List.range 64).foldl (fun value i => if charlist.getD i 0 = c then UInt8.ofNat i else value)
      base64Invalid

def Base64.ofDefault (usePadding skipSpaces : Bool) : Base64 :=
  ⟨defaultCharlist, usePadding, skipSpaces⟩

/-! ## Encoding -/

def base64EncodedLength (base64 : Base64) (srclen : ℕ) : ℕ :=
  if base64.usePadding then (srclen + 2) / 3 * 4 + 1
  else
    let strlen := if srclen % 3 = 2 then 1 + 2 else if srclen % 3 = 1 then 2 else 0
    strlen + srclen / 3 * 4 + 1

def charOf (base64 : Base64) (index : ℕ) : UInt8 := base64.charlist.getD index 0

/-- A round of the loop: the characters it writes and the residue it leaves. -/
def encodeByte (base64 : Base64) (srcIdx residue : ℕ) (c : UInt8) : Bytes × ℕ :=
  let residue := residue ||| c.toNat
  if srcIdx % 3 = 0 then
    ([charOf base64 ((residue >>> 2) % 64)], (residue &&& 0x03) <<< 8)
  else if srcIdx % 3 = 1 then
    ([charOf base64 (residue >>> 4)], (residue &&& 0x0f) <<< 8)
  else
    ([charOf base64 (residue >>> 6), charOf base64 (residue &&& 0x3f)], 0 <<< 8)

/-- The loop of `base64_encode`. -/
def encodeLoop (base64 : Base64) : ℕ → ℕ → Bytes → Bytes × ℕ
  | _, residue, [] => ([], residue)
  | srcIdx, residue, c :: src =>
      let step := encodeByte base64 srcIdx residue c
      let out := encodeLoop base64 (srcIdx + 1) step.2 src
      (step.1 ++ out.1, out.2)

/-- The characters that `base64_encode` writes before the terminator. -/
def base64Chars (base64 : Base64) (src : Bytes) : Bytes :=
  let loop := encodeLoop base64 0 0 src
  let residue := loop.2
  if src.length % 3 = 1 then
    loop.1 ++ charOf base64 (residue >>> 4) :: if base64.usePadding then [61, 61] else []
  else if src.length % 3 = 2 then
    loop.1 ++ charOf base64 (residue >>> 6) :: if base64.usePadding then [61] else []
  else loop.1

/-- `base64_encode`: what is written to `dst`, and the result. -/
def base64Encode (base64 : Base64) (src : Bytes) : Bytes × ℕ :=
  (base64Chars base64 src ++ [0], (base64Chars base64 src).length)

/-! ## Decoding -/

/-- The loop that removes white space, from `inbuf[i]` on; each round makes the rest of the
text shorter. -/
def removeSpaces : ℕ → ℕ → Bytes → Bytes
  | 0, _, inbuf => inbuf
  | rounds + 1, i, inbuf =>
      if isSpace (inbuf.getD i 0) then removeSpaces rounds i (inbuf.eraseIdx i)
      else removeSpaces rounds (i + 1) inbuf

/-- The padding that is added where none is used, or -2. -/
def addPadding (inbuf : Bytes) : Except ℤ Bytes :=
  if inbuf.length % 4 = 1 then .error (-2)
  else if inbuf.length % 4 = 2 then .ok (inbuf ++ [61, 61])
  else if inbuf.length % 4 = 3 then .ok (inbuf ++ [61])
  else .ok inbuf

/-- `outbuflen`. -/
def decodedLength (inbuf : Bytes) : ℕ :=
  let outbuflen := inbuf.length / 4 * 3
  if 4 ≤ inbuf.length ∧ inbuf.getD (inbuf.length - 1) 0 = 61 then
    if inbuf.getD (inbuf.length - 2) 0 = 61 then outbuflen - 1 - 1 else outbuflen - 1
  else outbuflen

/-- The loop of `base64_decode`: what it writes, and the error it returns with, if any. -/
def decodeLoop (base64 : Base64) : Bytes → Bytes × Option ℤ
  | [] => ([], none)
  | a :: b :: c :: d :: rest =>
      let a := charmap base64.charlist a
      let b := charmap base64.charlist b
      let c := charmap base64.charlist c
      let d := charmap base64.charlist d
      if a = base64Invalid ∨ b = base64Invalid ∨ c = base64Invalid ∨ d = base64Invalid then
        ([], some (-5))
      else if a = base64Padding ∨ b = base64Padding then ([], some (-6))
      else
        let first := (a <<< 2) ||| ((b &&& 0x30) >>> 4)
        if c = base64Padding then ([first], none)
        else
          let second := ((b &&& 0x0f) <<< 4) ||| ((c &&& 0x3c) >>> 2)
          if d = base64Padding then ([first, second], none)
          else
            let third := ((c &&& 0x03) <<< 6) ||| d
            let out := decodeLoop base64 rest
            (first :: second :: third :: out.1, out.2)
  -- not reached with a length divisible by 4: the terminator is no valid character
  | _ => ([], some (-5))

@[simp] theorem decodeLoop_nil (base64 : Base64) : decodeLoop base64 [] = ([], none) := by
  simp only [decodeLoop]

/-- A call of `base64_decode`: the size of `outbuf`, what was written there, and the
result. -/
structure Decoded where
  outbuflen : ℕ
  written : Bytes
  result : ℤ
  deriving DecidableEq

/-- `base64_decode` once the text is as long as it has to be. -/
def decodePadded (base64 : Base64) (inbuf : Bytes) : Decoded :=
  if inbuf.length % 4 ≠ 0 then ⟨0, [], -3⟩
  else
    let out := decodeLoop base64 inbuf
    ⟨decodedLength inbuf, out.1,
      match out.2 with
      | some error => error
      | none => if out.1.length ≠ decodedLength inbuf then -7 else decodedLength inbuf⟩

/-- `base64_decode`; the text ends at its first NUL. -/
def base64Decode (base64 : Base64) (src : Bytes) : Decoded :=
  let inbuf := (CString.ofBytes src).chars
  let inbuf := if base64.skipSpaces then removeSpaces inbuf.length 0 inbuf else inbuf
  if base64.usePadding then decodePadded base64 inbuf
  else
    match addPadding inbuf with
    | .error error => ⟨0, [], error⟩
    | .ok inbuf => decodePadded base64 inbuf

/-! ## The text of a byte string -/

def lastChar (base64 : Base64) (srclen residue : ℕ) : Bytes :=
  if srclen % 3 = 1 then [charOf base64 (residue >>> 4)]
  else if srclen % 3 = 2 then [charOf base64 (residue >>> 6)]
  else []

def padding (srclen : ℕ) : Bytes :=
  if srclen % 3 = 1 then [61, 61] else if srclen % 3 = 2 then [61] else []

section

variable (base64 : Base64)

theorem residue_or (r : ℕ) (c : UInt8) : r <<< 8 ||| c.toNat = r * 256 + c.toNat := by
  rw [← Nat.shiftLeft_add_eq_or_of_lt c.toNat_lt, Nat.shiftLeft_eq]

theorem encodeByte_first (k : ℕ) (c : UInt8) :
    encodeByte base64 (3 * k) 0 c = ([charOf base64 (c.toNat / 4)], (c.toNat % 4) <<< 8) := by
  have bound := c.toNat_lt
  rw [encodeByte, if_pos (by omega), Nat.zero_or, Nat.shiftRight_eq_div_pow,
    Nat.and_two_pow_sub_one_eq_mod c.toNat 2, Nat.mod_eq_of_lt (b := 64) (by omega)]

theorem encodeByte_second (k r : ℕ) (c : UInt8) :
    encodeByte base64 (3 * k + 1) (r <<< 8) c =
      ([charOf base64 (r * 16 + c.toNat / 16)], (c.toNat % 16) <<< 8) := by
  rw [encodeByte, if_neg (by omega), if_pos (by omega), residue_or,
    Nat.shiftRight_eq_div_pow, Nat.and_two_pow_sub_one_eq_mod _ 4,
    show (r * 256 + c.toNat) / 2 ^ 4 = r * 16 + c.toNat / 16 by omega,
    show (r * 256 + c.toNat) % 2 ^ 4 = c.toNat % 16 by omega]

theorem encodeByte_third (k r : ℕ) (c : UInt8) :
    encodeByte base64 (3 * k + 2) (r <<< 8) c =
      ([charOf base64 (r * 4 + c.toNat / 64), charOf base64 (c.toNat % 64)], 0) := by
  rw [encodeByte, if_neg (by omega), if_neg (by omega), residue_or,
    Nat.shiftRight_eq_div_pow, Nat.and_two_pow_sub_one_eq_mod _ 6,
    show (r * 256 + c.toNat) / 2 ^ 6 = r * 4 + c.toNat / 64 by omega,
    show (r * 256 + c.toNat) % 2 ^ 6 = c.toNat % 64 by omega, Nat.zero_shiftLeft]

theorem lastChar_add (srclen residue : ℕ) :
    lastChar base64 (srclen + 3) residue = lastChar base64 srclen residue := by
  rw [lastChar, lastChar, Nat.add_mod_right]

/-- The loop and the character after it write the six-bit numbers. -/
theorem encodeLoop_sextets (src : Bytes) : ∀ k : ℕ,
    (encodeLoop base64 (3 * k) 0 src).1 ++
        lastChar base64 src.length (encodeLoop base64 (3 * k) 0 src).2 =
      (sextets src).map (charOf base64) := by
  induction src using sextets.induct with
  | case1 =>
      intro k
      rfl
  | case2 a =>
      intro k
      have last : (a.toNat % 4) <<< 8 >>> 4 = a.toNat % 4 * 16 := by
        rw [Nat.shiftLeft_eq, Nat.shiftRight_eq_div_pow]
        omega
      simp only [encodeLoop, encodeByte_first, lastChar, sextets]
      simp [last]
  | case3 a b =>
      intro k
      have last : (b.toNat % 16) <<< 8 >>> 6 = b.toNat % 16 * 4 := by
        rw [Nat.shiftLeft_eq, Nat.shiftRight_eq_div_pow]
        omega
      simp only [encodeLoop, encodeByte_first, encodeByte_second, lastChar, sextets]
      simp [last]
  | case4 a b c rest ih =>
      intro k
      have next : 3 * k + 1 + 1 + 1 = 3 * (k + 1) := by omega
      have shorter : (a :: b :: c :: rest).length = rest.length + 3 := rfl
      simp only [encodeLoop, encodeByte_first, encodeByte_second, encodeByte_third, next, shorter,
        lastChar_add, sextets, List.map_cons, ← ih (k + 1)]
      simp

theorem base64Chars_eq (src : Bytes) :
    base64Chars base64 src =
      (sextets src).map (charOf base64) ++
        if base64.usePadding then padding src.length else [] := by
  rw [← encodeLoop_sextets base64 src 0, base64Chars, lastChar, padding]
  split_ifs <;> simp

end

theorem base64Chars_length (base64 : Base64) (src : Bytes) :
    (base64Chars base64 src).length + 1 = base64EncodedLength base64 src.length := by
  rw [base64Chars_eq, List.length_append, List.length_map, sextets_length, base64EncodedLength,
    padding]
  split_ifs <;> simp <;> omega

theorem base64Chars_long (base64 : Base64) {src : Bytes} (four : 4 ≤ src.length) :
    2 ≤ (base64Chars base64 src).length := by
  have length := base64Chars_length base64 src
  simp only [base64EncodedLength] at length
  split_ifs at length <;> omega

/-! ## White space -/

theorem removeSpaces_eq : ∀ (rest front : Bytes),
    removeSpaces rest.length front.length (front ++ rest) =
      front ++ rest.filter fun c => !isSpace c := by
  intro rest
  induction rest with
  | nil => intro front; simp [removeSpaces]
  | cons c rest ih =>
      intro front
      have here : (front ++ c :: rest).getD front.length 0 = c := by
        simp [List.getD_eq_getElem?_getD]
      rw [List.length_cons, removeSpaces, here]
      by_cases space : isSpace c
      · rw [if_pos space, List.eraseIdx_append_of_length_le (le_refl _)]
        simp [space, ih]
      · have moved := ih (front ++ [c])
        rw [List.length_append, List.append_assoc] at moved
        rw [if_neg space]
        simpa [space] using moved

/-! ## The characters -/

def Alphabet (c : UInt8) : Prop := c ∈ defaultCharlist

instance : DecidablePred Alphabet := fun c => inferInstanceAs (Decidable (c ∈ defaultCharlist))

/-- Groups of four characters of the alphabet, of which the last may end in `=` or `==`. -/
inductive Base64Text : Bytes → Prop where
  | empty : Base64Text []
  | group {a b c d : UInt8} {rest : Bytes} : Alphabet a → Alphabet b → Alphabet c → Alphabet d →
      Base64Text rest → Base64Text (a :: b :: c :: d :: rest)
  | onePadding {a b c : UInt8} : Alphabet a → Alphabet b → Alphabet c →
      Base64Text [a, b, c, 61]
  | twoPaddings {a b : UInt8} : Alphabet a → Alphabet b → Base64Text [a, b, 61, 61]

theorem Alphabet.number {c : UInt8} (listed : Alphabet c) :
    ∃ s < 64, defaultCharlist.getD s 0 = c := by
  obtain ⟨s, inside, rfl⟩ := List.getElem_of_mem listed
  refine ⟨s, inside, ?_⟩
  rw [List.getD_eq_getElem?_getD, List.getElem?_eq_getElem inside]
  rfl

theorem defaultCharlist_bytes : defaultCharlist =
    [65, 66, 67, 68, 69, 70, 71, 72, 73, 74, 75, 76, 77, 78, 79, 80, 81, 82, 83, 84, 85, 86, 87, 88,
      89, 90, 97, 98, 99, 100, 101, 102, 103, 104, 105, 106, 107, 108, 109, 110, 111, 112, 113, 114,
      115, 116, 117, 118, 119, 120, 121, 122, 48, 49, 50, 51, 52, 53, 54, 55, 56, 57, 43, 47] := by
  decide

theorem charOf_alphabet : ∀ s < 64, Alphabet (defaultCharlist.getD s 0) := by
  intro s small
  have inside : s < defaultCharlist.length := by rwa [defaultCharlist_bytes]
  rw [List.getD_eq_getElem _ _ inside]
  exact List.getElem_mem inside

theorem charmap_charOf : ∀ s < 64,
    charmap defaultCharlist (defaultCharlist.getD s 0) = UInt8.ofNat s := by
  rw [defaultCharlist_bytes]
  decide

theorem padding_not_alphabet : ¬ Alphabet 61 := by
  rw [Alphabet, defaultCharlist_bytes]
  decide

theorem charmap_unlisted {c : UInt8} (missing : ¬ Alphabet c) (other : c ≠ 61) :
    charmap defaultCharlist c = base64Invalid := by
  have kept : ∀ places : List ℕ, (∀ i ∈ places, i < 64) → places.foldl
      (fun value i => if defaultCharlist.getD i 0 = c then UInt8.ofNat i else value)
      base64Invalid = base64Invalid := by
    intro places
    induction places with
    | nil => intro _; rfl
    | cons i places ih =>
        intro small
        obtain ⟨first, others⟩ := List.forall_mem_cons.mp small
        have different : defaultCharlist.getD i 0 ≠ c := by
          rintro rfl
          exact missing (charOf_alphabet i first)
        rw [List.foldl_cons, if_neg different]
        exact ih others
  rw [charmap, if_neg other]
  exact kept _ fun i member => List.mem_range.mp member

theorem charmap_cases (c : UInt8) :
    (Alphabet c ∧ c ≠ 61 ∧ charmap defaultCharlist c < 64) ∨
      (¬ Alphabet c ∧ c = 61 ∧ charmap defaultCharlist c = base64Padding) ∨
      (¬ Alphabet c ∧ c ≠ 61 ∧ charmap defaultCharlist c = base64Invalid) := by
  have numbers : ∀ s < 64, UInt8.ofNat s < 64 := by decide
  by_cases listed : Alphabet c
  · obtain ⟨s, small, rfl⟩ := listed.number
    refine .inl ⟨listed, fun same => padding_not_alphabet (same ▸ listed), ?_⟩
    rw [charmap_charOf s small]
    exact numbers s small
  · by_cases padding : c = 61
    · subst padding
      exact .inr (.inl ⟨listed, rfl, rfl⟩)
    · exact .inr (.inr ⟨listed, padding, charmap_unlisted listed padding⟩)

theorem number_valid : ∀ s < 64, UInt8.ofNat s ≠ base64Invalid ∧ UInt8.ofNat s ≠ base64Padding := by
  decide

theorem or_joined {low : ℕ} (place high : ℕ) (small : low < 2 ^ place) :
    UInt8.ofNat (high * 2 ^ place) ||| UInt8.ofNat low = joined (high * 2 ^ place) low := by
  rw [joined, Nat.mul_comm, Nat.two_pow_add_eq_or_of_lt small, UInt8.ofNat_or]

theorem first_joined : ∀ x < 64, ∀ y < 64,
    (UInt8.ofNat x <<< 2) ||| ((UInt8.ofNat y &&& 0x30) >>> 4) = joined (x * 4) (y / 16) := by
  intro x smallX y smallY
  have high : ∀ x < 64, UInt8.ofNat x <<< 2 = UInt8.ofNat (x * 2 ^ 2) := by decide
  have low : ∀ y < 64, (UInt8.ofNat y &&& 0x30) >>> 4 = UInt8.ofNat (y / 16) := by decide
  rw [high x smallX, low y smallY]
  exact or_joined 2 x (by omega)

theorem second_joined : ∀ y < 64, ∀ z < 64,
    ((UInt8.ofNat y &&& 0x0f) <<< 4) ||| ((UInt8.ofNat z &&& 0x3c) >>> 2) =
      joined (y % 16 * 16) (z / 4) := by
  intro y smallY z smallZ
  have high : ∀ y < 64, (UInt8.ofNat y &&& 0x0f) <<< 4 = UInt8.ofNat (y % 16 * 2 ^ 4) := by decide
  have low : ∀ z < 64, (UInt8.ofNat z &&& 0x3c) >>> 2 = UInt8.ofNat (z / 4) := by decide
  rw [high y smallY, low z smallZ]
  exact or_joined 4 (y % 16) (by omega)

theorem third_joined : ∀ z < 64, ∀ w < 64,
    ((UInt8.ofNat z &&& 0x03) <<< 6) ||| UInt8.ofNat w = joined (z % 4 * 64) w := by
  intro z smallZ w smallW
  have high : ∀ z < 64, (UInt8.ofNat z &&& 0x03) <<< 6 = UInt8.ofNat (z % 4 * 2 ^ 6) := by decide
  rw [high z smallZ]
  exact or_joined 6 (z % 4) smallW

/-! ## Decoding a text of numbers -/

theorem quads_induction {motive : Bytes → Prop} (nil : motive [])
    (quad : ∀ a b c d rest, rest.length % 4 = 0 → motive rest → motive (a :: b :: c :: d :: rest)) :
    ∀ text : Bytes, text.length % 4 = 0 → motive text
  | [], _ => nil
  | [_], whole => absurd whole (by simp)
  | [_, _], whole => absurd whole (by simp)
  | [_, _, _], whole => absurd whole (by simp)
  | a :: b :: c :: d :: rest, whole =>
      have rest_whole : rest.length % 4 = 0 := by
        simp only [List.length_cons] at whole
        omega
      quad a b c d rest rest_whole (quads_induction nil quad rest rest_whole)

theorem decodedLength_quad {rest : Bytes} (a b c d : UInt8) (whole : rest.length % 4 = 0)
    (more : rest ≠ []) :
    decodedLength (a :: b :: c :: d :: rest) = decodedLength rest + 3 := by
  have positive := List.length_pos_iff.mpr more
  have long : 4 ≤ rest.length := by omega
  have size : (a :: b :: c :: d :: rest).length = rest.length + 4 := rfl
  have last : (a :: b :: c :: d :: rest).getD (rest.length + 4 - 1) 0 =
      rest.getD (rest.length - 1) 0 := by
    rw [show rest.length + 4 - 1 = rest.length - 1 + 4 by omega]
    rfl
  have second : (a :: b :: c :: d :: rest).getD (rest.length + 4 - 2) 0 =
      rest.getD (rest.length - 2) 0 := by
    rw [show rest.length + 4 - 2 = rest.length - 2 + 4 by omega]
    rfl
  rw [decodedLength, decodedLength, size, last, second]
  simp only [long, show 4 ≤ rest.length + 4 by omega, true_and]
  split_ifs <;> omega

theorem charmap_padding (charlist : Bytes) : charmap charlist 61 = base64Padding := rfl

theorem padding_valid : base64Padding ≠ base64Invalid := by decide

theorem decodeLoop_negative (base64 : Base64) : ∀ (text : Bytes) (error : ℤ),
    (decodeLoop base64 text).2 = some error → error < 0
  | [], _, ending => by cases ending
  | [_], _, ending => by
      cases ending
      decide
  | [_, _], _, ending => by
      cases ending
      decide
  | [_, _, _], _, ending => by
      cases ending
      decide
  | a :: b :: c :: d :: rest, error, ending => by
      simp only [decodeLoop] at ending
      split_ifs at ending
      · cases ending
        decide
      · cases ending
        decide
      · exact decodeLoop_negative base64 rest error ending

section

variable {base64 : Base64} (standard : base64.charlist = defaultCharlist)
include standard

theorem charmap_numbered {s : ℕ} (small : s < 64) :
    charmap base64.charlist (charOf base64 s) = UInt8.ofNat s := by
  rw [charOf, standard]
  exact charmap_charOf s small

theorem decodeLoop_group {a b c d : ℕ} {rest : Bytes} (small : a < 64 ∧ b < 64 ∧ c < 64 ∧ d < 64) :
    decodeLoop base64 (charOf base64 a :: charOf base64 b :: charOf base64 c ::
        charOf base64 d :: rest) =
      (joined (a * 4) (b / 16) :: joined (b % 16 * 16) (c / 4) :: joined (c % 4 * 64) d ::
        (decodeLoop base64 rest).1, (decodeLoop base64 rest).2) := by
  obtain ⟨smallA, smallB, smallC, smallD⟩ := small
  simp only [decodeLoop, charmap_numbered standard, smallA, smallB, smallC, smallD,
    number_valid, first_joined, second_joined, third_joined, or_self, if_false]

theorem decodeLoop_onePadding {a b c : ℕ} (small : a < 64 ∧ b < 64 ∧ c < 64) :
    decodeLoop base64 [charOf base64 a, charOf base64 b, charOf base64 c, 61] =
      ([joined (a * 4) (b / 16), joined (b % 16 * 16) (c / 4)], none) := by
  obtain ⟨smallA, smallB, smallC⟩ := small
  simp only [decodeLoop, charmap_numbered standard, smallA, smallB, smallC,
    number_valid, first_joined, second_joined, charmap_padding, padding_valid, or_self, if_false,
    if_true]

theorem decodeLoop_twoPaddings {a b : ℕ} (small : a < 64 ∧ b < 64) :
    decodeLoop base64 [charOf base64 a, charOf base64 b, 61, 61] =
      ([joined (a * 4) (b / 16)], none) := by
  obtain ⟨smallA, smallB⟩ := small
  simp only [decodeLoop, charmap_numbered standard, smallA, smallB,
    number_valid, first_joined, charmap_padding, padding_valid, or_self, if_false, if_true]

def sextetPadding (count : ℕ) : Bytes :=
  if count % 4 = 2 then [61, 61] else if count % 4 = 3 then [61] else []

theorem decodeLoop_numbers (numbers : List ℕ) (small : ∀ s ∈ numbers, s < 64)
    (even : numbers.length % 4 ≠ 1) :
    decodeLoop base64 (numbers.map (charOf base64) ++ sextetPadding numbers.length) =
      (ofSextets numbers, none) := by
  induction numbers using ofSextets.induct with
  | case1 a b c d rest ih =>
      obtain ⟨smallA, smallB, smallC, smallD, later⟩ :
          a < 64 ∧ b < 64 ∧ c < 64 ∧ d < 64 ∧ ∀ s ∈ rest, s < 64 := by
        simpa using small
      have size : (a :: b :: c :: d :: rest).length = rest.length + 4 := rfl
      have shorter := ih later (by omega)
      rw [size, sextetPadding, Nat.add_mod_right, ← sextetPadding]
      simp only [List.map_cons, List.cons_append]
      rw [decodeLoop_group standard ⟨smallA, smallB, smallC, smallD⟩, shorter, ofSextets]
  | case2 a b c =>
      exact decodeLoop_onePadding standard (by simpa using small)
  | case3 a b =>
      exact decodeLoop_twoPaddings standard (by simpa using small)
  | case4 numbers four three two =>
      rw [eq_nil_of_short even two three four]
      rfl

theorem charOf_ne_padding {s : ℕ} (small : s < 64) : charOf base64 s ≠ 61 := by
  intro same
  have number := charmap_numbered standard small
  rw [same, charmap_padding] at number
  exact (number_valid s small).2 number.symm

theorem decodedLength_numbers (numbers : List ℕ) (small : ∀ s ∈ numbers, s < 64)
    (even : numbers.length % 4 ≠ 1) :
    decodedLength (numbers.map (charOf base64) ++ sextetPadding numbers.length) =
      (ofSextets numbers).length := by
  induction numbers using ofSextets.induct with
  | case1 a b c d rest ih =>
      obtain ⟨smallD, later⟩ : d < 64 ∧ ∀ s ∈ rest, s < 64 := by
        simp only [List.forall_mem_cons] at small
        exact small.2.2.2
      have size : (a :: b :: c :: d :: rest).length = rest.length + 4 := rfl
      have shorter := ih later (by omega)
      rw [size, sextetPadding, Nat.add_mod_right, ← sextetPadding]
      simp only [List.map_cons, List.cons_append, ofSextets, List.length_cons, ← shorter]
      by_cases last : rest = []
      · subst last
        simp [decodedLength, sextetPadding, charOf_ne_padding standard smallD]
      · refine decodedLength_quad _ _ _ _ ?_ (by simp [last])
        rw [List.length_append, List.length_map, sextetPadding]
        split_ifs <;> simp <;> omega
  | case2 a b c =>
      have smallC : c < 64 := small c (by simp)
      simp [decodedLength, sextetPadding, ofSextets, charOf_ne_padding standard smallC]
  | case3 a b => simp [decodedLength, sextetPadding, ofSextets]
  | case4 numbers four three two =>
      rw [eq_nil_of_short even two three four]
      simp [decodedLength, sextetPadding, ofSextets]

theorem decodePadded_numbers (numbers : List ℕ) (small : ∀ s ∈ numbers, s < 64)
    (even : numbers.length % 4 ≠ 1) :
    decodePadded base64 (numbers.map (charOf base64) ++ sextetPadding numbers.length) =
      ⟨(ofSextets numbers).length, ofSextets numbers, (ofSextets numbers).length⟩ := by
  have whole : (numbers.map (charOf base64) ++ sextetPadding numbers.length).length % 4 = 0 := by
    rw [List.length_append, List.length_map, sextetPadding]
    split_ifs <;> simp <;> omega
  rw [decodePadded, if_neg (not_not.mpr whole), decodeLoop_numbers standard numbers small even,
    decodedLength_numbers standard numbers small even]
  simp

end

/-! ## Decoding any text -/

theorem Base64Text.whole {text : Bytes} (valid : Base64Text text) : text.length % 4 = 0 := by
  induction valid with
  | empty => rfl
  | group _ _ _ _ _ ih =>
      simp only [List.length_cons]
      omega
  | onePadding => simp
  | twoPaddings => simp

theorem Alphabet.ne_padding {c : UInt8} (listed : Alphabet c) : c ≠ 61 :=
  fun same => padding_not_alphabet (same ▸ listed)

theorem Base64Text.mem {text : Bytes} (valid : Base64Text text) :
    ∀ c ∈ text, Alphabet c ∨ c = 61 := by
  induction valid with
  | empty => simp
  | group ofA ofB ofC ofD _ ih => simpa [ofA, ofB, ofC, ofD] using ih
  | onePadding ofA ofB ofC => simp [ofA, ofB, ofC]
  | twoPaddings ofA ofB => simp [ofA, ofB]

theorem base64Text_quad {a b c d : UInt8} {rest : Bytes} :
    Base64Text (a :: b :: c :: d :: rest) ↔
      Alphabet a ∧ Alphabet b ∧
        (Alphabet c ∧ Alphabet d ∧ Base64Text rest ∨ Alphabet c ∧ d = 61 ∧ rest = [] ∨
          c = 61 ∧ d = 61 ∧ rest = []) := by
  constructor
  · intro valid
    cases valid with
    | group ofA ofB ofC ofD later => exact ⟨ofA, ofB, .inl ⟨ofC, ofD, later⟩⟩
    | onePadding ofA ofB ofC => exact ⟨ofA, ofB, .inr (.inl ⟨ofC, rfl, rfl⟩)⟩
    | twoPaddings ofA ofB => exact ⟨ofA, ofB, .inr (.inr ⟨rfl, rfl, rfl⟩)⟩
  · rintro ⟨ofA, ofB, ⟨ofC, ofD, later⟩ | ⟨ofC, rfl, rfl⟩ | ⟨rfl, rfl, rfl⟩⟩
    · exact .group ofA ofB ofC ofD later
    · exact .onePadding ofA ofB ofC
    · exact .twoPaddings ofA ofB

section

variable {base64 : Base64} (standard : base64.charlist = defaultCharlist)
include standard

theorem charmap_invalid (c : UInt8) :
    charmap base64.charlist c = base64Invalid ↔ ¬ (Alphabet c ∨ c = 61) := by
  rw [standard]
  rcases charmap_cases c with ⟨listed, other, value⟩ | ⟨_, rfl, value⟩ | ⟨missing, other, value⟩
  · refine iff_of_false (fun same => ?_) (fun foreign => foreign (.inl listed))
    rw [same] at value
    exact absurd value (by decide)
  · rw [value]
    simp [padding_valid]
  · exact iff_of_true value fun valid => valid.elim missing other

theorem charmap_pad (c : UInt8) : charmap base64.charlist c = base64Padding ↔ c = 61 := by
  rw [standard]
  rcases charmap_cases c with ⟨_, other, value⟩ | ⟨_, rfl, value⟩ | ⟨_, other, value⟩
  · refine iff_of_false (fun same => ?_) other
    rw [same] at value
    exact absurd value (by decide)
  · exact iff_of_true value rfl
  · rw [value]
    exact iff_of_false (fun same => padding_valid same.symm) other

theorem charmap_lt {c : UInt8} (listed : Alphabet c) : charmap base64.charlist c < 64 := by
  rw [standard]
  rcases charmap_cases c with ⟨_, _, small⟩ | ⟨missing, _⟩ | ⟨missing, _⟩
  · exact small
  · exact absurd listed missing
  · exact absurd listed missing

theorem decodeLoop_first {a b c d : UInt8} {rest : Bytes} {x : UInt8} {tail : Bytes}
    (ofA : Alphabet a) (ofB : Alphabet b)
    (written : (decodeLoop base64 (a :: b :: c :: d :: rest)).1 = x :: tail) :
    x.toNat / 4 = (charmap base64.charlist a).toNat := by
  have smallA := charmap_lt standard ofA
  have smallB := charmap_lt standard ofB
  have joinedFirst : ((charmap base64.charlist a) <<< 2) |||
      ((charmap base64.charlist b &&& 0x30) >>> 4) =
        joined ((charmap base64.charlist a).toNat * 4) ((charmap base64.charlist b).toNat / 16) := by
    have first := first_joined (charmap base64.charlist a).toNat smallA
      (charmap base64.charlist b).toNat smallB
    simpa using first
  have high : (charmap base64.charlist a).toNat < 64 := smallA
  have low : (charmap base64.charlist b).toNat < 64 := smallB
  simp only [decodeLoop, joinedFirst] at written
  have head : x = joined ((charmap base64.charlist a).toNat * 4)
      ((charmap base64.charlist b).toNat / 16) := by
    split_ifs at written <;> cases written <;> rfl
  rw [head, joined, UInt8.toNat_ofNat']
  omega

/-- One group: how many bytes it gives, and how it ends. -/
theorem decodeLoop_quad (a b c d : UInt8) (rest : Bytes) :
    (¬ (Alphabet a ∧ Alphabet b ∧ (Alphabet c ∨ c = 61) ∧ (Alphabet d ∨ d = 61)) ∧
        ∃ error, decodeLoop base64 (a :: b :: c :: d :: rest) = ([], some error)) ∨
      (Alphabet a ∧ Alphabet b ∧ c = 61 ∧ (Alphabet d ∨ d = 61) ∧
        ∃ x, decodeLoop base64 (a :: b :: c :: d :: rest) = ([x], none)) ∨
      (Alphabet a ∧ Alphabet b ∧ Alphabet c ∧ d = 61 ∧
        ∃ x y, decodeLoop base64 (a :: b :: c :: d :: rest) = ([x, y], none)) ∨
      (Alphabet a ∧ Alphabet b ∧ Alphabet c ∧ Alphabet d ∧
        ∃ x y z, decodeLoop base64 (a :: b :: c :: d :: rest) =
          (x :: y :: z :: (decodeLoop base64 rest).1, (decodeLoop base64 rest).2)) := by
  simp only [decodeLoop, charmap_invalid standard, charmap_pad standard]
  by_cases invalid : ¬ (Alphabet a ∨ a = 61) ∨ ¬ (Alphabet b ∨ b = 61) ∨
      ¬ (Alphabet c ∨ c = 61) ∨ ¬ (Alphabet d ∨ d = 61)
  · rw [if_pos invalid]
    refine .inl ⟨fun valid => ?_, _, rfl⟩
    rcases invalid with notA | notB | notC | notD
    · exact notA (.inl valid.1)
    · exact notB (.inl valid.2.1)
    · exact notC valid.2.2.1
    · exact notD valid.2.2.2
  rw [if_neg invalid]
  obtain ⟨validA, others⟩ := not_or.mp invalid
  obtain ⟨validB, others⟩ := not_or.mp others
  obtain ⟨validC, validD⟩ := not_or.mp others
  rw [not_not] at validA validB validC validD
  by_cases early : a = 61 ∨ b = 61
  · rw [if_pos early]
    refine .inl ⟨fun valid => ?_, _, rfl⟩
    rcases early with rfl | rfl
    · exact padding_not_alphabet valid.1
    · exact padding_not_alphabet valid.2.1
  rw [if_neg early]
  have ofA := validA.resolve_right fun same => early (.inl same)
  have ofB := validB.resolve_right fun same => early (.inr same)
  by_cases third : c = 61
  · rw [if_pos third]
    exact .inr (.inl ⟨ofA, ofB, third, validD, _, rfl⟩)
  rw [if_neg third]
  have ofC := validC.resolve_right third
  by_cases fourth : d = 61
  · rw [if_pos fourth]
    exact .inr (.inr (.inl ⟨ofA, ofB, ofC, fourth, _, _, rfl⟩))
  rw [if_neg fourth]
  exact .inr (.inr (.inr ⟨ofA, ofB, ofC, validD.resolve_right fourth, _, _, _, rfl⟩))

/-- The loop writes inside the buffer, and fills it just for a text in the right form. -/
theorem decodeLoop_spec (text : Bytes) (whole : text.length % 4 = 0) :
    (decodeLoop base64 text).1.length ≤ decodedLength text ∧
      ((decodeLoop base64 text).2 = none ∧
          (decodeLoop base64 text).1.length = decodedLength text ↔ Base64Text text) := by
  revert text
  refine quads_induction ?_ fun a b c d rest restWhole ih => ?_
  · exact ⟨by simp, iff_of_true ⟨rfl, by simp [decodedLength]⟩ .empty⟩
  rw [base64Text_quad]
  rcases decodeLoop_quad standard a b c d rest with ⟨foreign, error, loop⟩ |
    ⟨ofA, ofB, rfl, validD, x, loop⟩ | ⟨ofA, ofB, ofC, rfl, x, y, loop⟩ |
    ⟨ofA, ofB, ofC, ofD, x, y, z, loop⟩
  · rw [loop]
    refine ⟨Nat.zero_le _, iff_of_false (fun done => by cases done.1) ?_⟩
    rintro ⟨ofA, ofB, ⟨ofC, ofD, _⟩ | ⟨ofC, rfl, _⟩ | ⟨rfl, rfl, _⟩⟩
    · exact foreign ⟨ofA, ofB, .inl ofC, .inl ofD⟩
    · exact foreign ⟨ofA, ofB, .inl ofC, .inr rfl⟩
    · exact foreign ⟨ofA, ofB, .inr rfl, .inr rfl⟩
  · rw [loop]
    by_cases only : rest = []
    · subst only
      by_cases last : d = 61
      · simp [decodedLength, last, ofA, ofB]
      · simp [decodedLength, last, padding_not_alphabet]
    · rw [decodedLength_quad _ _ _ _ restWhole only]
      simp [only, padding_not_alphabet]
  · rw [loop]
    by_cases only : rest = []
    · subst only
      simp [decodedLength, ofC.ne_padding, ofA, ofB, ofC]
    · rw [decodedLength_quad _ _ _ _ restWhole only]
      simp [only, padding_not_alphabet, ofC.ne_padding]
  · rw [loop]
    have further : (Alphabet a ∧ Alphabet b ∧ (Alphabet c ∧ Alphabet d ∧ Base64Text rest ∨
        Alphabet c ∧ d = 61 ∧ rest = [] ∨ c = 61 ∧ d = 61 ∧ rest = [])) ↔ Base64Text rest := by
      simp [ofA, ofB, ofC, ofD, ofC.ne_padding, ofD.ne_padding]
    rw [further, ← ih.2]
    by_cases only : rest = []
    · subst only
      simp [decodedLength, ofD.ne_padding]
    · rw [decodedLength_quad _ _ _ _ restWhole only]
      simp only [List.length_cons, Nat.add_right_cancel_iff, and_true]
      omega

end

/-! ## The codec -/

theorem padding_eq (src : Bytes) : padding src.length = sextetPadding (sextets src).length := by
  rw [padding, sextetPadding, sextets_length]
  split_ifs <;> first | rfl | omega

theorem sextets_even (src : Bytes) : (sextets src).length % 4 ≠ 1 := by
  rw [sextets_length]
  omega

theorem default_plain : ∀ s < 64, defaultCharlist.getD s 0 ≠ 0 := by
  rw [defaultCharlist_bytes]
  decide

theorem addPadding_numbers (base64 : Base64) (numbers : List ℕ) (even : numbers.length % 4 ≠ 1) :
    addPadding (numbers.map (charOf base64)) =
      .ok (numbers.map (charOf base64) ++ sextetPadding numbers.length) := by
  rw [addPadding, List.length_map, if_neg even, sextetPadding]
  split_ifs <;> simp

section

variable {base64 : Base64} (standard : base64.charlist = defaultCharlist)
include standard

theorem base64Chars_nulFree (src : Bytes) : (0 : UInt8) ∉ base64Chars base64 src := by
  rw [base64Chars_eq, List.mem_append, not_or]
  constructor
  · intro zero
    obtain ⟨s, member, same⟩ := List.mem_map.mp zero
    rw [charOf, standard] at same
    exact default_plain s (sextets_lt src s member) same
  · rw [padding]
    split_ifs <;> simp

def stripped (base64 : Base64) (text : Bytes) : Bytes :=
  if base64.skipSpaces then text.filter fun c => !isSpace c else text

/-- A base64 text of some data: the characters of six-bit numbers, with the padding that belongs
there or a part of it. -/
def Base64Of (base64 : Base64) (text data : Bytes) : Prop :=
  ∃ (numbers : List ℕ) (pad : Bytes), (∀ s ∈ numbers, s < 64) ∧ numbers.length % 4 ≠ 1 ∧
    pad <+: sextetPadding numbers.length ∧
      stripped base64 text = numbers.map (charOf base64) ++ pad ∧ data = ofSextets numbers

omit standard in
theorem nulFree_of_stripped {text : Bytes} (nulFree : (0 : UInt8) ∉ stripped base64 text) :
    (0 : UInt8) ∉ text := by
  intro zero
  refine nulFree ?_
  rw [stripped]
  split
  · exact List.mem_filter.mpr ⟨zero, rfl⟩
  · exact zero

omit standard in
theorem base64Decode_stripped {text : Bytes} (nulFree : (0 : UInt8) ∉ text) :
    base64Decode base64 text =
      if base64.usePadding then decodePadded base64 (stripped base64 text)
      else
        match addPadding (stripped base64 text) with
        | .error error => ⟨0, [], error⟩
        | .ok inbuf => decodePadded base64 inbuf := by
  have removed : removeSpaces text.length 0 text = text.filter fun c => !isSpace c :=
    removeSpaces_eq text []
  simp only [base64Decode, CString.ofBytes_chars nulFree, removed]
  rfl

theorem base64Chars_mem (src : Bytes) : ∀ c ∈ base64Chars base64 src, Alphabet c ∨ c = 61 := by
  intro c member
  rw [base64Chars_eq, List.mem_append] at member
  rcases member with member | member
  · obtain ⟨s, listed, rfl⟩ := List.mem_map.mp member
    rw [charOf, standard]
    exact .inl (charOf_alphabet s (sextets_lt src s listed))
  · rw [padding] at member
    right
    split_ifs at member
    · simpa using member
    · simpa using member
    · simp at member
    · simp at member

theorem base64Decode_encoded (src text : Bytes)
    (encoded : stripped base64 text = base64Chars base64 src) :
    base64Decode base64 text = ⟨src.length, src, src.length⟩ := by
  have read := decodePadded_numbers standard (sextets src) (sextets_lt src) (sextets_even src)
  rw [ofSextets_sextets] at read
  have nulFree := nulFree_of_stripped (encoded ▸ base64Chars_nulFree standard src)
  rw [base64Decode_stripped nulFree, encoded, base64Chars_eq]
  by_cases padded : base64.usePadding
  · rw [if_pos padded, if_pos padded, padding_eq]
    exact read
  · rw [if_neg padded, if_neg padded, List.append_nil, addPadding_numbers _ _ (sextets_even src)]
    exact read

theorem base64Decode_of (unpadded : base64.usePadding = false) {text data : Bytes}
    (nulFree : (0 : UInt8) ∉ text) (textOf : Base64Of base64 text data) :
    base64Decode base64 text = ⟨data.length, data, data.length⟩ := by
  obtain ⟨numbers, pad, small, even, part, shown, rfl⟩ := textOf
  have added : addPadding (numbers.map (charOf base64) ++ pad) =
      .ok (numbers.map (charOf base64) ++ sextetPadding numbers.length) := by
    have pads : ∀ pad ∈ (sextetPadding numbers.length).inits,
        addPadding (numbers.map (charOf base64) ++ pad) =
          .ok (numbers.map (charOf base64) ++ sextetPadding numbers.length) := by
      have cases : numbers.length % 4 = 0 ∨ numbers.length % 4 = 2 ∨ numbers.length % 4 = 3 := by
        omega
      simp only [addPadding, sextetPadding, List.length_append, List.length_map]
      rcases cases with rest | rest | rest
      · simp [rest]
      · simp [rest, Nat.add_mod]
      · simp [rest, Nat.add_mod]
    exact pads pad (List.mem_inits _ _ |>.mpr part)
  rw [base64Decode_stripped nulFree, shown, if_neg (by simp [unpadded]), added]
  exact decodePadded_numbers standard numbers small even

/-- Every base64 text is one of six-bit numbers. -/
theorem Base64Text.numbers {text : Bytes} (valid : Base64Text text) :
    ∃ numbers : List ℕ, (∀ s ∈ numbers, s < 64) ∧ numbers.length % 4 ≠ 1 ∧
      text = numbers.map (charOf base64) ++ sextetPadding numbers.length := by
  have number : ∀ {c : UInt8}, Alphabet c → ∃ s < 64, charOf base64 s = c := by
    intro c listed
    obtain ⟨s, inside, rfl⟩ := listed.number
    exact ⟨s, inside, by rw [charOf, standard]⟩
  induction valid with
  | empty => exact ⟨[], by simp, by decide, rfl⟩
  | group ofA ofB ofC ofD _ ih =>
      obtain ⟨a, smallA, rfl⟩ := number ofA
      obtain ⟨b, smallB, rfl⟩ := number ofB
      obtain ⟨c, smallC, rfl⟩ := number ofC
      obtain ⟨d, smallD, rfl⟩ := number ofD
      obtain ⟨numbers, small, even, rfl⟩ := ih
      refine ⟨a :: b :: c :: d :: numbers, by simpa [smallA, smallB, smallC, smallD] using small,
        by simp only [List.length_cons]; omega, ?_⟩
      have same : sextetPadding (a :: b :: c :: d :: numbers).length =
          sextetPadding numbers.length := by
        simp only [sextetPadding, List.length_cons, Nat.add_assoc, Nat.reduceAdd, Nat.add_mod_right]
      rw [same]
      rfl
  | onePadding ofA ofB ofC =>
      obtain ⟨a, smallA, rfl⟩ := number ofA
      obtain ⟨b, smallB, rfl⟩ := number ofB
      obtain ⟨c, smallC, rfl⟩ := number ofC
      exact ⟨[a, b, c], by simp [smallA, smallB, smallC], by simp, rfl⟩
  | twoPaddings ofA ofB =>
      obtain ⟨a, smallA, rfl⟩ := number ofA
      obtain ⟨b, smallB, rfl⟩ := number ofB
      exact ⟨[a, b], by simp [smallA, smallB], by simp, rfl⟩

theorem decodePadded_inside (inbuf : Bytes) :
    (decodePadded base64 inbuf).written.length ≤ (decodePadded base64 inbuf).outbuflen := by
  rw [decodePadded]
  by_cases whole : inbuf.length % 4 = 0
  · rw [if_neg (not_not.mpr whole)]
    exact (decodeLoop_spec standard inbuf whole).1
  · rw [if_pos whole]
    exact Nat.zero_le _

theorem base64Decode_inside (text : Bytes) :
    (base64Decode base64 text).written.length ≤ (base64Decode base64 text).outbuflen := by
  simp only [base64Decode]
  generalize (if base64.skipSpaces then removeSpaces _ 0 _ else _ : Bytes) = inbuf
  by_cases padded : base64.usePadding
  · rw [if_pos padded]
    exact decodePadded_inside standard inbuf
  · rw [if_neg padded]
    split
    · exact Nat.zero_le _
    · exact decodePadded_inside standard _

theorem decodePadded_succeeds (inbuf : Bytes) :
    0 ≤ (decodePadded base64 inbuf).result ↔ Base64Text inbuf := by
  rw [decodePadded]
  by_cases whole : inbuf.length % 4 = 0
  · rw [if_neg (not_not.mpr whole), ← (decodeLoop_spec standard inbuf whole).2]
    have negative := decodeLoop_negative base64 inbuf
    simp only
    cases ending : (decodeLoop base64 inbuf).2 with
    | some error =>
        refine iff_of_false (fun positive => ?_) (fun done => by cases done.1)
        exact absurd positive (not_le.mpr (negative error ending))
    | none =>
        by_cases full : (decodeLoop base64 inbuf).1.length = decodedLength inbuf
        · simp [full]
        · simp [full]
  · rw [if_pos whole]
    exact iff_of_false (by decide) fun valid => whole valid.whole

theorem base64Decode_succeeds (padded : base64.usePadding = true)
    (kept : base64.skipSpaces = false) {text : Bytes} (nulFree : (0 : UInt8) ∉ text) :
    0 ≤ (base64Decode base64 text).result ↔ Base64Text text := by
  rw [base64Decode_stripped nulFree, if_pos padded, decodePadded_succeeds standard, stripped,
    if_neg (by simp [kept])]

/-- Without padding, just the texts of some data are decoded, and to these. -/
theorem base64Of_of_success (unpadded : base64.usePadding = false) {text : Bytes}
    (nulFree : (0 : UInt8) ∉ text) (success : 0 ≤ (base64Decode base64 text).result) :
    Base64Of base64 text (base64Decode base64 text).written := by
  rw [base64Decode_stripped nulFree, if_neg (by simp [unpadded])] at success ⊢
  cases added : addPadding (stripped base64 text) with
  | error error =>
      rw [added] at success
      refine absurd success (not_le.mpr ?_)
      rw [addPadding] at added
      split_ifs at added
      cases added
      exact (by decide : (-2 : ℤ) < 0)
  | ok inbuf =>
      rw [added] at success
      obtain ⟨numbers, small, even, rfl⟩ :=
        Base64Text.numbers standard ((decodePadded_succeeds standard _).mp success)
      simp only [decodePadded_numbers standard numbers small even]
      obtain ⟨equals, all, split⟩ : ∃ equals : Bytes, (∀ c ∈ equals, c = 61) ∧
          stripped base64 text ++ equals =
            numbers.map (charOf base64) ++ sextetPadding numbers.length := by
        rw [addPadding] at added
        split_ifs at added
        · exact ⟨[61, 61], by simp, Except.ok.inj added⟩
        · exact ⟨[61], by simp, Except.ok.inj added⟩
        · exact ⟨[], by simp, by rw [List.append_nil]; exact Except.ok.inj added⟩
      rcases List.append_eq_append_iff.mp split with ⟨more, shown, behind⟩ | ⟨pad, shown, behind⟩
      · -- what is left of the numbers would have to be padding
        have none : more = [] := by
          cases more with
          | nil => rfl
          | cons c rest =>
              obtain ⟨s, member, same⟩ := List.mem_map.mp
                (show c ∈ numbers.map (charOf base64) by rw [shown]; simp)
              have sign : c = 61 := all c (by rw [behind]; simp)
              exact absurd (same.trans sign) (charOf_ne_padding standard (small s member))
        rw [none, List.append_nil] at shown
        exact ⟨numbers, [], small, even, List.nil_prefix, by rw [shown, List.append_nil], rfl⟩
      · exact ⟨numbers, pad, small, even, ⟨equals, behind.symm⟩, shown, rfl⟩

/-- What is decoded is, once padded, a base64 text. -/
theorem base64Text_of_success {text : Bytes} (nulFree : (0 : UInt8) ∉ text)
    (success : 0 ≤ (base64Decode base64 text).result) :
    ∃ inbuf, Base64Text inbuf ∧ stripped base64 text <+: inbuf ∧
      (base64Decode base64 text).written = (decodeLoop base64 inbuf).1 := by
  rw [base64Decode_stripped nulFree] at success ⊢
  have written : ∀ inbuf, Base64Text inbuf →
      (decodePadded base64 inbuf).written = (decodeLoop base64 inbuf).1 := by
    intro inbuf valid
    rw [decodePadded, if_neg (not_not.mpr valid.whole)]
  by_cases padded : base64.usePadding
  · rw [if_pos padded] at success ⊢
    have valid := (decodePadded_succeeds standard _).mp success
    exact ⟨_, valid, List.prefix_rfl, written _ valid⟩
  · rw [if_neg padded] at success ⊢
    cases added : addPadding (stripped base64 text) with
    | error error =>
        rw [added] at success
        refine absurd success (not_le.mpr ?_)
        rw [addPadding] at added
        split_ifs at added
        cases added
        exact (by decide : (-2 : ℤ) < 0)
    | ok inbuf =>
        rw [added] at success
        have valid := (decodePadded_succeeds standard _).mp success
        refine ⟨inbuf, valid, ?_, written _ valid⟩
        rw [addPadding] at added
        split_ifs at added <;> cases added <;> simp

end

theorem base64EncodedLength_int (base64 : Base64) {srclen : ℕ} (short : srclen ≤ 1610612730) :
    base64EncodedLength base64 srclen + 3 < 2 ^ 31 := by
  rw [base64EncodedLength]
  dsimp only
  split_ifs <;> omega

/-- The round trip of the codec, the texts that it accepts, its buffer, and how many bytes can be
encoded and decoded before a size is too large for its `int`. -/
theorem base64_codec :
    (∀ (usePadding skipSpaces : Bool) (src : Bytes),
      ∃ chars : Bytes, (0 : UInt8) ∉ chars ∧
        base64Encode (.ofDefault usePadding skipSpaces) src = (chars ++ [0], chars.length) ∧
        chars.length = base64EncodedLength (.ofDefault usePadding skipSpaces) src.length - 1 ∧
        ∀ text, (if skipSpaces then text.filter fun c => !isSpace c else text) = chars →
          base64Decode (.ofDefault usePadding skipSpaces) text = ⟨src.length, src, src.length⟩) ∧
      (∀ text : Bytes, (0 : UInt8) ∉ text →
        (0 ≤ (base64Decode (.ofDefault true false) text).result ↔ Base64Text text)) ∧
      (∀ (usePadding skipSpaces : Bool) (text : Bytes),
        (base64Decode (.ofDefault usePadding skipSpaces) text).written.length ≤
          (base64Decode (.ofDefault usePadding skipSpaces) text).outbuflen) ∧
      ∀ (usePadding skipSpaces : Bool), ∀ srclen ≤ 1610612730,
        base64EncodedLength (.ofDefault usePadding skipSpaces) srclen + 3 < 2 ^ 31 := by
  refine ⟨fun usePadding skipSpaces src => ?_,
    fun text nulFree => base64Decode_succeeds rfl rfl rfl nulFree,
    fun usePadding skipSpaces text => base64Decode_inside rfl text,
    fun usePadding skipSpaces srclen short => base64EncodedLength_int _ short⟩
  have length := base64Chars_length (.ofDefault usePadding skipSpaces) src
  exact ⟨base64Chars (.ofDefault usePadding skipSpaces) src, base64Chars_nulFree rfl src, rfl,
    by omega, @base64Decode_encoded (.ofDefault usePadding skipSpaces) rfl src⟩

theorem spacedText_decoded :
    base64Decode (.ofDefault true true) (bytesOf " TW\n=") = ⟨0, [], -3⟩ ∧
      base64Decode (.ofDefault true true) (bytesOf " TQ\n= =") = ⟨1, bytesOf "M", 1⟩ ∧
        0 ≤ (base64Decode (.ofDefault true false) (bytesOf "TWFu")).result := by
  obtain ⟨roundTrip, accepted, _⟩ := base64_codec
  obtain ⟨chars, _, encoded, _, decoded⟩ := roundTrip true true (bytesOf "M")
  have known : base64Encode (.ofDefault true true) (bytesOf "M") = (bytesOf "TQ==" ++ [0], 4) := by
    decide
  rw [known] at encoded
  obtain rfl : bytesOf "TQ==" = chars := List.append_cancel_right (Prod.mk.inj encoded).1
  refine ⟨by decide, decoded (bytesOf " TQ\n= =") (by decide), ?_⟩
  refine (accepted (bytesOf "TWFu") (by decide)).mpr ?_
  exact .group (by decide) (by decide) (by decide) (by decide) .empty

end AirCast.Crypt
