import AirCast.CString

/-! # The Java strings of the receiver

A Java string is its list of characters.  `length` counts the UTF-16 units, as
the Java method does; the other functions only look at whole characters. -/

set_option autoImplicit false

namespace AirCast

abbrev JString := List Char

namespace JString

def units (c : Char) : ℕ := if c.toNat < 0x10000 then 1 else 2

def length (text : JString) : ℕ := (text.map units).sum

def contains (text pattern : JString) : Bool := decide (pattern <:+: text)

def replaceChar (text : JString) (target : Char) (replacement : JString) : JString :=
  text.flatMap fun c => if c = target then replacement else [c]

/-- `split` for a pattern of one character: empty pieces at the end are dropped, and a text
without the separator is its own only piece. -/
def split (text : JString) (separator : Char) : List JString :=
  if separator ∈ text then (text.splitOn separator).rdropWhile (· = []) else [text]

def getBytes (text : JString) : Bytes := text.flatMap String.utf8EncodeChar

def ofBytes (bytes : Bytes) : JString := (bytes.toByteArray.utf8Decode?.getD #[]).toList

theorem ofBytes_getBytes (text : JString) : ofBytes (getBytes text) = text := by
  have decoded : (getBytes text).toByteArray.utf8Decode? = some text.toArray :=
    List.utf8Decode?_utf8Encode
  rw [ofBytes, decoded]
  rfl

/-- `Character.toLowerCase(Character.toUpperCase(c))` where the result is an ASCII letter;
the last four are the letters outside ASCII that fold to one. -/
def foldCase (c : Char) : Char :=
  if c = 'ı' ∨ c = 'İ' then 'i'
  else if c = 'ſ' then 's'
  else if c = '\u212A' then 'k'
  else c.toLower

def equalsIgnoreCase (text ascii : JString) : Bool :=
  decide (text.map foldCase = ascii.map foldCase)

def decimalZeros : List ℕ :=
  [0x0030, 0x0660, 0x06F0, 0x07C0, 0x0966, 0x09E6, 0x0A66, 0x0AE6, 0x0B66, 0x0BE6, 0x0C66,
    0x0CE6, 0x0D66, 0x0DE6, 0x0E50, 0x0ED0, 0x0F20, 0x1040, 0x1090, 0x17E0, 0x1810, 0x1946,
    0x19D0, 0x1A80, 0x1A90, 0x1B50, 0x1BB0, 0x1C40, 0x1C50, 0xA620, 0xA8D0, 0xA900, 0xA9D0,
    0xA9F0, 0xAA50, 0xABF0, 0xFF10]

/-- `Character.digit(c, 10)`. -/
def digit (c : Char) : Option ℤ :=
  (decimalZeros.find? fun first => first ≤ c.toNat ∧ c.toNat < first + 10).map
    fun first => (c.toNat : ℤ) - first

def digitsValue : ℤ → JString → Option ℤ
  | value, [] => some value
  | value, c :: rest => (digit c).bind fun d => digitsValue (10 * value + d) rest

/-- `Integer.valueOf`; `none` is the `NumberFormatException`. -/
def integerValueOf (text : JString) : Option ℤ :=
  let signed : ℤ × JString :=
    match text with
    | '-' :: digits => (-1, digits)
    | '+' :: digits => (1, digits)
    | digits => (1, digits)
  if signed.2 = [] then none
  else
    (digitsValue 0 signed.2).bind fun magnitude =>
      let value := signed.1 * magnitude
      if -2 ^ 31 ≤ value ∧ value < 2 ^ 31 then some value else none

theorem getBytes_append (text other : JString) :
    getBytes (text ++ other) = getBytes text ++ getBytes other := List.flatMap_append

theorem getBytes_ne_nil {text : JString} (nonempty : text ≠ []) : getBytes text ≠ [] := by
  obtain ⟨c, rest, rfl⟩ := List.exists_cons_of_ne_nil nonempty
  rw [getBytes, List.flatMap_cons]
  exact List.append_ne_nil_of_left_ne_nil String.utf8EncodeChar_ne_nil _

theorem bytesOf_ascii {text : String} (ascii : text.toList.all (fun c => c.toNat < 128) = true) :
    bytesOf text = getBytes text.toList := by
  have one : ∀ c ∈ text.toList, String.utf8EncodeChar c = [c.toUInt8] := by
    intro c member
    have small : c.toNat < 128 := by simpa using List.all_eq_true.mp ascii c member
    exact if_pos (Nat.le_of_lt_succ small)
  rw [bytesOf, getBytes, List.flatMap_congr one, List.map_eq_flatMap]

theorem zero_mem_utf8 {c : Char} (member : (0 : UInt8) ∈ String.utf8EncodeChar c) : c = '\x00' := by
  have byte : ∀ n : ℕ, (0 : UInt8) = UInt8.ofNat n → n % 256 = 0 := by
    intro n isZero
    simpa using (congrArg UInt8.toNat isZero).symm
  rw [String.utf8EncodeChar] at member
  split_ifs at member
  · have isZero := byte _ (List.mem_singleton.mp member)
    have same : c.toNat = c.val.toNat := rfl
    have nul : '\x00'.toNat = 0 := rfl
    refine Char.toNat_inj.mp ?_
    omega
  · simp only [List.mem_cons, List.not_mem_nil, or_false] at member
    have one := member.imp (byte _) (byte _)
    omega
  · simp only [List.mem_cons, List.not_mem_nil, or_false] at member
    have one := member.imp (byte _) (Or.imp (byte _) (byte _))
    omega
  · simp only [List.mem_cons, List.not_mem_nil, or_false] at member
    have one := member.imp (byte _) (Or.imp (byte _) (Or.imp (byte _) (byte _)))
    omega

theorem nulFree_getBytes {text : JString} (nulFree : '\x00' ∉ text) :
    (0 : UInt8) ∉ getBytes text := by
  intro member
  obtain ⟨c, inside, hasNul⟩ := List.mem_flatMap.mp member
  exact nulFree (zero_mem_utf8 hasNul ▸ inside)

theorem digit_isDigit {c : Char} (isDigit : c.isDigit = true) :
    digit c = some ((c.toNat - '0'.toNat : ℕ) : ℤ) := by
  have low : 0x30 ≤ c.toNat := by
    have bounds := Char.isDigit_iff_toNat.mp isDigit
    exact bounds.1
  have high : c.toNat < 0x30 + 10 := by
    have bounds := Char.isDigit_iff_toNat.mp isDigit
    have : c.toNat ≤ 57 := bounds.2
    omega
  have first : decimalZeros.find? (fun first => first ≤ c.toNat ∧ c.toNat < first + 10) =
      some 0x30 := by
    rw [decimalZeros, List.find?_cons_of_pos]
    exact decide_eq_true ⟨low, high⟩
  have value : ((c.toNat - '0'.toNat : ℕ) : ℤ) = c.toNat - 0x30 := Nat.cast_sub low
  rw [digit, first, value]
  rfl

theorem digitsValue_digits {text : JString} (digits : ∀ c ∈ text, c.isDigit = true) (n : ℕ) :
    digitsValue n text = some (Nat.ofDigitChars 10 text n : ℤ) := by
  induction text generalizing n with
  | nil => rfl
  | cons c rest ih =>
      rw [digitsValue, digit_isDigit (digits c List.mem_cons_self), Option.bind_some,
        Nat.ofDigitChars_cons, ← ih fun d member => digits d (List.mem_cons_of_mem c member)]
      push_cast
      rfl

theorem integerValueOf_digits {text : JString} (nonempty : text ≠ [])
    (digits : ∀ c ∈ text, c.isDigit = true) (small : Nat.ofDigitChars 10 text 0 < 2 ^ 31) :
    integerValueOf text = some (Nat.ofDigitChars 10 text 0 : ℤ) := by
  obtain ⟨c, rest, rfl⟩ := List.exists_cons_of_ne_nil nonempty
  have isDigit := digits c List.mem_cons_self
  have noMinus : c ≠ '-' := by
    rintro rfl
    cases isDigit
  have noPlus : c ≠ '+' := by
    rintro rfl
    cases isDigit
  have read := digitsValue_digits digits 0
  rw [Nat.cast_zero] at read
  rw [integerValueOf]
  · dsimp only
    rw [if_neg nonempty, read, Option.bind_some, one_mul, if_pos]
    constructor <;> omega
  · exact fun _ same => noMinus (List.cons.inj same).1
  · exact fun _ same => noPlus (List.cons.inj same).1

theorem split_intercalate {separator : Char} {pieces : List JString} (nonempty : pieces ≠ [])
    (free : ∀ piece ∈ pieces, separator ∉ piece) (last : pieces.getLast nonempty ≠ []) :
    split ([separator].intercalate pieces) separator = pieces := by
  have cut : ([separator].intercalate pieces).splitOn separator = pieces :=
    List.splitOn_intercalate separator free nonempty
  rw [split]
  split_ifs with member
  · rw [cut, List.rdropWhile_eq_self_iff]
    intro _
    simpa using last
  · rw [← List.splitOn_eq_singleton member, cut]

end JString

end AirCast
