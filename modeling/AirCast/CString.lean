import Mathlib

/-! # C strings and the string functions the sources call

A C string is the bytes before its terminator, so it holds no NUL byte; the
subtype carries that fact.  `ofBytes` reads the string that starts at the first
byte of a memory area. -/

set_option autoImplicit false

namespace AirCast

abbrev Bytes := List UInt8

def bytesOf (text : String) : Bytes := text.toList.map Char.toUInt8

/-- Conversion of an `int` or `size_t` value to `int`. -/
def toInt (n : ℤ) : ℤ := n.bmod (2 ^ 32)

theorem toInt_small {n : ℤ} (low : -2 ^ 31 ≤ n) (high : n < 2 ^ 31) : toInt n = n := by
  unfold toInt
  exact Int.bmod_eq_of_le (by omega) (by omega)

structure CString where
  chars : Bytes
  nulFree : (0 : UInt8) ∉ chars
  deriving DecidableEq

namespace CString

@[ext] theorem ext {s t : CString} (same : s.chars = t.chars) : s = t := by
  cases s
  cases t
  simpa using same

def ofBytes (memory : Bytes) : CString where
  chars := memory.takeWhile (· ≠ 0)
  nulFree := by
    intro member
    have nonzero := List.mem_takeWhile_imp member
    simp at nonzero

def lit (text : String) : CString := ofBytes (bytesOf text)

theorem ofBytes_chars {text : Bytes} (nulFree : (0 : UInt8) ∉ text) :
    (ofBytes text).chars = text := by
  refine List.takeWhile_eq_self_iff.mpr fun c member => ?_
  exact decide_eq_true fun zero => nulFree (zero ▸ member)

theorem lit_chars (text : String) (nulFree : (0 : UInt8) ∉ bytesOf text) :
    (lit text).chars = bytesOf text := ofBytes_chars nulFree

def strlen (s : CString) : ℕ := s.chars.length

end CString

/-- `strstr`: the text before the first occurrence of `needle` and the text
after it. -/
def strstr (needle : Bytes) : Bytes → Option (Bytes × Bytes)
  | [] => if needle = [] then some ([], []) else none
  | c :: rest =>
      if needle.isPrefixOf (c :: rest) then some ([], (c :: rest).drop needle.length)
      else (strstr needle rest).map fun parts => (c :: parts.1, parts.2)

theorem strstr_byte_none {c : UInt8} {text : Bytes} : strstr [c] text = none ↔ c ∉ text := by
  induction text with
  | nil => simp [strstr]
  | cons d rest ih =>
      rw [strstr]
      by_cases same : c = d
      · simp [same, List.isPrefixOf]
      · simp [same, List.isPrefixOf, ih]

/-- The first occurrence of a byte. -/
theorem strstr_byte {c : UInt8} : ∀ {text before behind : Bytes},
    strstr [c] text = some (before, behind) ↔ text = before ++ c :: behind ∧ c ∉ before := by
  intro text
  induction text with
  | nil => intro before behind; simp [strstr]
  | cons d rest ih =>
      intro before behind
      rw [strstr]
      by_cases same : c = d
      · subst same
        cases before with
        | nil => simp [List.isPrefixOf]
        | cons e before =>
            simp only [List.isPrefixOf, BEq.rfl, Bool.and_self, if_true, Option.some.injEq,
              Prod.mk.injEq, reduceCtorEq, false_and, List.cons_append, List.cons.injEq,
              List.mem_cons, not_or, false_iff, not_and]
            exact fun split absent => absurd split.1 absent
      · have absent : [c].isPrefixOf (d :: rest) = false := by simp [List.isPrefixOf, same]
        rw [absent, if_neg (by simp), Option.map_eq_some_iff]
        constructor
        · rintro ⟨⟨front, back⟩, found, parts⟩
          obtain ⟨rfl, rfl⟩ := Prod.mk.inj parts
          obtain ⟨rfl, fresh⟩ := ih.mp found
          exact ⟨rfl, by simpa [same] using fresh⟩
        · rintro ⟨split, fresh⟩
          cases before with
          | nil => exact absurd (List.cons.inj split).1.symm same
          | cons e before =>
              obtain ⟨rfl, rfl⟩ := List.cons.inj split
              refine ⟨(before, behind), ih.mpr ⟨rfl, ?_⟩, rfl⟩
              exact fun member => fresh (List.mem_cons_of_mem _ member)

theorem strstr_first {needle behind : Bytes} (nonempty : needle ≠ []) : ∀ {before : Bytes},
    (∀ i < before.length, ¬ needle <+: (before ++ (needle ++ behind)).drop i) →
      strstr needle (before ++ (needle ++ behind)) = some (before, behind) := by
  intro before
  induction before with
  | nil =>
      intro _
      obtain ⟨c, rest, rfl⟩ := List.exists_cons_of_ne_nil nonempty
      have begins : (c :: rest).isPrefixOf (c :: (rest ++ behind)) = true :=
        List.isPrefixOf_iff_prefix.mpr (List.prefix_append (c :: rest) behind)
      rw [List.nil_append, List.cons_append, strstr, if_pos begins, ← List.cons_append,
        List.drop_left]
  | cons c before ih =>
      intro later
      have here := later 0 (Nat.succ_pos _)
      rw [List.drop_zero, List.cons_append] at here
      rw [List.cons_append, strstr,
        if_neg (fun begins => here (List.isPrefixOf_iff_prefix.mp begins)),
        ih fun i small => later (i + 1) (Nat.succ_lt_succ small)]
      rfl

/-- `utils_strsep`: the token cut off, and the new value of `*stringp`. -/
def utilsStrsep (delim : Bytes) : Option Bytes → Option Bytes × Option Bytes
  | none => (none, none)
  | some text =>
      match strstr delim text with
      | none => (some text, none)
      | some (token, rest) => (some token, some rest)

def isSpace (c : UInt8) : Bool := c = 32 || (9 ≤ c && c ≤ 13)

def isDigit (c : UInt8) : Bool := 48 ≤ c && c ≤ 57

def digitsValue : ℤ → Bytes → ℤ
  | value, [] => value
  | value, c :: rest =>
      if isDigit c then digitsValue (10 * value + (c.toNat - 48)) rest else value

def decimalValue (text : Bytes) : ℤ :=
  match text.dropWhile isSpace with
  | 45 :: digits => -digitsValue 0 digits
  | 43 :: digits => digitsValue 0 digits
  | digits => digitsValue 0 digits

/-- The targets of the native library. -/
inductive Abi where
  | arm64V8a
  | armeabiV7a
  deriving DecidableEq

def Abi.longMax : Abi → ℤ
  | .arm64V8a => 2 ^ 63 - 1
  | .armeabiV7a => 2 ^ 31 - 1

/-- `strtol` with base 10: a number outside `long` is taken for the nearest end of it. -/
def strtol (abi : Abi) (text : Bytes) : ℤ :=
  max (-abi.longMax - 1) (min abi.longMax (decimalValue text))

/-- `atoi`: the `long` converted to `int`. -/
def atoi (abi : Abi) (text : Bytes) : ℤ := toInt (strtol abi text)

theorem atoi_small {abi : Abi} {text : Bytes} (low : -2 ^ 31 ≤ decimalValue text)
    (high : decimalValue text < 2 ^ 31) : atoi abi text = decimalValue text := by
  have inside : strtol abi text = decimalValue text := by
    unfold strtol
    cases abi with
    | arm64V8a => simp only [Abi.longMax]; omega
    | armeabiV7a => simp only [Abi.longMax]; omega
  rw [atoi, inside, toInt_small low high]

theorem digitsValue_bound : ∀ (digits : Bytes) (value : ℤ), 0 ≤ value →
    0 ≤ digitsValue value digits ∧ digitsValue value digits < (value + 1) * 10 ^ digits.length := by
  intro digits
  induction digits with
  | nil => intro value nonneg; simpa [digitsValue] using nonneg
  | cons c rest ih =>
      intro value nonneg
      rw [digitsValue]
      by_cases digit : isDigit c
      · have bounds : 48 ≤ c.toNat ∧ c.toNat ≤ 57 := by
          simpa [isDigit, UInt8.le_iff_toNat_le] using digit
        obtain ⟨low, high⟩ := ih (10 * value + (c.toNat - 48)) (by omega)
        rw [if_pos digit]
        refine ⟨low, high.trans_le ?_⟩
        rw [List.length_cons, pow_succ']
        have step : 10 * value + (c.toNat - 48) + 1 ≤ (value + 1) * 10 := by omega
        calc (10 * value + ((c.toNat : ℤ) - 48) + 1) * 10 ^ rest.length
            ≤ (value + 1) * 10 * 10 ^ rest.length :=
              mul_le_mul_of_nonneg_right step (by positivity)
          _ = (value + 1) * (10 * 10 ^ rest.length) := mul_assoc _ _ _
      · rw [if_neg digit]
        refine ⟨nonneg, ?_⟩
        have one : (1 : ℤ) ≤ 10 ^ (c :: rest).length := one_le_pow₀ (by norm_num)
        nlinarith

theorem decimalValue_bound (text : Bytes) :
    -10 ^ text.length < decimalValue text ∧ decimalValue text < 10 ^ text.length := by
  have within : ∀ digits : Bytes, digits.length ≤ text.length →
      0 ≤ digitsValue 0 digits ∧ digitsValue 0 digits < 10 ^ text.length := by
    intro digits short
    obtain ⟨low, high⟩ := digitsValue_bound digits 0 le_rfl
    rw [zero_add, one_mul] at high
    exact ⟨low, high.trans_le (pow_le_pow_right₀ (by norm_num) short)⟩
  have trimmed := (List.dropWhile_suffix isSpace (l := text)).length_le
  unfold decimalValue
  split
  · rename_i digits same
    rw [same, List.length_cons] at trimmed
    have bound := within digits (by omega)
    omega
  · rename_i digits same
    rw [same, List.length_cons] at trimmed
    have bound := within digits (by omega)
    omega
  · have bound := within _ trimmed
    omega

end AirCast
