import AirCast.Center.JString

/-! # The seek time

The native side prints the position of a seek as a clock text, and `DlnaUtils`
reads it back.  The texts hold ASCII characters only, so the Java string has the
characters of the C string. -/

set_option autoImplicit false

namespace AirCast.Center

/-- What a Java `int` or a `long` of 32 bits holds. -/
def InInt (value : ℤ) : Prop := -2147483648 ≤ value ∧ value ≤ 2147483647

def twoDigits (n : ℤ) : JString :=
  if n < 0 then '-' :: Nat.toDigits 10 n.natAbs else (Nat.toDigits 10 n.natAbs).leftpad 2 '0'

def seekLabel : JString := "REL_TIME=".toList

def airplaySeek (fPosition : ℤ) : JString :=
  let fPosition := fPosition.tdiv 1000
  seekLabel ++ twoDigits (fPosition.tdiv 3600) ++ ':' ::
    twoDigits ((fPosition - fPosition.tdiv 3600 * 3600).tdiv 60) ++ ':' ::
    twoDigits (fPosition - fPosition.tdiv 3600 * 3600 -
      (fPosition - fPosition.tdiv 3600 * 3600).tdiv 60 * 60)

/-- The values that `airplay_seek` computes on the way. -/
def seekValues (fPosition : ℤ) : List ℤ :=
  let seconds := fPosition.tdiv 1000
  let hours := seconds.tdiv 3600
  let mins := (seconds - hours * 3600).tdiv 60
  [seconds, hours, hours * 3600, seconds - hours * 3600, mins, mins * 60,
    seconds - hours * 3600 - mins * 60]

namespace DlnaUtils

def MEDIA_SEEK_TIME_TYPE_REL_TIME : JString := "REL_TIME".toList

def isNumeric (text : JString) : Bool := text ≠ [] && text.all Char.isDigit

/-- The numbers of a text "hh:mm:ss" or "hh:mm:ss.mmm". -/
structure RelTime where
  hour : ℤ
  min : ℤ
  sec : ℤ
  ms : ℤ
  deriving DecidableEq

namespace RelTime

/-- The returned sum, in `int` arithmetic. -/
def toMs (time : RelTime) : ℤ :=
  toInt (toInt (toInt (toInt (time.hour * 3600000) + toInt (time.min * 60000)) +
    toInt (time.sec * 1000)) + time.ms)

def values (time : RelTime) : List ℤ :=
  [time.hour * 3600000, time.min * 60000, time.hour * 3600000 + time.min * 60000,
    time.sec * 1000, time.hour * 3600000 + time.min * 60000 + time.sec * 1000,
    time.hour * 3600000 + time.min * 60000 + time.sec * 1000 + time.ms]

end RelTime

/-- The numbers that `convertSeekRelTimeToMs` reads: `some none` where it returns zero
without them, `none` where a number is too large for `parseInt`. -/
def relTime (reltime : JString) : Option (Option RelTime) :=
  match reltime.split ':' with
  | [hours, mins, secs] => do
      if !isNumeric hours then return none
      let hour ← hours.integerValueOf
      if !isNumeric mins then return none
      let min ← mins.integerValueOf
      match secs.split '.' with
      | [whole, fraction] =>
          if !isNumeric whole then return none
          let sec ← whole.integerValueOf
          if !isNumeric fraction then return none
          let ms ← fraction.integerValueOf
          return some ⟨hour, min, sec, ms⟩
      | [whole] =>
          if !isNumeric whole then return none
          let sec ← whole.integerValueOf
          return some ⟨hour, min, sec, 0⟩
      | _ => return some ⟨hour, min, 0, 0⟩
  | _ => some none

/-- `convertSeekRelTimeToMs`; `none` is the `NumberFormatException`. -/
def convertSeekRelTimeToMs (reltime : JString) : Option ℤ :=
  (relTime reltime).map fun time => time.elim 0 RelTime.toMs

def parseSeekTime (data : JString) : Option ℤ :=
  match data.split '=' with
  | [timetype, position] =>
      if MEDIA_SEEK_TIME_TYPE_REL_TIME = timetype then convertSeekRelTimeToMs position
      else some 0
  | _ => some 0

end DlnaUtils

theorem twoDigits_eq {n : ℤ} (nonneg : 0 ≤ n) :
    twoDigits n = (Nat.toDigits 10 n.toNat).leftpad 2 '0' := by
  have same : n.natAbs = n.toNat := by omega
  rw [twoDigits, if_neg (by omega), same]

theorem twoDigits_digits {n : ℤ} (nonneg : 0 ≤ n) : ∀ c ∈ twoDigits n, c.isDigit = true := by
  intro c member
  rw [twoDigits_eq nonneg, List.leftpad, List.mem_append] at member
  rcases member with padding | digit
  · rw [(List.mem_replicate.mp padding).2]
    rfl
  · exact Nat.isDigit_of_mem_toDigits (by decide) (by decide) digit

theorem twoDigits_value {n : ℤ} (nonneg : 0 ≤ n) :
    (Nat.ofDigitChars 10 (twoDigits n) 0 : ℤ) = n := by
  rw [twoDigits_eq nonneg, List.leftpad, Nat.ofDigitChars_append,
    Nat.ofDigitChars_replicate_zero, Nat.mul_zero, Nat.ofDigitChars_ten_toDigits,
    Int.toNat_of_nonneg nonneg]

theorem twoDigits_ne_nil {n : ℤ} (nonneg : 0 ≤ n) : twoDigits n ≠ [] := by
  rw [twoDigits_eq nonneg, List.leftpad]
  exact List.append_ne_nil_of_right_ne_nil _ Nat.toDigits_ne_nil

theorem twoDigits_free {n : ℤ} (nonneg : 0 ≤ n) {separator : Char}
    (noDigit : separator.isDigit = false) : separator ∉ twoDigits n := by
  intro member
  rw [twoDigits_digits nonneg separator member] at noDigit
  cases noDigit

theorem twoDigits_read {n : ℤ} (nonneg : 0 ≤ n) (small : n < 2147483648) :
    DlnaUtils.isNumeric (twoDigits n) = true ∧ JString.integerValueOf (twoDigits n) = some n := by
  have value := twoDigits_value nonneg
  have digits := twoDigits_digits nonneg
  have nonempty := twoDigits_ne_nil nonneg
  constructor
  · simpa [DlnaUtils.isNumeric, nonempty] using digits
  · rw [JString.integerValueOf_digits nonempty digits (by omega), value]

def clockText (hours mins secs : ℤ) : JString :=
  [':'].intercalate [twoDigits hours, twoDigits mins, twoDigits secs]

theorem append_clockText (label : JString) (hours mins secs : ℤ) :
    label ++ twoDigits hours ++ ':' :: twoDigits mins ++ ':' :: twoDigits secs =
      label ++ clockText hours mins secs := by
  simp [clockText, List.intercalate]

theorem clockText_ne_nil {hours mins secs : ℤ} : clockText hours mins secs ≠ [] := by
  simp [clockText, List.intercalate]

theorem clockText_free {hours mins secs : ℤ} (hoursNonneg : 0 ≤ hours) (minsNonneg : 0 ≤ mins)
    (secsNonneg : 0 ≤ secs) {separator : Char} (noDigit : separator.isDigit = false)
    (noColon : separator ≠ ':') : separator ∉ clockText hours mins secs := by
  simp [clockText, List.intercalate, noColon, twoDigits_free hoursNonneg noDigit,
    twoDigits_free minsNonneg noDigit, twoDigits_free secsNonneg noDigit]

namespace DlnaUtils

theorem relTime_clockText {hours mins secs : ℤ} (hoursNonneg : 0 ≤ hours)
    (hoursSmall : hours < 2147483648) (minsNonneg : 0 ≤ mins) (minsSmall : mins < 2147483648)
    (secsNonneg : 0 ≤ secs) (secsSmall : secs < 2147483648) :
    relTime (clockText hours mins secs) = some (some ⟨hours, mins, secs, 0⟩) := by
  have pieces : (clockText hours mins secs).split ':' =
      [twoDigits hours, twoDigits mins, twoDigits secs] := by
    refine JString.split_intercalate (List.cons_ne_nil _ _) ?_ ?_
    · intro piece member
      rcases List.mem_cons.mp member with rfl | member
      · exact twoDigits_free hoursNonneg rfl
      rcases List.mem_cons.mp member with rfl | member
      · exact twoDigits_free minsNonneg rfl
      rw [List.mem_singleton.mp member]
      exact twoDigits_free secsNonneg rfl
    · exact twoDigits_ne_nil secsNonneg
  have whole : (twoDigits secs).split '.' = [twoDigits secs] := by
    rw [JString.split, if_neg (twoDigits_free secsNonneg rfl)]
  obtain ⟨hoursNumeric, hoursRead⟩ := twoDigits_read hoursNonneg hoursSmall
  obtain ⟨minsNumeric, minsRead⟩ := twoDigits_read minsNonneg minsSmall
  obtain ⟨secsNumeric, secsRead⟩ := twoDigits_read secsNonneg secsSmall
  simp [relTime, pieces, whole, hoursNumeric, hoursRead, minsNumeric, minsRead, secsNumeric,
    secsRead]

theorem toMs_exact (time : RelTime) (inInt : ∀ value ∈ time.values, InInt value) :
    time.toMs = time.hour * 3600000 + time.min * 60000 + time.sec * 1000 + time.ms := by
  have small : ∀ value ∈ time.values, toInt value = value := fun value member => by
    have bounds := inInt value member
    unfold InInt at bounds
    exact toInt_small (by omega) (by omega)
  simp only [RelTime.values, List.forall_mem_cons] at small
  obtain ⟨hour, min, hourMin, sec, hourMinSec, total, _⟩ := small
  rw [RelTime.toMs, hour, min, hourMin, sec, hourMinSec, total]

theorem seek_quotients {ms : ℤ} (low : 0 ≤ ms) :
    ms.tdiv 1000 = ms / 1000 ∧ (ms / 1000).tdiv 3600 = ms / 1000 / 3600 ∧
      (ms / 1000 - ms / 1000 / 3600 * 3600).tdiv 60 = ms / 1000 % 3600 / 60 := by
  refine ⟨Int.tdiv_eq_ediv_of_nonneg low, Int.tdiv_eq_ediv_of_nonneg (by omega), ?_⟩
  have rest : ms / 1000 - ms / 1000 / 3600 * 3600 = ms / 1000 % 3600 := by omega
  rw [rest, Int.tdiv_eq_ediv_of_nonneg (by omega)]

theorem airplaySeek_eq {ms : ℤ} (low : 0 ≤ ms) :
    airplaySeek ms = seekLabel ++
      clockText (ms / 1000 / 3600) (ms / 1000 % 3600 / 60) (ms / 1000 % 60) := by
  obtain ⟨seconds, hours, mins⟩ := seek_quotients low
  have secs : ms / 1000 - ms / 1000 / 3600 * 3600 - ms / 1000 % 3600 / 60 * 60 =
      ms / 1000 % 60 := by omega
  simp only [airplaySeek, seconds, hours, mins, secs]
  exact append_clockText _ _ _ _

theorem seekValues_inInt {ms : ℤ} (low : 0 ≤ ms) (high : ms < 2147483648) :
    ∀ value ∈ seekValues ms, InInt value := by
  obtain ⟨seconds, hours, mins⟩ := seek_quotients low
  simp only [seekValues, seconds, hours, mins, List.forall_mem_cons, InInt]
  refine ⟨?_, ?_, ?_, ?_, ?_, ?_, ?_, by simp⟩ <;> constructor <;> omega

theorem split_seekText {clock : JString} (nonempty : clock ≠ []) (free : '=' ∉ clock) :
    JString.split (seekLabel ++ clock) '=' =
      [MEDIA_SEEK_TIME_TYPE_REL_TIME, clock] := by
  have label : seekLabel = MEDIA_SEEK_TIME_TYPE_REL_TIME ++ ['='] := by decide
  have pieces : seekLabel ++ clock =
      ['='].intercalate [MEDIA_SEEK_TIME_TYPE_REL_TIME, clock] := by
    rw [label]
    simp only [List.intercalate, List.intersperse, List.flatten_cons, List.flatten_nil,
      List.append_nil, List.append_assoc]
  rw [pieces]
  refine JString.split_intercalate (List.cons_ne_nil _ _) ?_ nonempty
  intro piece member
  rcases List.mem_cons.mp member with rfl | member
  · decide
  · rwa [List.mem_singleton.mp member]

/-- The seek time that the receiver reads is the one sent, in whole seconds, and no value on
the way leaves the range of an `int`. -/
theorem parseSeekTime_airplaySeek {ms : ℤ} (low : 0 ≤ ms) (high : ms < 2147483648) :
    parseSeekTime (airplaySeek ms) = some (ms / 1000 * 1000) ∧
      (∀ value ∈ seekValues ms, InInt value) ∧
      ∃ position time, airplaySeek ms = seekLabel ++ position ∧
        relTime position = some (some time) ∧ ∀ value ∈ time.values, InInt value := by
  have read := @relTime_clockText (ms / 1000 / 3600) (ms / 1000 % 3600 / 60) (ms / 1000 % 60)
    (by omega) (by omega) (by omega) (by omega) (by omega) (by omega)
  have inInt : ∀ value ∈
      RelTime.values ⟨ms / 1000 / 3600, ms / 1000 % 3600 / 60, ms / 1000 % 60, 0⟩,
      InInt value := by
    simp only [RelTime.values, List.forall_mem_cons, InInt]
    refine ⟨?_, ?_, ?_, ?_, ?_, ?_, by simp⟩ <;> constructor <;> omega
  refine ⟨?_, seekValues_inInt low high, _, _, airplaySeek_eq low, read, inInt⟩
  have pieces : (airplaySeek ms).split '=' = [MEDIA_SEEK_TIME_TYPE_REL_TIME,
      clockText (ms / 1000 / 3600) (ms / 1000 % 3600 / 60) (ms / 1000 % 60)] := by
    rw [airplaySeek_eq low]
    exact split_seekText clockText_ne_nil
      (clockText_free (by omega) (by omega) (by omega) rfl (by decide))
  have value := toMs_exact _ inInt
  simp only [parseSeekTime, pieces, convertSeekRelTimeToMs, read, if_true, Option.map_some,
    Option.elim_some, value]
  congr 1
  omega

/-- The last position of the range has hours of three digits. -/
theorem parseSeekTime_airplaySeek_last :
    parseSeekTime (airplaySeek 2147483647) = some 2147483000 :=
  (parseSeekTime_airplaySeek (by decide) (by decide)).1

end DlnaUtils

end AirCast.Center
