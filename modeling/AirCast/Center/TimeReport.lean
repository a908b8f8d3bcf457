import AirCast.Center.PlaybackRecord

/-! # The time reports of the player

The player prints its position and its duration as a clock text of two digits a
number, and `UpdateState` reads the digits at fixed places.  The hours are
printed modulo a hundred, so a report is right for less than a hundred hours. -/

set_option autoImplicit false

namespace AirCast.Center

namespace DlnaUtils

/-- `"" + n`. -/
def intText (n : ℤ) : JString :=
  if n < 0 then '-' :: Nat.toDigits 10 n.natAbs else Nat.toDigits 10 n.natAbs

def formatHunToStr (hun : ℤ) : JString :=
  let hun := hun.tmod 100
  if 9 < hun then intText hun else '0' :: intText hun

/-- One `if` of `formatTimeFromMSInt`: the text of the number of units, and the time that is
left.  The product is at most the time, so it does not overflow. -/
def formatUnit (unit tmptime : ℤ) : JString × ℤ :=
  if unit ≤ tmptime then
    (formatHunToStr (tmptime.tdiv unit), tmptime - tmptime.tdiv unit * unit)
  else ("00".toList, tmptime)

def formatTimeFromMSInt (time : ℤ) : JString :=
  let hour := formatUnit 3600000 time
  let min := formatUnit 60000 hour.2
  let sec := formatUnit 1000 min.2
  hour.1 ++ ':' :: min.1 ++ ':' :: sec.1

def digitPair (n : ℕ) : JString := [(n / 10).digitChar, (n % 10).digitChar]

theorem formatHunToStr_eq {n : ℤ} (nonneg : 0 ≤ n) :
    formatHunToStr n = digitPair (n.toNat % 100) := by
  have rest : n.tmod 100 = (n.toNat % 100 : ℕ) := by
    rw [Int.tmod_eq_emod_of_nonneg nonneg]
    omega
  have small : n.toNat % 100 < 100 := Nat.mod_lt _ (by decide)
  rw [formatHunToStr, rest]
  generalize n.toNat % 100 = k at small
  have noSign : intText k = Nat.toDigits 10 k := by
    rw [intText, if_neg (by omega), Int.natAbs_natCast]
  rw [noSign]
  by_cases two : 10 ≤ k
  · rw [if_pos (by omega), Nat.toDigits_of_base_le (by decide) two,
      Nat.toDigits_of_lt_base (by omega)]
    rfl
  · rw [if_neg (by omega), Nat.toDigits_of_lt_base (by omega), digitPair,
      Nat.div_eq_of_lt (by omega), Nat.mod_eq_of_lt (by omega)]
    rfl

theorem formatUnit_eq {unit time : ℤ} (positive : 0 < unit) (nonneg : 0 ≤ time) :
    formatUnit unit time = (digitPair ((time / unit).toNat % 100), time % unit) := by
  have quotient := Int.tdiv_eq_ediv_of_nonneg (b := unit) nonneg
  have split := Int.emod_def time unit
  rw [formatUnit, quotient]
  split_ifs with reached
  · rw [formatHunToStr_eq (Int.ediv_nonneg nonneg positive.le), split, mul_comm]
  · rw [Int.ediv_eq_zero_of_lt nonneg (by omega), Int.emod_eq_of_lt nonneg (by omega)]
    rfl

theorem formatTimeFromMSInt_eq {time : ℤ} (nonneg : 0 ≤ time) :
    formatTimeFromMSInt time =
      digitPair ((time / 3600000).toNat % 100) ++ ':' ::
        digitPair ((time % 3600000 / 60000).toNat % 100) ++ ':' ::
        digitPair ((time % 3600000 % 60000 / 1000).toNat % 100) := by
  simp only [formatTimeFromMSInt]
  rw [formatUnit_eq (by decide) nonneg, formatUnit_eq (by decide) (by dsimp only; omega),
    formatUnit_eq (by decide) (by dsimp only; omega)]

end DlnaUtils

namespace PlaybackRecord

open DlnaUtils

theorem getBytes_digitPair {n : ℕ} (small : n < 100) :
    (digitPair n).getBytes = [UInt8.ofNat (48 + n / 10), UInt8.ofNat (48 + n % 10)] := by
  have encode : ∀ d < 10, String.utf8EncodeChar d.digitChar = [UInt8.ofNat (48 + d)] := by
    decide
  simp [digitPair, JString.getBytes, encode (n / 10) (by omega), encode (n % 10) (by omega)]

theorem atoiPair_digitPair : ∀ n < 100,
    atoiPair (UInt8.ofNat (48 + n / 10)) (UInt8.ofNat (48 + n % 10)) = n := by
  decide

theorem clock_digitPairs {hours mins secs : ℕ} (hoursSmall : hours < 100)
    (minsSmall : mins < 100) (secsSmall : secs < 100) :
    clock ((digitPair hours ++ ':' :: digitPair mins ++ ':' :: digitPair secs : JString).getBytes
        ++ [0]) =
      some ((hours * 3600 + mins * 60 + secs) * 1000 : ℤ) := by
  have bytes : (digitPair hours ++ ':' :: digitPair mins ++ ':' :: digitPair secs :
        JString).getBytes =
      (digitPair hours).getBytes ++ 58 :: (digitPair mins).getBytes ++
        58 :: (digitPair secs).getBytes := by
    have colon : String.utf8EncodeChar ':' = [58] := by decide
    simp only [JString.getBytes, List.flatMap_append, List.flatMap_cons, colon,
      List.singleton_append]
  rw [bytes, getBytes_digitPair hoursSmall, getBytes_digitPair minsSmall,
    getBytes_digitPair secsSmall]
  have hoursRead := atoiPair_digitPair hours hoursSmall
  have minsRead := atoiPair_digitPair mins minsSmall
  have secsRead := atoiPair_digitPair secs secsSmall
  rw [← hoursRead, ← minsRead, ← secsRead]
  rfl

def reported (time : ℤ) : ℤ :=
  (time / 3600000 % 100 * 3600 + time % 3600000 / 60000 * 60 + time % 60000 / 1000) * 1000

theorem clock_formatTimeFromMSInt {time : ℤ} (nonneg : 0 ≤ time) :
    clock ((formatTimeFromMSInt time).getBytes ++ [0]) = some (reported time) := by
  rw [formatTimeFromMSInt_eq nonneg, clock_digitPairs (Nat.mod_lt _ (by decide))
    (Nat.mod_lt _ (by decide)) (Nat.mod_lt _ (by decide)), reported]
  congr 1
  omega

/-- The report of a time is the time in whole seconds, as the position while playing and as
the duration when there is none. -/
def ReportsTime (time : ℤ) : Prop :=
  ∀ record : PlaybackRecord,
    (record.isPlaying = true →
      record.updateState MEDIA_RENDER_TOCONTRPOINT_SET_MEDIA_POSITION
          (some ((formatTimeFromMSInt time).getBytes ++ [0])) =
        some { record with currentPosition := time / 1000 * 1000 }) ∧
    (record.totalDuration = 0 →
      record.updateState MEDIA_RENDER_TOCONTRPOINT_SET_MEDIA_DURATION
          (some ((formatTimeFromMSInt time).getBytes ++ [0])) =
        some { record with totalDuration := time / 1000 * 1000 })

theorem updateState_formatTime {time : ℤ} (nonneg : 0 ≤ time) (record : PlaybackRecord) :
    (record.isPlaying = true →
      record.updateState MEDIA_RENDER_TOCONTRPOINT_SET_MEDIA_POSITION
          (some ((formatTimeFromMSInt time).getBytes ++ [0])) =
        some { record with currentPosition := reported time }) ∧
    (record.totalDuration = 0 →
      record.updateState MEDIA_RENDER_TOCONTRPOINT_SET_MEDIA_DURATION
          (some ((formatTimeFromMSInt time).getBytes ++ [0])) =
        some { record with totalDuration := reported time }) := by
  have read := clock_formatTimeFromMSInt nonneg
  constructor
  · intro isPlaying
    rw [updateState, if_neg (by decide), if_pos rfl, Option.bind_some, read]
    simp [isPlaying]
  · intro noDuration
    rw [updateState, if_pos rfl, Option.bind_some, read]
    simp [noDuration]

/-- The report is right exactly for less than a hundred hours. -/
theorem reportsTime_iff {time : ℤ} (nonneg : 0 ≤ time) (small : time < 2147483648) :
    ReportsTime time ↔ time < 360000000 := by
  have same : reported time = time / 1000 * 1000 ↔ time < 360000000 := by
    unfold reported
    omega
  rw [← same]
  constructor
  · intro reports
    have stored := (reports { zero with isPlaying := true }).1 rfl
    rw [(updateState_formatTime nonneg _).1 rfl] at stored
    exact (PlaybackRecord.mk.inj (Option.some.inj stored)).2.1
  · intro same record
    rw [← same]
    exact updateState_formatTime nonneg record

theorem reportsTime_last : ReportsTime 359999999 :=
  (reportsTime_iff (by decide) (by decide)).mpr (by decide)

theorem hundredHours_lost :
    ¬ ∀ time : ℤ, 0 ≤ time → time < 2147483648 → ReportsTime time := by
  intro reports
  have stored := (reports 360000000 (by decide) (by decide) { zero with isPlaying := true }).1 rfl
  revert stored
  decide

end PlaybackRecord

end AirCast.Center
