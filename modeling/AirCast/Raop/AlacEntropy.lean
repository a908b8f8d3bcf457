import AirCast.Raop.AlacReading

/-! # The entropy code of ALAC

Samples are coded as a number of ones and a few bits behind them, how many depends on the samples
before; where those were small, the code of a sample is followed by the length of a run of zeros.
`RiceStream` states the format, with every choice a sender has.  `entropy_rice_decode` reads the
samples back from every such stream, and every list of samples has one. -/

set_option autoImplicit false

namespace AirCast.Raop

namespace SampleBuffer

variable {α : Type}

@[ext] theorem ext {buffer other : SampleBuffer α} (value : buffer.value = other.value)
    (extent : buffer.extent = other.extent) : buffer = other := by
  cases buffer
  cases other
  cases value
  cases extent
  rfl

def put : SampleBuffer α → ℕ → List α → SampleBuffer α
  | buffer, _, [] => buffer
  | buffer, start, a :: rest => (buffer.write start a).put (start + 1) rest

theorem put_append (values others : List α) : ∀ (buffer : SampleBuffer α) (start : ℕ),
    buffer.put start (values ++ others) =
      (buffer.put start values).put (start + values.length) others := by
  induction values with
  | nil => intro buffer start; rfl
  | cons a rest ih =>
      intro buffer start
      rw [List.cons_append, put, ih, put, List.length_cons, Nat.add_assoc, Nat.add_comm 1]

theorem put_value (values : List α) : ∀ (buffer : SampleBuffer α) (start i : ℕ),
    (buffer.put start values).value i =
      if start ≤ i then values[i - start]?.getD (buffer.value i) else buffer.value i := by
  induction values with
  | nil => intro buffer start i; simp [put]
  | cons a rest ih =>
      intro buffer start i
      rw [put, ih]
      rcases Nat.lt_trichotomy i start with before | rfl | behind
      · rw [if_neg (by omega), if_neg (by omega)]
        exact Function.update_of_ne (by omega) _ _
      · rw [if_neg (by omega), if_pos le_rfl, Nat.sub_self]
        exact Function.update_self _ _ _
      · rw [if_pos (by omega), if_pos (by omega), show i - start = i - (start + 1) + 1 by omega,
          List.getElem?_cons_succ]
        rw [write]
        dsimp only
        rw [Function.update_of_ne (by omega)]

theorem put_inside {values : List α} (buffer : SampleBuffer α) (start : ℕ) {i : ℕ}
    (inside : i < values.length) :
    (buffer.put start values).value (start + i) = values[i] := by
  rw [put_value, if_pos (by omega), Nat.add_sub_cancel_left, List.getElem?_eq_getElem inside,
    Option.getD_some]

theorem put_extent (values : List α) : ∀ (buffer : SampleBuffer α) (start : ℕ),
    (buffer.put start values).extent =
      if values = [] then buffer.extent else max buffer.extent (start + values.length) := by
  induction values with
  | nil => intro buffer start; rfl
  | cons a rest ih =>
      intro buffer start
      rw [put, ih, if_neg (List.cons_ne_nil _ _), write, List.length_cons]
      dsimp only
      split_ifs with none_
      · rw [none_, List.length_nil]
      · omega

theorem fill_eq_put (buffer : SampleBuffer α) (start count : ℕ) (a : α) :
    buffer.fill start count a = buffer.put start (List.replicate count a) := by
  apply SampleBuffer.ext
  · funext i
    rw [put_value, fill]
    dsimp only
    by_cases front : start ≤ i
    · by_cases inside : i < start + count
      · rw [if_pos ⟨front, inside⟩, if_pos front, List.getElem?_replicate, if_pos (by omega),
          Option.getD_some]
      · rw [if_neg (by omega), if_pos front, List.getElem?_replicate, if_neg (by omega),
          Option.getD_none]
    · rw [if_neg (by omega), if_neg front]
  · rw [put_extent, fill, List.length_replicate]
    simp [List.replicate_eq_nil_iff]

end SampleBuffer

/-! ## The code of a number -/

/-- A number as a multiple of `step` and a rest in `k` bits, or as it is in `sampleSize` bits.
The last of the `k` bits is left away where the rest is 0. -/
inductive RiceCode (sampleSize k step : ℕ) : ℕ → List Bool → Prop
  | whole (q : ℕ) (few : q ≤ riceThreshold) :
      RiceCode sampleSize k step (q * step)
        (List.replicate q true ++ false :: List.replicate (k - 1) false)
  | rest (q r : ℕ) (few : q ≤ riceThreshold) (positive : 0 < r) (fits : r + 1 < 2 ^ k) :
      RiceCode sampleSize k step (q * step + r)
        (List.replicate q true ++ false :: fixedBits k (r + 1))
  | escape (d : ℕ) (fits : d < 2 ^ sampleSize) :
      RiceCode sampleSize k step d
        (List.replicate (riceThreshold + 1) true ++ fixedBits sampleSize d)

def riceStep (mask : BitVec 32) (k : ℕ) : ℕ :=
  if k = 1 then 1 else ((1#32 <<< k - 1) &&& mask).toNat

variable {u : Unspecified} {memory : Memory}

theorem reads_ones {limit q : ℕ} (few : q < limit) :
    Reads (bitStream memory) readerAt (countOnes u memory limit) (List.replicate q true ++ [false])
      q := by
  induction limit generalizing q with
  | zero => exact absurd few (Nat.not_lt_zero q)
  | succ limit ih =>
      rw [countOnes]
      cases q with
      | zero => exact (reads_bit false).bind (Reads.pure _)
      | succ q =>
          have behind := (ih (Nat.lt_of_succ_lt_succ few)).bind_pure fun x => x + 1
          exact (reads_bit true).bind behind

theorem reads_allOnes (limit : ℕ) :
    Reads (bitStream memory) readerAt (countOnes u memory limit) (List.replicate limit true)
      limit := by
  induction limit with
  | zero => exact Reads.pure _
  | succ limit ih =>
      exact (reads_bit true).bind (ih.bind_pure fun x => x + 1)

theorem mask_low {width d : ℕ} (size : width ≤ 32) (some_ : 0 < width) (fits : d < 2 ^ width) :
    BitVec.ofNat 32 d &&& shiftRight u 0xffffffff (32 - width) = BitVec.ofNat 32 d := by
  rw [show (32 - width : ℤ) = (32 - width : ℕ) by omega, shiftRight_inside _ (by omega),
    show (0xffffffff : BitVec 32) = BitVec.allOnes 32 from rfl]
  apply BitVec.eq_of_getLsbD_eq
  intro i inside
  rw [BitVec.getLsbD_and, BitVec.getLsbD_ushiftRight, BitVec.getLsbD_allOnes, BitVec.getLsbD_ofNat]
  by_cases low : i < width
  · simp [inside, show 32 - width + i < 32 by omega]
  · have top : d.testBit i = false :=
      Nat.testBit_lt_two_pow (fits.trans_le (Nat.pow_le_pow_right (by omega) (by omega)))
    simp [top]

/-- The bit behind `k - 1` zeros is put back. -/
theorem reads_noRest {k : ℕ} (some_ : 0 < k) (narrow : k < 32) (x : BitVec 32) :
    Reads (bitStream memory) readerAt (do
      let extraBits ← readbits u memory k
      if 1 < extraBits.toInt then return x + (extraBits - 1)
      else
        unreadbits 1
        return x) (List.replicate (k - 1) false) x := by
  intro position carried
  obtain ⟨bit, next⟩ : ∃ bit, bitStream memory (position + (k - 1)) = some bit := ⟨_, rfl⟩
  have whole : Carries (bitStream memory) position (List.replicate (k - 1) false ++ [bit]) := by
    rw [carries_append, List.length_replicate]
    exact ⟨carried, next, trivial⟩
  have length : (List.replicate (k - 1) false ++ [bit]).length = k := by
    simp
    omega
  have value : natOf (List.replicate (k - 1) false ++ [bit]) = bit.toNat := by
    rw [natOf_append]
    have zeros : natOf (List.replicate (k - 1) false) = 0 := by
      induction k - 1 with
      | zero => rfl
      | succ n ih => rw [List.replicate_succ, natOf, ih]; simp
    rw [zeros]
    simp [natOf]
  have read : readbits u memory (List.replicate (k - 1) false ++ [bit]).length
      (readerAt position) = _ := reads_bits (by omega) position whole
  rw [length, value] at read
  have small : ¬ 1 < (BitVec.ofNat 32 bit.toNat).toInt := by cases bit <;> decide
  have back := @readerAt_sub (position + k) 1 (by omega)
  show (if 1 < ((readbits u memory k) (readerAt position)).1.toInt then _ else _ : Reading _)
    ((readbits u memory k) (readerAt position)).2 = _
  rw [read, if_neg small, List.length_replicate]
  exact congrArg (Prod.mk x) (back.trans (congrArg readerAt (by omega)))

theorem riceStep_value {k q : ℕ} (mask : BitVec 32) (narrow : k < 32) (more : k ≠ 1) :
    BitVec.ofNat 32 q * ((shiftLeft u 1 k - 1) &&& mask) = BitVec.ofNat 32 (q * riceStep mask k) := by
  rw [riceStep, if_neg more, BitVec.ofNat_mul, BitVec.ofNat_toNat, BitVec.setWidth_eq,
    shiftLeft_inside _ narrow]
  rfl

/-- A number is read back from each of its codes. -/
theorem reads_riceCode {sampleSize k d : ℕ} {mask : BitVec 32} {bits : List Bool}
    (some_ : 0 < sampleSize) (size : sampleSize ≤ 32) (positive : 0 < k) (narrow : k < 32)
    (code : RiceCode sampleSize k (riceStep mask k) d bits) :
    Reads (bitStream memory) readerAt (entropyDecodeValue u memory sampleSize k mask) bits
      (BitVec.ofNat 32 d) := by
  rw [entropyDecodeValue]
  cases code with
  | escape _ fits =>
      refine (reads_allOnes (riceThreshold + 1)).bind ?_
      rw [if_pos (Nat.lt_succ_self _)]
      have read : Reads (bitStream memory) readerAt (readbits u memory sampleSize) _ _ :=
        reads_fixed size fits
      have masked := mask_low (u := u) size some_ fits
      have both := read.bind_pure fun value =>
        value &&& shiftRight u 0xffffffff (32 - sampleSize)
      rwa [masked] at both
  | whole q few =>
      rw [List.append_cons]
      refine (reads_ones (Nat.lt_succ_of_le few)).bind ?_
      rw [if_neg (Nat.not_lt.mpr few)]
      by_cases single : k = 1
      · rw [single, riceStep, if_pos rfl, Nat.mul_one]
        exact Reads.pure _
      · rw [if_pos (by omega), ← riceStep_value (u := u) mask narrow single]
        exact reads_noRest positive narrow _
  | rest q r few nonzero fits =>
      rw [List.append_cons]
      refine (reads_ones (Nat.lt_succ_of_le few)).bind ?_
      have single : k ≠ 1 := by
        rintro rfl
        omega
      have bound : 2 ^ k ≤ 2 ^ 31 := Nat.pow_le_pow_right (by omega) (by omega)
      rw [if_neg (Nat.not_lt.mpr few), if_pos (by omega)]
      have sum : BitVec.ofNat 32 q * ((shiftLeft u 1 k - 1) &&& mask) +
          (BitVec.ofNat 32 (r + 1) - 1) = BitVec.ofNat 32 (q * riceStep mask k + r) := by
        rw [riceStep_value mask narrow single, BitVec.ofNat_add, BitVec.ofNat_add]
        congr 1
        simp
      have large : 1 < (BitVec.ofNat 32 (r + 1)).toInt := by
        rw [toInt_ofNat_small (by omega)]
        omega
      have read : Reads (bitStream memory) readerAt (readbits u memory k) _ _ :=
        reads_fixed (by omega) fits
      rw [← List.append_nil (fixedBits k (r + 1))]
      refine read.bind ?_
      dsimp only
      rw [if_pos large, sum]
      exact Reads.pure _

/-! ## The code of a list of samples -/

def foldSign (e : ℤ) : ℕ := if 0 ≤ e then (2 * e).toNat else (-2 * e - 1).toNat

theorem unfoldSign_foldSign {e : ℤ} (small : foldSign e < 2 ^ 30) :
    unfoldSign (BitVec.ofNat 32 (foldSign e)) = BitVec.ofInt 32 e := by
  have half : ∀ d : ℕ, d < 2 ^ 30 →
      (BitVec.ofNat 32 d + 1).sdiv 2 = BitVec.ofNat 32 ((d + 1) / 2) := by
    intro d bound
    apply BitVec.eq_of_toInt_eq
    have sum : BitVec.ofNat 32 d + 1 = BitVec.ofNat 32 (d + 1) := (BitVec.ofNat_add d 1).symm
    rw [sum, BitVec.toInt_sdiv, toInt_ofNat_small (by omega), toInt_ofNat_small (by omega),
      show (2 : BitVec 32).toInt = 2 from rfl, Int.tdiv_eq_ediv_of_nonneg (by omega),
      Int.bmod_eq_of_le (by omega) (by omega)]
    omega
  have lowest : (BitVec.ofNat 32 (foldSign e)).getLsbD 0 = decide (e < 0) := by
    rw [BitVec.getLsbD_ofNat, Nat.testBit_zero, foldSign]
    split_ifs with positive <;> simp <;> omega
  rw [unfoldSign, half _ small, lowest]
  by_cases negative : e < 0
  · have value : ((foldSign e + 1) / 2 : ℕ) = -e := by
      rw [foldSign, if_neg (by omega)]
      omega
    rw [decide_eq_true negative, if_pos rfl, ← BitVec.ofInt_natCast, value, ← BitVec.ofInt_neg,
      neg_neg]
  · have value : ((foldSign e + 1) / 2 : ℕ) = e := by
      rw [foldSign, if_pos (by omega)]
      omega
    rw [decide_eq_false negative, if_neg (by simp), ← BitVec.ofInt_natCast, value]

section

variable (settings : RiceSettings) (size : ℕ)

/-- The codes of the samples behind a history; `sign` is 1 behind a run of zeros, which only a
sample other than 0 can end.  A sender does not rely on what C leaves open. -/
inductive RiceStream : BitVec 32 → ℕ → List ℤ → List Bool → Prop
  | nil (history : BitVec 32) (sign : ℕ) : RiceStream history sign [] []
  | sample {history next : BitVec 32} {sign k : ℕ} {e : ℤ} {rest : List ℤ} {bits more : List Bool}
      (width : ∀ u, sampleBits u settings.riceKmodifier history = k) (positive : 0 < k) (narrow : k < 32)
      (fits : foldSign e < 2 ^ size) (signed : sign ≤ foldSign e)
      (code : RiceCode size k (riceStep 0xffffffff k) (foldSign e - sign) bits)
      (moved : updateHistory settings.riceHistorymult history (BitVec.ofNat 32 (foldSign e)) = next)
      (plain : ¬ (next.toInt < 128 ∧ rest ≠ []))
      (behind : RiceStream next 0 rest more) :
      RiceStream history sign (e :: rest) (bits ++ more)
  | run {history next : BitVec 32} {sign k width' zeros : ℕ} {e : ℤ} {rest : List ℤ}
      {bits length more : List Bool}
      (width : ∀ u, sampleBits u settings.riceKmodifier history = k) (positive : 0 < k) (narrow : k < 32)
      (fits : foldSign e < 2 ^ size) (signed : sign ≤ foldSign e)
      (code : RiceCode size k (riceStep 0xffffffff k) (foldSign e - sign) bits)
      (moved : updateHistory settings.riceHistorymult history (BitVec.ofNat 32 (foldSign e)) = next)
      (quiet : next.toInt < 128) (unfinished : 0 < zeros + rest.length)
      (runWidth : ∀ u, runBits u next = width') (runPositive : 0 < width') (runNarrow : width' < 32)
      (short : zeros < 2 ^ 31)
      (count : RiceCode 16 width' (riceStep settings.riceKmodifierMask width') zeros length)
      (behind : RiceStream 0 (if 0xffff < zeros then 0 else 1) rest more) :
      RiceStream history sign (e :: (List.replicate zeros 0 ++ rest)) (bits ++ (length ++ more))

end

variable {settings : RiceSettings} {size : ℕ}

/-- The loop writes the samples of a stream one behind the other. -/
theorem reads_riceStream (readSampleSize : settings.readSampleSize = size) (some_ : 0 < size)
    (bound : size ≤ 30) {history : BitVec 32} {sign : ℕ} {samples : List ℤ} {bits : List Bool}
    (stream : RiceStream settings size history sign samples bits) :
    ∀ (outputSize rounds outputCount : ℕ) (buffer : SampleBuffer (BitVec 32)),
      samples.length ≤ rounds → outputCount + samples.length = outputSize →
        Reads (bitStream memory) readerAt
          (entropyRiceLoop u memory settings outputSize rounds outputCount history
            (BitVec.ofNat 32 sign) buffer) bits
          (buffer.put outputCount (samples.map (BitVec.ofInt 32))) := by
  induction stream with
  | nil history sign =>
      intro outputSize rounds outputCount buffer _ last
      rw [List.length_nil, Nat.add_zero] at last
      cases rounds with
      | zero => exact Reads.pure _
      | succ rounds =>
          rw [entropyRiceLoop, if_pos last.ge]
          exact Reads.pure _
  | @sample history next sign k e rest bits more width positive narrow fits signed code moved plain
      behind ih =>
      intro outputSize rounds outputCount buffer enough last
      rw [List.length_cons] at enough last
      cases rounds with
      | zero => omega
      | succ rounds =>
          rw [entropyRiceLoop, if_neg (by omega), width, readSampleSize]
          refine (reads_riceCode some_ (by omega) positive narrow code).bind ?_
          have value : BitVec.ofNat 32 (foldSign e - sign) + BitVec.ofNat 32 sign =
              BitVec.ofNat 32 (foldSign e) := by
            rw [← BitVec.ofNat_add, Nat.sub_add_cancel signed]
          have more_ : ¬ (next.toInt < 128 ∧ outputCount + 1 < outputSize) := by
            rintro ⟨low, inside⟩
            refine plain ⟨low, ?_⟩
            rintro rfl
            simp at last
            omega
          dsimp only
          rw [value, moved, if_neg more_, unfoldSign_foldSign (fits.trans_le
            (Nat.pow_le_pow_right (by omega) bound)), List.map_cons, SampleBuffer.put]
          exact ih outputSize rounds (outputCount + 1) _ (by omega) (by omega)
  | @run history next sign k width' zeros e rest bits length more width positive narrow fits signed
      code moved quiet unfinished runWidth runPositive runNarrow short count behind ih =>
      intro outputSize rounds outputCount buffer enough last
      rw [List.length_cons, List.length_append, List.length_replicate] at enough last
      cases rounds with
      | zero => omega
      | succ rounds =>
          rw [entropyRiceLoop, if_neg (by omega), width, readSampleSize]
          refine (reads_riceCode some_ (by omega) positive narrow code).bind ?_
          have value : BitVec.ofNat 32 (foldSign e - sign) + BitVec.ofNat 32 sign =
              BitVec.ofNat 32 (foldSign e) := by
            rw [← BitVec.ofNat_add, Nat.sub_add_cancel signed]
          dsimp only
          rw [value, moved, if_pos ⟨quiet, by omega⟩, runWidth, unfoldSign_foldSign
            (fits.trans_le (Nat.pow_le_pow_right (by omega) bound))]
          refine (reads_riceCode (by omega) (by omega) runPositive runNarrow count).bind ?_
          have counted : (BitVec.ofNat 32 zeros).toInt = zeros := toInt_ofNat_small short
          have ended : (if 0xffff < (zeros : ℤ) then (0 : BitVec 32) else 1) =
              BitVec.ofNat 32 (if 0xffff < zeros then 0 else 1) := by
            split_ifs <;> first | rfl | omega
          have later := ih outputSize rounds (outputCount + zeros + 1)
            ((buffer.write outputCount (BitVec.ofInt 32 e)).fill (outputCount + 1) zeros 0)
            (by omega) (by omega)
          rw [counted, ended, Int.toNat_natCast, List.map_cons, List.map_append, List.map_replicate,
            SampleBuffer.put, SampleBuffer.put_append, List.length_replicate,
            ← SampleBuffer.fill_eq_put, Nat.add_right_comm outputCount 1 zeros]
          exact later

theorem reads_rice (readSampleSize : settings.readSampleSize = size) (some_ : 0 < size)
    (bound : size ≤ 30) {samples : List ℤ} {bits : List Bool}
    (stream : RiceStream settings size settings.riceInitialhistory 0 samples bits)
    (buffer : SampleBuffer (BitVec 32)) :
    Reads (bitStream memory) readerAt
      (entropyRiceDecode u memory settings buffer samples.length) bits
      (buffer.put 0 (samples.map (BitVec.ofInt 32))) :=
  reads_riceStream readSampleSize some_ bound stream _ _ 0 buffer le_rfl (Nat.zero_add _)

/-! ## Every list of samples has a code -/

def historyLimit : ℕ := 512 * 65535

/-- Settings with which the history neither wraps around nor dies away. -/
structure Tame (settings : RiceSettings) : Prop where
  modifier : 1 ≤ settings.riceKmodifier
  mult : ∃ m, settings.riceHistorymult = BitVec.ofNat 32 m ∧ 0 < m ∧ m ≤ 64
  initial : ∃ h, settings.riceInitialhistory = BitVec.ofNat 32 h ∧ 0 < h ∧ h ≤ historyLimit

theorem sshiftRight_ofNat {n : ℕ} (small : n < 2 ^ 31) (k : ℕ) :
    (BitVec.ofNat 32 n).sshiftRight k = BitVec.ofNat 32 (n / 2 ^ k) := by
  have value : (BitVec.ofNat 32 n).toNat = n := by
    rw [BitVec.toNat_ofNat]
    omega
  rw [BitVec.sshiftRight_eq_of_msb_false (BitVec.msb_eq_false_iff_two_mul_lt.mpr (by omega))]
  apply BitVec.eq_of_toNat_eq
  rw [BitVec.toNat_ushiftRight, value, Nat.shiftRight_eq_div_pow, BitVec.toNat_ofNat,
    Nat.mod_eq_of_lt ((Nat.div_le_self _ _).trans_lt (by omega))]

theorem countLeadingZeros_ofNat {n : ℕ} (positive : 0 < n) (small : n < 2 ^ 32) :
    countLeadingZeros u (BitVec.ofNat 32 n) = 31 - n.log2 := by
  have value : (BitVec.ofNat 32 n).toNat = n := by
    rw [BitVec.toNat_ofNat]
    omega
  rw [countLeadingZeros, if_neg, value]
  intro zero
  rw [zero] at value
  simp at value
  omega

theorem updateHistory_ofNat {h m d : ℕ} (history : h ≤ historyLimit) (mult : m ≤ 64)
    (low : d ≤ 65535) :
    updateHistory (BitVec.ofNat 32 m) (BitVec.ofNat 32 h) (BitVec.ofNat 32 d) =
        BitVec.ofNat 32 (h + d * m - h * m / 512) ∧
      h + d * m - h * m / 512 ≤ historyLimit ∧ h * m / 512 ≤ h / 8 := by
  have product : h * m ≤ historyLimit * 64 := Nat.mul_le_mul history mult
  have gain : d * m ≤ 65535 * m := Nat.mul_le_mul_right m low
  have gain' : d * m ≤ 65535 * 64 := Nat.mul_le_mul low mult
  have loss : h * m ≤ h * 64 := Nat.mul_le_mul_left h mult
  -- what the history loses beyond the limit it would gain at most
  have balance : 512 * h + 512 * 65535 * m ≤ h * m + 512 * historyLimit := by
    rw [historyLimit] at *
    zify at *
    nlinarith only [mul_nonneg (sub_nonneg.mpr history) (show (0 : ℤ) ≤ 512 - m by omega)]
  rw [historyLimit] at *
  refine ⟨?_, by omega, by omega⟩
  rw [updateHistory, toInt_ofNat_small (by omega), if_neg (by omega), ← BitVec.ofNat_mul,
    ← BitVec.ofNat_mul, sshiftRight_ofNat (by omega)]
  apply BitVec.eq_of_toNat_eq
  simp only [BitVec.toNat_add, BitVec.toNat_sub, BitVec.toNat_ofNat]
  generalize h * m = p at *
  generalize d * m = q at *
  omega

theorem sampleBits_inside {modifier : ℤ} (positive : 1 ≤ modifier) {h : ℕ}
    (history : h ≤ historyLimit) :
    ∃ k : ℕ, (∀ u, sampleBits u modifier (BitVec.ofNat 32 h) = k) ∧ 0 < k ∧ k < 32 := by
  rw [historyLimit] at history
  have sum : (BitVec.ofNat 32 h).sshiftRight 9 + 3 = BitVec.ofNat 32 (h / 512 + 3) := by
    rw [sshiftRight_ofNat (by omega), BitVec.ofNat_add]
    rfl
  have low : 1 ≤ (h / 512 + 3).log2 := (Nat.le_log2 (by omega)).mpr (by omega)
  have high : (h / 512 + 3).log2 < 17 := (Nat.log2_lt (by omega)).mpr (by omega)
  have value : ∀ u, sampleBits u modifier (BitVec.ofNat 32 h) =
      if 31 - modifier - (31 - ((h / 512 + 3).log2 : ℤ)) < 0 then
        31 - modifier - (31 - ((h / 512 + 3).log2 : ℤ)) + modifier else modifier := by
    intro u
    rw [sampleBits, sum, countLeadingZeros_ofNat (by omega) (by omega)]
  by_cases narrow : ((h / 512 + 3).log2 : ℤ) < modifier
  · refine ⟨(h / 512 + 3).log2, fun u => ?_, by omega, by omega⟩
    rw [value, if_pos (by omega)]
    omega
  · refine ⟨modifier.toNat, fun u => ?_, by omega, by omega⟩
    rw [value, if_neg (by omega)]
    omega

theorem runBits_inside {h : ℕ} (positive : 0 < h) (quiet : h < 128) :
    ∃ k : ℕ, (∀ u, runBits u (BitVec.ofNat 32 h) = k) ∧ 0 < k ∧ k < 32 := by
  have low : h.log2 < 7 := (Nat.log2_lt (by omega)).mpr (by omega)
  refine ⟨31 - h.log2 + (h + 16) / 64 - 24, fun u => ?_, by omega, by omega⟩
  rw [runBits, countLeadingZeros_ofNat positive (by omega), toInt_ofNat_small (by omega),
    Int.tdiv_eq_ediv_of_nonneg (by omega)]
  omega

theorem next_history (tame : Tame settings) {h d : ℕ} (history : h ≤ historyLimit)
    (small : d < 2 ^ 31) (lives : 0 < h ∨ 0 < d) :
    ∃ next, updateHistory settings.riceHistorymult (BitVec.ofNat 32 h) (BitVec.ofNat 32 d) =
      BitVec.ofNat 32 next ∧ 0 < next ∧ next ≤ historyLimit := by
  obtain ⟨m, mult, positive, most⟩ := tame.mult
  rw [mult]
  by_cases large : 0xffff < d
  · refine ⟨0xffff, ?_, by norm_num, by norm_num [historyLimit]⟩
    rw [updateHistory, toInt_ofNat_small small, if_pos (by omega)]
    rfl
  · obtain ⟨value, bound, loss⟩ := updateHistory_ofNat history most (show d ≤ 65535 by omega)
    refine ⟨_, value, ?_, bound⟩
    have gain : 0 < d → 0 < d * m := fun more => Nat.mul_pos more positive
    omega

theorem foldSign_pos {e : ℤ} (other : e ≠ 0) : 0 < foldSign e := by
  rw [foldSign]
  split_ifs <;> omega

/-- The escape code is there for every number, so that only the lengths of the runs are to be
found. -/
theorem exists_riceStream (tame : Tame settings) (bound : size ≤ 30) :
    ∀ (samples : List ℤ) (h sign : ℕ), samples.length ≤ 65536 →
      (∀ e ∈ samples, foldSign e < 2 ^ size) → h ≤ historyLimit →
        (sign = 0 ∧ 0 < h ∨ sign = 1 ∧ ∀ e ∈ samples.head?, e ≠ 0) →
          ∃ bits, RiceStream settings size (BitVec.ofNat 32 h) sign samples bits
  | [], _, _, _, _, _, _ => ⟨[], .nil _ _⟩
  | e :: rest, h, sign, few, fit, history, start => by
      have fits : foldSign e < 2 ^ size := fit e List.mem_cons_self
      have small : foldSign e < 2 ^ 31 :=
        fits.trans_le (Nat.pow_le_pow_right (by omega) (by omega))
      have signed : sign ≤ foldSign e := by
        rcases start with ⟨rfl, _⟩ | ⟨rfl, other⟩
        · exact Nat.zero_le _
        · exact foldSign_pos (other e rfl)
      have lives : 0 < h ∨ 0 < foldSign e :=
        start.imp (fun plain => plain.2) fun behind => foldSign_pos (behind.2 e rfl)
      obtain ⟨k, width, positive, narrow⟩ := sampleBits_inside tame.modifier history
      obtain ⟨next, moved, alive, below⟩ := next_history tame history small lives
      have code : RiceCode size k (riceStep 0xffffffff k) (foldSign e - sign) _ :=
        .escape _ (by omega)
      rw [List.length_cons] at few
      by_cases quiet : (BitVec.ofNat 32 next).toInt < 128 ∧ rest ≠ []
      · -- the zeros in front of the rest are a run
        rw [toInt_ofNat_small (below.trans_lt (by norm_num [historyLimit]))] at quiet
        obtain ⟨width', runWidth, runPositive, runNarrow⟩ :=
          runBits_inside alive (by omega)
        have cut : rest.takeWhile (· = 0) ++ rest.dropWhile (· = 0) = rest :=
          List.takeWhile_append_dropWhile
        have zero : rest.takeWhile (· = 0) = List.replicate (rest.takeWhile (· = 0)).length 0 :=
          List.eq_replicate_of_mem fun e inside => by simpa using List.mem_takeWhile_imp inside
        have length := congrArg List.length cut
        rw [List.length_append] at length
        have some_ : 0 < rest.length := List.length_pos_of_ne_nil quiet.2
        have count : RiceCode 16 width' (riceStep settings.riceKmodifierMask width')
            (rest.takeWhile (· = 0)).length _ := .escape _ (by omega)
        have ended : (if 0xffff < (rest.takeWhile (· = 0)).length then 0 else 1) = 1 :=
          if_neg (by omega)
        obtain ⟨more, behind⟩ := exists_riceStream tame bound (rest.dropWhile (· = 0)) 0 1
          (by omega)
          (fun e inside => fit e (List.mem_cons_of_mem _ ((List.dropWhile_sublist _).mem inside)))
          (Nat.zero_le _)
          (.inr ⟨rfl, fun e first => by
            have other := List.head?_dropWhile_not (· = 0) rest
            rw [Option.mem_def.mp first] at other
            simpa using other⟩)
        rw [← ended] at behind
        have whole := RiceStream.run width positive narrow fits signed code moved
          (by rw [toInt_ofNat_small (below.trans_lt (by norm_num [historyLimit]))]; exact quiet.1)
          (by omega) runWidth runPositive runNarrow (by omega) count behind
        rw [← zero, cut] at whole
        exact ⟨_, whole⟩
      · obtain ⟨more, behind⟩ := exists_riceStream tame bound rest next 0 (by omega)
          (fun e inside => fit e (List.mem_cons_of_mem _ inside)) below (.inl ⟨rfl, alive⟩)
        exact ⟨_, .sample width positive narrow fits signed code moved quiet behind⟩
  termination_by samples => samples.length
  decreasing_by
    · exact Nat.lt_succ_of_le (List.dropWhile_sublist _).length_le
    · exact Nat.lt_succ_self _

end AirCast.Raop
