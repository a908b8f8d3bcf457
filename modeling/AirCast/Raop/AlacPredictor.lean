import AirCast.Raop.AlacReading

/-! # The errors of the ALAC predictor

A sender sends how far each sample is from what the samples before it foretell.  The coefficients
are adapted by the sign of the error on both sides, so that `predictor_decompress_fir_adapt` gives
the samples back. -/

set_option autoImplicit false

namespace AirCast.Raop

def Fits (bits : ℕ) (v : BitVec 32) : Prop := (v.setWidth bits).signExtend 32 = v

variable {u u' : Unspecified} {bits : ℕ}

theorem signExtended32_eq (positive : 0 < bits) (size : bits ≤ 32) (v : BitVec 32) :
    signExtended32 u v bits = (v.setWidth bits).signExtend 32 := by
  rw [signExtended32, show (32 - bits : ℤ) = (32 - bits : ℕ) by omega,
    shiftLeft_inside _ (by omega), sshiftRight_inside _ (by omega)]
  apply BitVec.eq_of_getLsbD_eq
  intro i inside
  rw [BitVec.getLsbD_sshiftRight, BitVec.getLsbD_signExtend]
  have top : (v <<< (32 - bits)).msb = (v.setWidth bits).msb := by
    rw [BitVec.msb_eq_getLsbD_last, BitVec.msb_eq_getLsbD_last, BitVec.getLsbD_shiftLeft,
      BitVec.getLsbD_setWidth]
    simp [show ¬ 31 < 32 - bits by omega, show 31 - (32 - bits) = bits - 1 by omega,
      show bits - 1 < bits by omega]
  by_cases low : i < bits
  · simp [inside, low, show ¬ 32 ≤ i by omega, show 32 - bits + i < 32 by omega]
  · simp [inside, low, top, show ¬ 32 - bits + i < 32 by omega]

theorem setWidth_signExtend (size : bits ≤ 32) (v : BitVec bits) :
    (v.signExtend 32).setWidth bits = v := by
  apply BitVec.eq_of_getLsbD_eq
  intro i inside
  rw [BitVec.getLsbD_setWidth, BitVec.getLsbD_signExtend]
  simp [inside, show i < 32 by omega]

theorem restored {p x : BitVec 32} (positive : 0 < bits) (size : bits ≤ 32) (fits : Fits bits x) :
    signExtended32 u (p + signExtended32 u' (x - p) bits) bits = x := by
  rw [signExtended32_eq positive size, signExtended32_eq positive size, BitVec.setWidth_add _ _ size,
    setWidth_signExtend size, ← BitVec.setWidth_add _ _ size]
  rw [show p + (x - p) = x by rw [BitVec.add_comm, BitVec.sub_add_cancel]]
  exact fits

theorem signExtended32_fits (positive : 0 < bits) (size : bits ≤ 32) (v : BitVec 32) :
    Fits bits (signExtended32 u v bits) := by
  rw [Fits, signExtended32_eq positive size, setWidth_signExtend size]

theorem fits_iff (size : bits ≤ 32) (v : BitVec 32) :
    Fits bits v ↔ -2 ^ bits ≤ 2 * v.toInt ∧ 2 * v.toInt < 2 ^ bits := by
  have low : ((v.setWidth bits).signExtend 32).toInt = v.toInt.bmod (2 ^ bits) := by
    rw [BitVec.toInt_signExtend_of_le size, BitVec.toInt_setWidth, BitVec.toInt_eq_toNat_bmod v,
      Int.bmod_bmod_of_dvd (Nat.pow_dvd_pow 2 size)]
  have cast : ((2 ^ bits : ℕ) : ℤ) = 2 ^ bits := by norm_cast
  constructor
  · intro fits
    have value := congrArg BitVec.toInt fits
    rw [BitVec.toInt_signExtend_of_le size] at value
    exact value ▸ ⟨BitVec.le_two_mul_toInt, BitVec.two_mul_toInt_lt⟩
  · rintro ⟨above, below⟩
    apply BitVec.eq_of_toInt_eq
    rw [low]
    have positive : (0 : ℤ) < 2 ^ bits := by positivity
    exact Int.bmod_eq_of_le_mul_two (by omega) (by omega)

theorem fits_signExtend {small : ℕ} (narrow : small ≤ bits) (size : bits ≤ 32)
    (v : BitVec small) : Fits bits (v.signExtend 32) := by
  have above := @BitVec.le_two_mul_toInt _ v
  have below := @BitVec.two_mul_toInt_lt _ v
  have wider : (2 : ℤ) ^ small ≤ 2 ^ bits := pow_le_pow_right₀ (by norm_num) narrow
  rw [fits_iff size, BitVec.toInt_signExtend_of_le (narrow.trans size)]
  omega

theorem fits_sub (size : bits < 32) {v w : BitVec 32} (first : Fits bits v)
    (second : Fits bits w) : Fits (bits + 1) (v - w) := by
  obtain ⟨above, below⟩ := (fits_iff size.le v).mp first
  obtain ⟨above', below'⟩ := (fits_iff size.le w).mp second
  have wide : (2 : ℤ) ^ bits ≤ 2 ^ 31 := pow_le_pow_right₀ (by norm_num) (by omega)
  rw [fits_iff size, BitVec.toInt_sub, Int.bmod_eq_of_le_mul_two (by omega) (by omega), pow_succ]
  omega

section

variable {num quantitization : ℕ} {window other : ℕ → BitVec 32}

theorem firSum_congr (table : ℕ → BitVec 16) (agree : ∀ j ≤ num, window j = other j) (count : ℕ) :
    firSum window table num count = firSum other table num count := by
  induction count with
  | zero => rfl
  | succ count ih => rw [firSum, firSum, ih, agree _ (Nat.sub_le _ _), agree 0 (Nat.zero_le _)]

theorem firPredict_congr (table : ℕ → BitVec 16) (agree : ∀ j ≤ num, window j = other j)
    (positive : 0 < quantitization) (narrow : quantitization < 32) :
    firPredict u window table num quantitization = firPredict u' other table num quantitization := by
  rw [firPredict, firPredict, firSum_congr table agree, agree 0 (Nat.zero_le _),
    sshiftRight_inside _ narrow, sshiftRight_inside _ narrow,
    show (quantitization - 1 : ℤ) = (quantitization - 1 : ℕ) by omega,
    shiftLeft_inside _ (by omega), shiftLeft_inside _ (by omega)]

theorem firAdapt_congr (positive : Bool) (agree : ∀ j ≤ num, window j = other j)
    (narrow : quantitization < 32) (count : ℕ) :
    ∀ (errorVal : BitVec 32) (table : ℕ → BitVec 16),
      firAdapt u positive window num quantitization count errorVal table =
        firAdapt u' positive other num quantitization count errorVal table := by
  induction count with
  | zero => intro errorVal table; rfl
  | succ count ih =>
      intro errorVal table
      rw [firAdapt, firAdapt]
      simp only [agree _ (Nat.sub_le num count), agree 0 (Nat.zero_le _),
        sshiftRight_inside _ narrow, ih]

theorem firTable_congr (table : ℕ → BitVec 16) (agree : ∀ j ≤ num, window j = other j)
    (narrow : quantitization < 32) (errorVal : BitVec 32) :
    firTable u window table num quantitization errorVal =
      firTable u' other table num quantitization errorVal := by
  rw [firTable, firTable, firAdapt_congr true agree narrow, firAdapt_congr false agree narrow]

end

section

variable (x : ℕ → BitVec 32) (bits num quantitization : ℕ)

def difference : ℕ → BitVec 32
  | 0 => x 0
  | i + 1 => signExtended32 default (x (i + 1) - x i) bits

/-- The errors of the samples from `start + num + 1` on. -/
def firErrors : ℕ → ℕ → (ℕ → BitVec 16) → List (BitVec 32)
  | 0, _, _ => []
  | count + 1, start, table =>
      let window j := x (start + j)
      let errorVal := signExtended32 default
        (x (start + num + 1) - firPredict default window table num quantitization) bits
      errorVal ::
        firErrors count (start + 1) (firTable default window table num quantitization errorVal)

/-- What a sender sends for the first `count` samples. -/
def predictionErrors (table : ℕ → BitVec 16) (count : ℕ) : List (BitVec 32) :=
  if num = 0 then (List.range count).map x
  else if num = 0x1f then (List.range count).map (difference x bits)
  else (List.range (min count (num + 1))).map (difference x bits) ++
    firErrors x bits num quantitization (count - (num + 1)) 0 table

end

variable {x : ℕ → BitVec 32} {num quantitization : ℕ}

theorem length_firErrors (count : ℕ) : ∀ (start : ℕ) (table : ℕ → BitVec 16),
    (firErrors x bits num quantitization count start table).length = count := by
  induction count with
  | zero => intro start table; rfl
  | succ count ih => intro start table; rw [firErrors, List.length_cons, ih]

@[simp] theorem length_predictionErrors (table : ℕ → BitVec 16) (count : ℕ) :
    (predictionErrors x bits num quantitization table count).length = count := by
  rw [predictionErrors]
  split_ifs <;> simp [length_firErrors]
  omega

/-- No error is wider than the samples. -/
theorem predictionErrors_fit (positive : 0 < bits) (size : bits ≤ 32) (table : ℕ → BitVec 16)
    {count : ℕ} (fit : ∀ i < count, Fits bits (x i)) :
    ∀ e ∈ predictionErrors x bits num quantitization table count, Fits bits e := by
  have differences : ∀ i < count, Fits bits (difference x bits i) := by
    intro i inside
    cases i with
    | zero => exact fit 0 inside
    | succ i => exact signExtended32_fits positive size _
  have behind : ∀ (rest start : ℕ) (table : ℕ → BitVec 16),
      ∀ e ∈ firErrors x bits num quantitization rest start table, Fits bits e := by
    intro rest
    induction rest with
    | zero => intro start table e inside; exact absurd inside List.not_mem_nil
    | succ rest ih =>
        intro start table e inside
        rw [firErrors] at inside
        rcases List.mem_cons.mp inside with rfl | later
        · exact signExtended32_fits positive size _
        · exact ih _ _ e later
  intro e inside
  rw [predictionErrors] at inside
  split_ifs at inside
  · obtain ⟨i, below, rfl⟩ := List.mem_map.mp inside
    exact fit i (List.mem_range.mp below)
  · obtain ⟨i, below, rfl⟩ := List.mem_map.mp inside
    exact differences i (List.mem_range.mp below)
  · rcases List.mem_append.mp inside with front | later
    · obtain ⟨i, below, rfl⟩ := List.mem_map.mp front
      exact differences i ((List.mem_range.mp below).trans_le (min_le_left _ _))
    · exact behind _ _ _ e later

variable {errorBuffer : ℕ → BitVec 32}

theorem copyErrors_value (count : ℕ) (buffer : SampleBuffer (BitVec 32))
    (first : buffer.value 0 = errorBuffer 0) :
    ∀ i ≤ count, (copyErrors errorBuffer count buffer).value i = errorBuffer i := by
  induction count with
  | zero =>
      intro i none_
      rw [Nat.le_zero.mp none_]
      exact first
  | succ count ih =>
      intro i inside
      rw [copyErrors, SampleBuffer.write]
      dsimp only
      by_cases last : i = count + 1
      · rw [last, Function.update_self]
      · rw [Function.update_of_ne last]
        exact ih i (by omega)

theorem accumulate_value (positive : 0 < bits) (size : bits ≤ 32) {limit : ℕ}
    (fit : ∀ i < limit, Fits bits (x i)) (errors : ∀ i < limit, errorBuffer i = difference x bits i)
    (count : ℕ) (buffer : SampleBuffer (BitVec 32)) (first : buffer.value 0 = errorBuffer 0) :
    ∀ i ≤ count, i < limit → (accumulate u errorBuffer bits count buffer).value i = x i := by
  induction count with
  | zero =>
      intro i none_ inside
      rw [Nat.le_zero.mp none_] at inside ⊢
      exact first.trans (errors 0 inside)
  | succ count ih =>
      intro i below inside
      rw [accumulate, SampleBuffer.write]
      dsimp only
      by_cases last : i = count + 1
      · rw [last] at inside ⊢
        rw [Function.update_self, ih count le_rfl (by omega), errors _ inside, difference,
          restored positive size (fit _ inside)]
      · rw [Function.update_of_ne last]
        exact ih i (by omega) inside

theorem firLoop_value (positive : 0 < bits) (size : bits ≤ 32) (some_ : 0 < quantitization)
    (narrow : quantitization < 32) (count : ℕ) :
    ∀ (start : ℕ) (table : ℕ → BitVec 16) (buffer : SampleBuffer (BitVec 32)),
      (∀ j ≤ start + num, buffer.value j = x j) →
      (∀ i < start + num + 1 + count, Fits bits (x i)) →
      (∀ i < count, (firErrors x bits num quantitization count start table)[i]? =
        some (errorBuffer (start + num + 1 + i))) →
        ∀ j < start + num + 1 + count,
          (firLoop u errorBuffer bits num quantitization count start table buffer).value j = x j := by
  induction count with
  | zero =>
      intro start table buffer known _ _ j inside
      exact known j (by omega)
  | succ count ih =>
      intro start table buffer known fit errors j inside
      have agree : ∀ j ≤ num, buffer.value (start + j) = x (start + j) :=
        fun j low => known _ (by omega)
      have error := errors 0 (Nat.succ_pos _)
      simp only [firErrors, List.getElem?_cons_zero, Nat.add_zero, Option.some.injEq] at error
      have foretold : firPredict u (fun j => buffer.value (start + j)) table num quantitization =
          firPredict default (fun j => x (start + j)) table num quantitization :=
        firPredict_congr table agree some_ narrow
      have adapted : firTable u (fun j => buffer.value (start + j)) table num quantitization =
          firTable default (fun j => x (start + j)) table num quantitization :=
        funext (firTable_congr table agree narrow)
      rw [firLoop, foretold, adapted, ← error, restored positive size (fit _ (by omega))]
      refine ih (start + 1) _ _ ?_ (fun i low => fit i (by omega)) ?_ j (by omega)
      · intro j low
        rw [SampleBuffer.write]
        dsimp only
        by_cases last : j = start + num + 1
        · rw [last, Function.update_self]
        · rw [Function.update_of_ne last]
          exact known j (by omega)
      · intro i behind
        have later := errors (i + 1) (Nat.succ_lt_succ behind)
        simp only [firErrors, List.getElem?_cons_succ] at later
        rw [later]
        congr 2
        omega

theorem copyErrors_extent (count : ℕ) {buffer : SampleBuffer (BitVec 32)}
    (first : 1 ≤ buffer.extent) :
    (copyErrors errorBuffer count buffer).extent = max buffer.extent (count + 1) := by
  induction count with
  | zero => exact (max_eq_left first).symm
  | succ count ih =>
      rw [copyErrors, SampleBuffer.write]
      dsimp only
      omega

theorem accumulate_extent (readsamplesize : ℤ) (count : ℕ) {buffer : SampleBuffer (BitVec 32)}
    (first : 1 ≤ buffer.extent) :
    (accumulate u errorBuffer readsamplesize count buffer).extent =
      max buffer.extent (count + 1) := by
  induction count with
  | zero => exact (max_eq_left first).symm
  | succ count ih =>
      rw [accumulate, SampleBuffer.write]
      dsimp only
      omega

theorem firLoop_extent (readsamplesize quantitization : ℤ) (count : ℕ) :
    ∀ (start : ℕ) (table : ℕ → BitVec 16) (buffer : SampleBuffer (BitVec 32)),
      start + num + 1 ≤ buffer.extent →
        (firLoop u errorBuffer readsamplesize num quantitization count start table buffer).extent =
          max buffer.extent (start + num + 1 + count) := by
  induction count with
  | zero => intro start table buffer warm; exact (max_eq_left warm).symm
  | succ count ih =>
      intro start table buffer warm
      rw [firLoop]
      refine (ih (start + 1) _ _ ?_).trans ?_
      · rw [SampleBuffer.write]
        dsimp only
        omega
      · rw [SampleBuffer.write]
        dsimp only
        omega

/-- The first sample is always written, and the samples that start the general prediction too. -/
theorem predictorDecompress_extent (bufferOut : SampleBuffer (BitVec 32)) (outputSize : ℕ)
    (readsamplesize : ℤ) (table : ℕ → BitVec 16) (quantitization : ℤ) :
    (predictorDecompressFirAdapt u errorBuffer bufferOut outputSize readsamplesize table num
      quantitization).extent =
        max bufferOut.extent (max outputSize (if num = 0 ∨ num = 0x1f then 1 else num + 1)) := by
  have first : (bufferOut.write 0 (errorBuffer 0)).extent = max bufferOut.extent 1 := rfl
  have some_ : 1 ≤ (bufferOut.write 0 (errorBuffer 0)).extent := first ▸ le_max_right _ _
  rw [predictorDecompressFirAdapt]
  by_cases plain : num = 0
  · rw [if_pos plain, if_pos (.inl plain), copyErrors_extent _ some_]
    omega
  rw [if_neg plain]
  by_cases differences : num = 0x1f
  · rw [if_pos differences, if_pos (.inr differences), accumulate_extent _ _ some_]
    omega
  have warm := @accumulate_extent u errorBuffer readsamplesize num _ some_
  rw [if_neg differences, if_neg (by omega), firLoop_extent _ _ _ _ _ _ (by omega)]
  omega

/-- The decoder makes the samples out of the errors. -/
theorem predictorDecompress_predictionErrors (positive : 0 < bits) (size : bits ≤ 32)
    (some_ : 0 < quantitization) (narrow : quantitization < 32) (table : ℕ → BitVec 16)
    {count : ℕ} (fit : ∀ i < count, Fits bits (x i))
    (errors : ∀ i < count,
      (predictionErrors x bits num quantitization table count)[i]? = some (errorBuffer i))
    (bufferOut : SampleBuffer (BitVec 32)) :
    ∀ i < count, (predictorDecompressFirAdapt u errorBuffer bufferOut count bits table num
      quantitization).value i = x i := by
  intro i inside
  have first : (bufferOut.write 0 (errorBuffer 0)).value 0 = errorBuffer 0 := by
    simp [SampleBuffer.write]
  rw [predictorDecompressFirAdapt]
  by_cases plain : num = 0
  · have same := errors i inside
    rw [predictionErrors, if_pos plain, List.getElem?_map, List.getElem?_range inside] at same
    rw [if_pos plain, copyErrors_value _ _ first i (by omega)]
    exact (Option.some.inj same).symm
  · rw [if_neg plain]
    by_cases differences : num = 0x1f
    · rw [if_pos differences]
      refine accumulate_value positive size fit (fun i below => ?_) _ _ first i (by omega) inside
      have same := errors i below
      rw [predictionErrors, if_neg plain, if_pos differences, List.getElem?_map,
        List.getElem?_range below] at same
      exact (Option.some.inj same).symm
    · rw [if_neg differences]
      have front : ∀ i < min count (num + 1), errorBuffer i = difference x bits i := by
        intro i below
        have same := errors i (by omega)
        rw [predictionErrors, if_neg plain, if_neg differences,
          List.getElem?_append_left (by simpa using below), List.getElem?_map,
          List.getElem?_range below] at same
        exact (Option.some.inj same).symm
      have warm : ∀ i < min count (num + 1),
          (accumulate u errorBuffer bits num (bufferOut.write 0 (errorBuffer 0))).value i = x i :=
        fun i below => accumulate_value positive size (fun i low => fit i (by omega)) front num _
          first i (by omega) below
      by_cases long : num + 1 ≤ count
      · refine firLoop_value positive size some_ narrow _ 0 table _ (fun j low => warm j (by omega))
          (fun i low => fit i (by omega)) (fun i behind => ?_) i (by omega)
        have same := errors (num + 1 + i) (by omega)
        rw [predictionErrors, if_neg plain, if_neg differences,
          List.getElem?_append_right (by simp)] at same
        rw [Nat.zero_add, ← same]
        simp [long]
      · rw [show count - (num + 1) = 0 by omega, firLoop]
        exact warm i (by omega)

end AirCast.Raop
