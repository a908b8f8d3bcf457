import AirCast.Crypt.AesRounds

/-! # The cipher of new_aes.c

Its tables hold the substitution and the mixing of a byte together, and its key schedule takes the
substitution out of them.  Both give what aes.c computes byte by byte. -/

set_option autoImplicit false

namespace AirCast.Crypt

open AirCast.BlockCipher

/-! ## The source -/

structure AesKey where
  rdKey : Vector (BitVec 32) 60
  rounds : ℕ

def te0Of (b : BitVec 8) : BitVec 32 := te0.getD b.toNat 0

def te1Of (b : BitVec 8) : BitVec 32 := te1.getD b.toNat 0

def te2Of (b : BitVec 8) : BitVec 32 := te2.getD b.toNat 0

def te3Of (b : BitVec 8) : BitVec 32 := te3.getD b.toNat 0

/-- The substituted bytes of a word, each out of the table that holds it in its place. -/
def substituted (b0 b1 b2 b3 : BitVec 8) : BitVec 32 :=
  (te2Of b0 &&& 0xff000000) ^^^ (te3Of b1 &&& 0x00ff0000) ^^^ (te0Of b2 &&& 0x0000ff00) ^^^
    (te1Of b3 &&& 0x000000ff)

/-- `rk[j] = rk[j - words] ^ rk[j - 1]`. -/
def xorPrevious (words j : ℕ) (rk : Vector (BitVec 32) 60) : Vector (BitVec 32) 60 :=
  rk.setIfInBounds j (rk[j - words]?.getD 0 ^^^ rk[j - 1]?.getD 0)

/-- `rk[j] = rk[j - words] ^ ... ^ rcon[i]`, with the word before turned and substituted. -/
def xorTurned (words j i : ℕ) (rk : Vector (BitVec 32) 60) : Vector (BitVec 32) 60 :=
  let temp := rk[j - 1]?.getD 0
  rk.setIfInBounds j (rk[j - words]?.getD 0 ^^^
    substituted (byteOf temp 16) (byteOf temp 8) (byteOf temp 0) (byteOf temp 24) ^^^ rcon.getD i 0)

/-- `rk[12] = rk[4] ^ ...`, with the word before substituted. -/
def xorSubstituted (words j : ℕ) (rk : Vector (BitVec 32) 60) : Vector (BitVec 32) 60 :=
  let temp := rk[j - 1]?.getD 0
  rk.setIfInBounds j (rk[j - words]?.getD 0 ^^^
    substituted (byteOf temp 24) (byteOf temp 16) (byteOf temp 8) (byteOf temp 0))

/-- The loop for 128 bits; `rk` points to word `4 * i`. -/
def expand128 : ℕ → ℕ → Vector (BitVec 32) 60 → Vector (BitVec 32) 60
  | 0, _, rk => rk
  | count + 1, i, rk =>
      let rk := xorTurned 4 (4 * i + 4) i rk
      let rk := xorPrevious 4 (4 * i + 5) rk
      let rk := xorPrevious 4 (4 * i + 6) rk
      let rk := xorPrevious 4 (4 * i + 7) rk
      expand128 count (i + 1) rk

/-- The loop for 192 bits. -/
def expand192 : ℕ → ℕ → Vector (BitVec 32) 60 → Vector (BitVec 32) 60
  | 0, _, rk => rk
  | count + 1, i, rk =>
      let rk := xorTurned 6 (6 * i + 6) i rk
      let rk := xorPrevious 6 (6 * i + 7) rk
      let rk := xorPrevious 6 (6 * i + 8) rk
      let rk := xorPrevious 6 (6 * i + 9) rk
      if count = 0 then rk
      else
        let rk := xorPrevious 6 (6 * i + 10) rk
        let rk := xorPrevious 6 (6 * i + 11) rk
        expand192 count (i + 1) rk

/-- The loop for 256 bits. -/
def expand256 : ℕ → ℕ → Vector (BitVec 32) 60 → Vector (BitVec 32) 60
  | 0, _, rk => rk
  | count + 1, i, rk =>
      let rk := xorTurned 8 (8 * i + 8) i rk
      let rk := xorPrevious 8 (8 * i + 9) rk
      let rk := xorPrevious 8 (8 * i + 10) rk
      let rk := xorPrevious 8 (8 * i + 11) rk
      if count = 0 then rk
      else
        let rk := xorSubstituted 8 (8 * i + 12) rk
        let rk := xorPrevious 8 (8 * i + 13) rk
        let rk := xorPrevious 8 (8 * i + 14) rk
        let rk := xorPrevious 8 (8 * i + 15) rk
        expand256 count (i + 1) rk

def loadKey (userKey : Bytes) (words : ℕ) (rk : Vector (BitVec 32) 60) : Vector (BitVec 32) 60 :=
  .ofFn fun j => if j < words then loadWord userKey (4 * j) else rk[j]

/-- `AES_set_encrypt_key`, that is `private_AES_set_encrypt_key`, and what it returns. -/
def aesSetEncryptKey (userKey : Bytes) (bits : ℤ) (key : AesKey) : ℤ × AesKey :=
  if bits = 128 then (0, ⟨expand128 10 0 (loadKey userKey 4 key.rdKey), 10⟩)
  else if bits = 192 then (0, ⟨expand192 8 0 (loadKey userKey 6 key.rdKey), 12⟩)
  else if bits = 256 then (0, ⟨expand256 7 0 (loadKey userKey 8 key.rdKey), 14⟩)
  else (-2, key)

/-- One round; `rk` is the index of its key. -/
def newAesRound (key : AesKey) (rk : ℕ) (s : AesBlock) : AesBlock :=
  .ofFn fun row =>
    te0Of (byteOf (s.col row) 24) ^^^ te1Of (byteOf (s.col (row + 1)) 16) ^^^
      te2Of (byteOf (s.col (row + 2)) 8) ^^^ te3Of (byteOf (s.col (row + 3)) 0) ^^^
        key.rdKey[rk + row]?.getD 0

/-- The loop of two rounds at a time, which ends between the two: `t` and `rk`. -/
def newAesLoop (key : AesKey) : ℕ → ℕ → AesBlock → AesBlock × ℕ
  | 0, rk, s => (s, rk)
  | r + 1, rk, s =>
      let t := newAesRound key (rk + 4) s
      if r = 0 then (t, rk + 8) else newAesLoop key r (rk + 8) (newAesRound key (rk + 8) t)

def newAesEncrypt (key : AesKey) (input : Bytes) : Bytes :=
  let start : AesBlock := .ofFn fun row => loadWord input (4 * row) ^^^
    key.rdKey[row.val]?.getD 0
  let (t, rk) := newAesLoop key (key.rounds / 2) 0 start
  storeBlock (.ofFn fun row =>
    substituted (byteOf (t.col row) 24) (byteOf (t.col (row + 1)) 16) (byteOf (t.col (row + 2)) 8)
      (byteOf (t.col (row + 3)) 0) ^^^ key.rdKey[rk + row]?.getD 0)

/-! ## The tables -/

theorem te_tables :
    te0 = aesSbox.map (fun s => mixWord (word s 0 0 0)) ∧
      te1 = aesSbox.map (fun s => mixWord (word 0 s 0 0)) ∧
        te2 = aesSbox.map (fun s => mixWord (word 0 0 s 0)) ∧
          te3 = aesSbox.map (fun s => mixWord (word 0 0 0 s)) := by
  decide +kernel

theorem te_mixed (b : BitVec 8) :
    te0Of b = mixWord (word (sboxOf b) 0 0 0) ∧ te1Of b = mixWord (word 0 (sboxOf b) 0 0) ∧
      te2Of b = mixWord (word 0 0 (sboxOf b) 0) ∧ te3Of b = mixWord (word 0 0 0 (sboxOf b)) := by
  obtain ⟨t0, t1, t2, t3⟩ := te_tables
  have column (f : BitVec 8 → BitVec 32) (unset : f 0 = 0) :
      (aesSbox.map f).getD b.toNat 0 = f (sboxOf b) := by
    rw [← unset, List.getD_map]
    rfl
  rw [te0Of, te1Of, te2Of, te3Of, t0, t1, t2, t3]
  exact ⟨column _ (by decide), column _ (by decide), column _ (by decide), column _ (by decide)⟩

theorem mixWord_masked : ∀ s : BitVec 8,
    mixWord (word 0 0 s 0) &&& 0xff000000 = word s 0 0 0 ∧
      mixWord (word 0 0 0 s) &&& 0x00ff0000 = word 0 s 0 0 ∧
        mixWord (word s 0 0 0) &&& 0x0000ff00 = word 0 0 s 0 ∧
          mixWord (word 0 s 0 0) &&& 0x000000ff = word 0 0 0 s := by
  decide +kernel

theorem te_masked (b : BitVec 8) :
    te2Of b &&& 0xff000000 = word (sboxOf b) 0 0 0 ∧ te3Of b &&& 0x00ff0000 = word 0 (sboxOf b) 0 0 ∧
      te0Of b &&& 0x0000ff00 = word 0 0 (sboxOf b) 0 ∧
        te1Of b &&& 0x000000ff = word 0 0 0 (sboxOf b) := by
  obtain ⟨t0, t1, t2, t3⟩ := te_mixed b
  rw [t0, t1, t2, t3]
  exact mixWord_masked (sboxOf b)

theorem word_parts (a0 a1 a2 a3 : BitVec 8) :
    word a0 0 0 0 ^^^ word 0 a1 0 0 ^^^ word 0 0 a2 0 ^^^ word 0 0 0 a3 = word a0 a1 a2 a3 := by
  simp only [word_xor, BitVec.ofNat_eq_ofNat, BitVec.xor_zero, BitVec.zero_xor]

theorem substituted_eq (b0 b1 b2 b3 : BitVec 8) :
    substituted b0 b1 b2 b3 = word (sboxOf b0) (sboxOf b1) (sboxOf b2) (sboxOf b3) := by
  rw [substituted, (te_masked b0).1, (te_masked b1).2.1, (te_masked b2).2.2.1,
    (te_masked b3).2.2.2, word_parts]

theorem te_column (b0 b1 b2 b3 : BitVec 8) :
    te0Of b0 ^^^ te1Of b1 ^^^ te2Of b2 ^^^ te3Of b3 =
      mixWord (word (sboxOf b0) (sboxOf b1) (sboxOf b2) (sboxOf b3)) := by
  rw [(te_mixed b0).1, (te_mixed b1).2.1, (te_mixed b2).2.2.1, (te_mixed b3).2.2.2,
    ← mixWord_linear, ← mixWord_linear, ← mixWord_linear, word_parts]

/-! ## The key schedule -/

/-- The words up to `n` are those that the cipher asks for. -/
def Scheduled (words : ℕ) (userKey : Bytes) (w : ℕ → BitVec 32) (n : ℕ) : Prop :=
  ∀ j < n, w j =
    if j < words then loadWord userKey (4 * j)
    else w (j - words) ^^^ scheduleCore words j (j / words - 1) (w (j - 1))

section

variable {words n size : ℕ} {userKey : Bytes} {w w' : ℕ → BitVec 32}

theorem Scheduled.unique (positive : 0 < words) (first : Scheduled words userKey w n)
    (second : Scheduled words userKey w' n) : ∀ j < n, w j = w' j := by
  intro j
  induction j using Nat.strong_induction_on with
  | _ j ih =>
      intro inside
      rw [first j inside, second j inside]
      by_cases given : j < words
      · rw [if_pos given, if_pos given]
      · rw [if_neg given, if_neg given, ih (j - words) (by omega) (by omega),
          ih (j - 1) (by omega) (by omega)]

def wordsOf (ks : Vector (BitVec 32) size) (j : ℕ) : BitVec 32 := ks[j]?.getD 0

theorem wordsOf_set (ks : Vector (BitVec 32) size) {i : ℕ} (inside : i < size) (v : BitVec 32)
    (j : ℕ) : wordsOf (ks.setIfInBounds i v) j = if i = j then v else wordsOf ks j := by
  rw [wordsOf, Vector.getElem?_setIfInBounds]
  by_cases same : i = j
  · rw [if_pos same, if_pos same, if_pos inside, Option.getD_some]
  · rw [if_neg same, if_neg same, wordsOf]

theorem Scheduled.store (positive : 0 < words) {ks : Vector (BitVec 32) size}
    (before : Scheduled words userKey (wordsOf ks) n) (given : words ≤ n) (inside : n < size)
    {v : BitVec 32} (value : v = wordsOf ks (n - words) ^^^
      scheduleCore words n (n / words - 1) (wordsOf ks (n - 1))) :
    Scheduled words userKey (wordsOf (ks.setIfInBounds n v)) (n + 1) := by
  intro j below
  rw [wordsOf_set ks inside, wordsOf_set ks inside, wordsOf_set ks inside]
  by_cases last : n = j
  · subst last
    rw [if_pos rfl, if_neg (by omega), if_neg (by omega), if_neg (by omega), value]
  · rw [if_neg last, if_neg (show ¬ n = j - words by omega), if_neg (show ¬ n = j - 1 by omega)]
    exact before j (by omega)

theorem scheduled_start {ks : Vector (BitVec 32) size}
    (loaded : ∀ j < words, wordsOf ks j = loadWord userKey (4 * j)) :
    Scheduled words userKey (wordsOf ks) words := by
  intro j inside
  rw [if_pos inside, loaded j inside]

end

theorem scheduleLoop_scheduled {words : ℕ} (kind : words = 4 ∨ words = 8) {userKey : Bytes}
    (count : ℕ) : ∀ (n ip : ℕ) (ks : Vector (BitVec 32) 120), words ≤ n → n + count ≤ 120 →
      ip = (n + words - 1) / words - 1 → Scheduled words userKey (wordsOf ks) n →
        Scheduled words userKey (wordsOf (scheduleLoop words count n ip ks)) (n + count) := by
  induction count with
  | zero => intro n ip ks _ _ _ before; exact before
  | succ count ih =>
      intro n ip ks given inside counted before
      have constant : ∀ tmp, scheduleCore words n ip tmp =
          scheduleCore words n (n / words - 1) tmp := by
        intro tmp
        by_cases turned : n % words = 0
        · rw [show ip = n / words - 1 by rcases kind with rfl | rfl <;> omega]
        · rw [scheduleCore, scheduleCore, if_neg turned, if_neg turned]
      rw [scheduleLoop, show n + (count + 1) = n + 1 + count by omega]
      refine ih (n + 1) _ _ (by omega) (by omega) ?_
        (before.store (by omega) given (by omega) ?_)
      · split_ifs <;> rcases kind with rfl | rfl <;> omega
      · rw [constant]
        rfl

theorem rcon_eq : ∀ i < 10, rcon.getD i 0 = (aesRcon.getD i 0).setWidth 32 <<< 24 := by decide

section

variable {words n : ℕ} {userKey : Bytes} {rk : Vector (BitVec 32) 60}

theorem Scheduled.previous (before : Scheduled words userKey (wordsOf rk) n) (positive : 0 < words)
    (given : words ≤ n) (inside : n < 60) (plain : n % words ≠ 0)
    (other : ¬ (words = 8 ∧ n % words = 4)) :
    Scheduled words userKey (wordsOf (xorPrevious words n rk)) (n + 1) := by
  refine before.store positive given inside ?_
  rw [scheduleCore, if_neg plain, if_neg other]
  rfl

theorem Scheduled.turned (before : Scheduled words userKey (wordsOf rk) n) (positive : 0 < words)
    (given : words ≤ n) (inside : n < 60) {i : ℕ} (few : i < 10) (at' : n = words * i + words) :
    Scheduled words userKey (wordsOf (xorTurned words n i rk)) (n + 1) := by
  have turned : n % words = 0 := by
    rw [at', Nat.add_mod_right, Nat.mul_mod_right]
  have place : n / words - 1 = i := by
    rw [at', Nat.add_div_right _ positive, Nat.mul_div_cancel_left _ positive, Nat.succ_sub_one]
  refine before.store positive given inside ?_
  rw [scheduleCore, if_pos turned, place, if_neg (by omega), substituted_eq, rcon_eq i few,
    BitVec.xor_assoc]
  rfl

theorem Scheduled.substituted (before : Scheduled 8 userKey (wordsOf rk) n) (given : 8 ≤ n)
    (inside : n < 60) (half : n % 8 = 4) :
    Scheduled 8 userKey (wordsOf (xorSubstituted 8 n rk)) (n + 1) := by
  refine before.store (by omega) given inside ?_
  rw [scheduleCore, if_neg (show ¬ n % 8 = 0 by omega), if_pos ⟨rfl, half⟩, substituted_eq]
  rfl

theorem expand128_scheduled (count : ℕ) : ∀ (i : ℕ) (rk : Vector (BitVec 32) 60),
    i + count ≤ 10 → Scheduled 4 userKey (wordsOf rk) (4 * i + 4) →
      Scheduled 4 userKey (wordsOf (expand128 count i rk)) (4 * (i + count) + 4) := by
  induction count with
  | zero => intro i rk _ before; exact before
  | succ count ih =>
      intro i rk few before
      have w4 := before.turned (by omega) (by omega) (by omega) (show i < 10 by omega) rfl
      have w5 := w4.previous (by omega) (by omega) (by omega) (by omega) (by omega)
      have w6 := w5.previous (by omega) (by omega) (by omega) (by omega) (by omega)
      have w7 := w6.previous (by omega) (by omega) (by omega) (by omega) (by omega)
      rw [expand128, show i + (count + 1) = i + 1 + count by omega]
      exact ih (i + 1) _ (by omega) w7

theorem expand256_scheduled (count : ℕ) : ∀ (i : ℕ) (rk : Vector (BitVec 32) 60),
    i + count = 6 → Scheduled 8 userKey (wordsOf rk) (8 * i + 8) →
      Scheduled 8 userKey (wordsOf (expand256 (count + 1) i rk)) 60 := by
  induction count with
  | zero =>
      intro i rk last before
      obtain rfl : i = 6 := last
      have w8 := before.turned (by omega) (by omega) (by omega) (show 6 < 10 by omega) rfl
      have w9 := w8.previous (by omega) (by omega) (by omega) (by omega) (by omega)
      have w10 := w9.previous (by omega) (by omega) (by omega) (by omega) (by omega)
      have w11 := w10.previous (by omega) (by omega) (by omega) (by omega) (by omega)
      rw [expand256, if_pos rfl]
      exact w11
  | succ count ih =>
      intro i rk few before
      have w8 := before.turned (by omega) (by omega) (by omega) (show i < 10 by omega) rfl
      have w9 := w8.previous (by omega) (by omega) (by omega) (by omega) (by omega)
      have w10 := w9.previous (by omega) (by omega) (by omega) (by omega) (by omega)
      have w11 := w10.previous (by omega) (by omega) (by omega) (by omega) (by omega)
      have w12 := w11.substituted (by omega) (by omega) (by omega)
      have w13 := w12.previous (by omega) (by omega) (by omega) (by omega) (by omega)
      have w14 := w13.previous (by omega) (by omega) (by omega) (by omega) (by omega)
      have w15 := w14.previous (by omega) (by omega) (by omega) (by omega) (by omega)
      rw [expand256, if_neg (Nat.succ_ne_zero _)]
      exact ih (i + 1) _ (by omega) w15

end

/-! ## One block -/

section

variable {ctx : AesCtx} {key : AesKey}

theorem newAesRound_eq {i : ℕ} (words : ∀ row < 4, wordsOf key.rdKey (4 * i + row) =
    ctx.key (4 * i + row)) (s : AesBlock) :
    newAesRound key (4 * i) s = xorBlock (mixBlock (subBlock s)) (ctx.roundKey i) := by
  apply block_ext
  intro row low
  have column := ofFn_col (fun row => te0Of (byteOf (s.col row) 24) ^^^
    te1Of (byteOf (s.col (row + 1)) 16) ^^^ te2Of (byteOf (s.col (row + 2)) 8) ^^^
      te3Of (byteOf (s.col (row + 3)) 0) ^^^ wordsOf key.rdKey (4 * i + row)) row
  rw [Nat.mod_eq_of_lt low] at column
  rw [xorBlock_col _ _ low, mixBlock_col _ low, subBlock_col, roundKey_col _ _ low, ← words row low,
    ← te_column]
  exact column

theorem newAesLoop_eq (r : ℕ) : ∀ (i : ℕ) (s : AesBlock),
    (∀ j < 4 * (i + 2 * r + 2), wordsOf key.rdKey j = ctx.key j) →
      newAesLoop key (r + 1) (4 * i) s =
        (forwardRounds xorBlock subBlock mixBlock ctx.roundKey (i + 1) (2 * r + 1) s,
          4 * (i + 2 * r + 2)) := by
  induction r with
  | zero =>
      intro i s words
      rw [newAesLoop, if_pos rfl, show 4 * i + 4 = 4 * (i + 1) by omega,
        newAesRound_eq fun row low => words _ (by omega)]
      rfl
  | succ r ih =>
      intro i s words
      rw [newAesLoop, if_neg (Nat.succ_ne_zero r), show 4 * i + 4 = 4 * (i + 1) by omega,
        show 4 * i + 8 = 4 * (i + 2) by omega, newAesRound_eq fun row low => words _ (by omega),
        newAesRound_eq fun row low => words _ (by omega), ih (i + 2) _ fun j low => words j (by omega),
        show 2 * (r + 1) + 1 = 2 * r + 1 + 1 + 1 by omega,
        forwardRounds_front ctx.roundKey (2 * r + 1 + 1) (i + 1),
        forwardRounds_front ctx.roundKey (2 * r + 1) (i + 1 + 1)]
      refine Prod.ext rfl ?_
      dsimp only
      omega

/-- Where the key schedules are the same, so are the blocks. -/
theorem newAesEncrypt_eq {r : ℕ} (rounds : ctx.rounds = 2 * (r + 1)) (few : ctx.rounds < 15)
    (same : key.rounds = ctx.rounds)
    (words : ∀ j < 4 * (ctx.rounds + 1), wordsOf key.rdKey j = ctx.key j) (input : Bytes) :
    newAesEncrypt key input = storeBlock (aesEncrypt ctx (loadBlock input)) := by
  have start : (.ofFn fun row => loadWord input (4 * row) ^^^ key.rdKey[row.val]?.getD 0) =
      xorBlock (loadBlock input) (ctx.roundKey 0) := by
    apply block_ext
    intro row low
    have first := words row (by omega)
    rw [wordsOf] at first
    rw [ofFn_col fun row => loadWord input (4 * row) ^^^ key.rdKey[row]?.getD 0,
      Nat.mod_eq_of_lt low, xorBlock_col _ _ low, loadBlock_col _ low, roundKey_col _ _ low,
      Nat.mul_zero, Nat.zero_add, ← first]
  have half : key.rounds / 2 = r + 1 := by omega
  have looped := newAesLoop_eq r 0 (xorBlock (loadBlock input) (ctx.roundKey 0))
    fun j low => words j (by omega)
  rw [newAesEncrypt, half, start, show 0 = 4 * 0 from rfl, looped, aesEncrypt_eq ctx (by omega),
    encipher, show ctx.rounds - 1 = 2 * r + 1 by omega]
  dsimp only
  congr 1
  apply block_ext
  intro row low
  rw [ofFn_col fun row => substituted (byteOf (AesBlock.col _ row) 24)
      (byteOf (AesBlock.col _ (row + 1)) 16) (byteOf (AesBlock.col _ (row + 2)) 8)
      (byteOf (AesBlock.col _ (row + 3)) 0) ^^^ key.rdKey[4 * (0 + 2 * r + 2) + row]?.getD 0,
    Nat.mod_eq_of_lt low, xorBlock_col _ _ low, subBlock_col, roundKey_col _ _ low, substituted_eq,
    show 4 * (0 + 2 * r + 2) = 4 * ctx.rounds by omega, ← words _ (by omega)]
  rfl

end

theorem loadKey_loaded (key : AesKey) (userKey : Bytes) (words : ℕ) (few : words ≤ 60) :
    ∀ j < words, wordsOf (loadKey userKey words key.rdKey) j = loadWord userKey (4 * j) := by
  intro j inside
  rw [wordsOf, loadKey, Vector.getElem?_ofFn, dif_pos (by omega), Option.getD_some]
  exact if_pos inside

theorem aesSetKey_loaded (ctx : AesCtx) (userKey : Bytes) (words : ℕ) (few : words ≤ 120) :
    ∀ j < words, wordsOf (.ofFn fun i : Fin 120 =>
      if i < words then loadWord userKey (4 * i) else ctx.ks[i]) j = loadWord userKey (4 * j) := by
  intro j inside
  rw [wordsOf, Vector.getElem?_ofFn, dif_pos (by omega), Option.getD_some]
  exact if_pos inside

theorem aesSetKey_scheduled (ctx : AesCtx) (userKey iv : Bytes) :
    ((aesSetKey ctx userKey iv .mode128).rounds = 10 ∧
        Scheduled 4 userKey (aesSetKey ctx userKey iv .mode128).key 44) ∧
      (aesSetKey ctx userKey iv .mode256).rounds = 14 ∧
        Scheduled 8 userKey (aesSetKey ctx userKey iv .mode256).key 60 := by
  have read : ∀ c : AesCtx, c.key = wordsOf c.ks := fun _ => rfl
  have short := scheduleLoop_scheduled (.inl rfl) 40 4 0 _ le_rfl (by omega) rfl
    (scheduled_start (aesSetKey_loaded ctx userKey 4 (by omega)))
  have long := scheduleLoop_scheduled (.inr rfl) 52 8 0 _ le_rfl (by omega) rfl
    (scheduled_start (aesSetKey_loaded ctx userKey 8 (by omega)))
  refine ⟨⟨?_, ?_⟩, ?_, ?_⟩
  · simp only [aesSetKey, if_true]
  · rw [read]
    simp only [aesSetKey, if_true]
    exact short
  · simp only [aesSetKey, reduceCtorEq, if_false]
  · rw [read]
    simp only [aesSetKey, reduceCtorEq, if_false]
    exact long

theorem aesEncrypt_setKey (ctx ctx' : AesCtx) (userKey iv : Bytes) :
    aesEncrypt (aesSetKey ctx userKey iv .mode128) =
      aesEncrypt (aesSetKey ctx' userKey iv .mode128) := by
  obtain ⟨⟨rounds, words⟩, -⟩ := aesSetKey_scheduled ctx userKey iv
  obtain ⟨⟨rounds', words'⟩, -⟩ := aesSetKey_scheduled ctx' userKey iv
  have same := words.unique (by omega) words'
  funext data
  rw [aesEncrypt_eq _ (by omega), aesEncrypt_eq _ (by omega), rounds, rounds']
  refine encipher_congr _ _ _ (fun i inside => ?_) data
  apply block_ext
  intro row low
  rw [roundKey_col _ _ low, roundKey_col _ _ low, same _ (by omega)]

theorem aesCbcEncrypt_setKey (ctx ctx' : AesCtx) (userKey iv msg : Bytes) (length : ℤ) :
    (aesCbcEncrypt (aesSetKey ctx userKey iv .mode128) msg length).2 =
      (aesCbcEncrypt (aesSetKey ctx' userKey iv .mode128) msg length).2 := by
  have vector : ∀ c : AesCtx, (aesSetKey c userKey iv .mode128).iv = iv.take 16 := by
    intro c
    rw [aesSetKey]
  rw [aesCbcEncrypt, aesCbcEncrypt, aesCbcEncryptLoop_eq, aesCbcEncryptLoop_eq, vector, vector,
    aesEncrypt_setKey ctx ctx']

/-- The tables and the loops of new_aes.c give the blocks of aes.c. -/
theorem newAesEncrypt_aesEncrypt (ctx : AesCtx) (key : AesKey) (userKey iv input : Bytes) :
    newAesEncrypt (aesSetEncryptKey userKey 128 key).2 input =
        storeBlock (aesEncrypt (aesSetKey ctx userKey iv .mode128) (loadBlock input)) ∧
      newAesEncrypt (aesSetEncryptKey userKey 256 key).2 input =
        storeBlock (aesEncrypt (aesSetKey ctx userKey iv .mode256) (loadBlock input)) := by
  obtain ⟨⟨rounds128, words128⟩, rounds256, words256⟩ := aesSetKey_scheduled ctx userKey iv
  constructor
  · have tables := expand128_scheduled 10 0 _ (by omega)
      (scheduled_start (loadKey_loaded key userKey 4 (by omega)))
    have set_ : (aesSetEncryptKey userKey 128 key).2 =
        ⟨expand128 10 0 (loadKey userKey 4 key.rdKey), 10⟩ := by
      rw [aesSetEncryptKey, if_pos rfl]
    have same := tables.unique (by omega) words128
    rw [set_]
    refine newAesEncrypt_eq (r := 4) rounds128 (by omega) rounds128.symm ?_ input
    rw [rounds128]
    exact same
  · have tables := expand256_scheduled 6 0 _ rfl
      (scheduled_start (loadKey_loaded key userKey 8 (by omega)))
    have set_ : (aesSetEncryptKey userKey 256 key).2 =
        ⟨expand256 7 0 (loadKey userKey 8 key.rdKey), 14⟩ := by
      rw [aesSetEncryptKey, if_neg (by decide), if_neg (by decide), if_pos rfl]
    have same := tables.unique (by omega) words256
    rw [set_]
    refine newAesEncrypt_eq (r := 6) rounds256 (by omega) rounds256.symm ?_ input
    rw [rounds256]
    exact same

end AirCast.Crypt
