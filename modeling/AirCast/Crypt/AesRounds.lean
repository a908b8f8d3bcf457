import AirCast.Crypt.Aes
import AirCast.Lib.XorLinear

/-! # The rounds of aes.c

On bytes, a round of `AES_encrypt` substitutes, shifts and mixes, and `inv_mix_col` mixes back.
The two loops are the two directions of a cipher in rounds. -/

set_option autoImplicit false

namespace AirCast.Crypt

open AirCast.BlockCipher

/-! ## Words and bytes -/

section

variable (a0 a1 a2 a3 b0 b1 b2 b3 : BitVec 8)

@[simp] theorem byteOf_word_24 : byteOf (word a0 a1 a2 a3) 24 = a0 := by
  apply BitVec.eq_of_getLsbD_eq
  intro i inside
  simp [byteOf, word, inside, show 24 + i < 32 by omega, show ¬ 24 + i < 16 by omega,
    BitVec.getLsbD_of_ge _ _ (show 8 ≤ 24 + i - 16 by omega),
    BitVec.getLsbD_of_ge _ _ (show 8 ≤ 24 + i - 8 by omega),
    BitVec.getLsbD_of_ge _ _ (show 8 ≤ 24 + i by omega)]

@[simp] theorem byteOf_word_16 : byteOf (word a0 a1 a2 a3) 16 = a1 := by
  apply BitVec.eq_of_getLsbD_eq
  intro i inside
  simp [byteOf, word, inside, show 16 + i < 32 by omega, show 16 + i < 24 by omega,
    BitVec.getLsbD_of_ge _ _ (show 8 ≤ 16 + i - 8 by omega),
    BitVec.getLsbD_of_ge _ _ (show 8 ≤ 16 + i by omega)]

@[simp] theorem byteOf_word_8 : byteOf (word a0 a1 a2 a3) 8 = a2 := by
  apply BitVec.eq_of_getLsbD_eq
  intro i inside
  simp [byteOf, word, inside, show 8 + i < 32 by omega, show 8 + i < 24 by omega,
    show 8 + i < 16 by omega]

@[simp] theorem byteOf_word_0 : byteOf (word a0 a1 a2 a3) 0 = a3 := by
  apply BitVec.eq_of_getLsbD_eq
  intro i inside
  simp [byteOf, word, inside]

theorem byteOf_xor (v w : BitVec 32) (n : ℕ) : byteOf (v ^^^ w) n = byteOf v n ^^^ byteOf w n := by
  rw [byteOf, BitVec.ushiftRight_xor_distrib, BitVec.setWidth_xor]
  rfl

theorem word_bytes (w : BitVec 32) :
    word (byteOf w 24) (byteOf w 16) (byteOf w 8) (byteOf w 0) = w := by
  apply BitVec.eq_of_getLsbD_eq
  intro i inside
  rcases show i < 8 ∨ (8 ≤ i ∧ i < 16) ∨ (16 ≤ i ∧ i < 24) ∨ 24 ≤ i by omega with
    low | ⟨above, below⟩ | ⟨above, below⟩ | high
  · simp [byteOf, word, inside, low, show i < 24 by omega, show i < 16 by omega]
  · simp [byteOf, word, inside, below, show i < 24 by omega, show ¬ i < 8 by omega,
      show i - 8 < 8 by omega, show 8 + (i - 8) = i by omega, show i - 8 < 32 by omega]
  · simp [byteOf, word, inside, below, show ¬ i < 16 by omega, show ¬ i < 8 by omega,
      show i - 16 < 8 by omega, show ¬ i - 8 < 8 by omega, show 16 + (i - 16) = i by omega,
      show i - 16 < 32 by omega]
  · simp [byteOf, word, inside, show ¬ i < 24 by omega, show ¬ i < 16 by omega,
      show ¬ i < 8 by omega, show i - 24 < 8 by omega, show ¬ i - 16 < 8 by omega,
      show ¬ i - 8 < 8 by omega, show 24 + (i - 24) = i by omega, show i - 24 < 32 by omega]

theorem word_xor : word a0 a1 a2 a3 ^^^ word b0 b1 b2 b3 =
    word (a0 ^^^ b0) (a1 ^^^ b1) (a2 ^^^ b2) (a3 ^^^ b3) := by
  rw [← word_bytes (word a0 a1 a2 a3 ^^^ word b0 b1 b2 b3)]
  simp only [byteOf_xor, byteOf_word_24, byteOf_word_16, byteOf_word_8, byteOf_word_0]

theorem word_and : word a0 a1 a2 a3 &&& word b0 b1 b2 b3 =
    word (a0 &&& b0) (a1 &&& b1) (a2 &&& b2) (a3 &&& b3) := by
  have bytes : ∀ (v w : BitVec 32) (n : ℕ), byteOf (v &&& w) n = byteOf v n &&& byteOf w n := by
    intro v w n
    rw [byteOf, BitVec.ushiftRight_and_distrib, BitVec.setWidth_and]
    rfl
  rw [← word_bytes (word a0 a1 a2 a3 &&& word b0 b1 b2 b3)]
  simp only [bytes, byteOf_word_24, byteOf_word_16, byteOf_word_8, byteOf_word_0]

theorem rot1_word : rot1 (word a0 a1 a2 a3) = word a3 a0 a1 a2 := by
  have bytes : ∀ w, byteOf (rot1 w) 24 = byteOf w 0 ∧ byteOf (rot1 w) 16 = byteOf w 24 ∧
      byteOf (rot1 w) 8 = byteOf w 16 ∧ byteOf (rot1 w) 0 = byteOf w 8 := by
    intro w
    refine ⟨?_, ?_, ?_, ?_⟩ <;>
    · apply BitVec.eq_of_getLsbD_eq
      intro i inside
      simp only [byteOf, rot1, BitVec.getLsbD_setWidth, BitVec.getLsbD_ushiftRight,
        BitVec.getLsbD_or, BitVec.getLsbD_shiftLeft]
      grind
  obtain ⟨first, second, third, fourth⟩ := bytes (word a0 a1 a2 a3)
  rw [← word_bytes (rot1 _), first, second, third, fourth]
  simp only [byteOf_word_24, byteOf_word_16, byteOf_word_8, byteOf_word_0]

end

theorem rot2_eq (x : BitVec 32) : rot2 x = rot1 (rot1 x) := by
  apply BitVec.eq_of_getLsbD_eq
  intro i inside
  simp only [rot2, rot1, BitVec.getLsbD_ushiftRight, BitVec.getLsbD_or, BitVec.getLsbD_shiftLeft]
  grind

theorem rot3_eq (x : BitVec 32) : rot3 x = rot1 (rot1 (rot1 x)) := by
  apply BitVec.eq_of_getLsbD_eq
  intro i inside
  simp only [rot3, rot1, BitVec.getLsbD_ushiftRight, BitVec.getLsbD_or, BitVec.getLsbD_shiftLeft]
  grind

/-! ## Doubling -/

theorem aesXtime_eq (a : BitVec 8) :
    aesXtime a = a <<< 1 ^^^ (if a.getLsbD 7 then 0x1b else 0) := by
  rw [aesXtime]
  split_ifs
  · rfl
  · exact BitVec.xor_zero.symm

theorem aesXtime_xor (a b : BitVec 8) : aesXtime (a ^^^ b) = aesXtime a ^^^ aesXtime b := by
  rw [aesXtime_eq, aesXtime_eq, aesXtime_eq, BitVec.getLsbD_xor, BitVec.shiftLeft_xor_distrib]
  cases a.getLsbD 7 <;> cases b.getLsbD 7 <;>
    simp [BitVec.xor_assoc, BitVec.xor_comm, XorLinear.xor_left_comm]

theorem doubled_word (a0 a1 a2 a3 : BitVec 8) :
    (word a0 a1 a2 a3 + word a0 a1 a2 a3) &&& 0xfefefefe#32 =
      word (a0 <<< 1) (a1 <<< 1) (a2 <<< 1) (a3 <<< 1) := by
  have twice : ∀ w : BitVec 32, w + w = w <<< 1 := fun w => BitVec.mul_two.symm.trans
    (BitVec.shiftLeft_eq_mul_twoPow w 1).symm
  have bytes : ∀ w : BitVec 32, ∀ n ∈ [24, 16, 8, 0],
      byteOf (w <<< 1 &&& 0xfefefefe#32) n = byteOf w n <<< 1 := by
    intro w n place
    apply BitVec.eq_of_getLsbD_eq
    intro i inside
    simp only [byteOf, BitVec.getLsbD_setWidth, BitVec.getLsbD_ushiftRight, BitVec.getLsbD_and,
      BitVec.getLsbD_shiftLeft, inside, decide_true, Bool.true_and]
    have mask : (0xfefefefe#32).getLsbD (n + i) = !decide (i < 1) := by
      simp only [List.mem_cons, List.not_mem_nil, or_false] at place
      rcases place with rfl | rfl | rfl | rfl <;> interval_cases i <;> rfl
    rw [mask]
    by_cases lowest : i < 1
    · simp [lowest]
    · have placed : n ≤ 24 := by
        simp only [List.mem_cons, List.not_mem_nil, or_false] at place
        omega
      simp only [show n + i < 32 by omega, show ¬ n + i < 1 by omega, lowest,
        show n + i - 1 = n + (i - 1) by omega, show i - 1 < 8 by omega, decide_true, decide_false,
        Bool.not_false, Bool.and_true, Bool.true_and]
  rw [twice, ← word_bytes (_ &&& _)]
  rw [bytes _ 24 (by simp), bytes _ 16 (by simp), bytes _ 8 (by simp), bytes _ 0 (by simp)]
  simp only [byteOf_word_24, byteOf_word_16, byteOf_word_8, byteOf_word_0]

theorem mul2_word (a0 a1 a2 a3 : BitVec 8) :
    mul2 (word a0 a1 a2 a3) = word (aesXtime a0) (aesXtime a1) (aesXtime a2) (aesXtime a3) := by
  -- the highest bits of the four bytes decide what is added
  have top : ∀ a : BitVec 8, a &&& 0x80 = if a.getLsbD 7 then 0x80 else 0 := by decide
  have tops : word a0 a1 a2 a3 &&& 0x80808080 = word (if a0.getLsbD 7 then 0x80 else 0)
      (if a1.getLsbD 7 then 0x80 else 0) (if a2.getLsbD 7 then 0x80 else 0)
      (if a3.getLsbD 7 then 0x80 else 0) := by
    rw [← top a0, ← top a1, ← top a2, ← top a3, ← word_and]
    rfl
  rw [mul2, tops, doubled_word, aesXtime_eq a0, aesXtime_eq a1, aesXtime_eq a2, aesXtime_eq a3,
    ← word_xor]
  congr 1
  cases a0.getLsbD 7 <;> cases a1.getLsbD 7 <;> cases a2.getLsbD 7 <;> cases a3.getLsbD 7 <;> rfl

/-! ## Columns -/

theorem aesXtime_linear : XorLinear aesXtime := aesXtime_xor

theorem byteOf_linear (n : ℕ) : XorLinear fun w => byteOf w n := fun v w => byteOf_xor v w n

theorem word_linear {n : ℕ} {f0 f1 f2 f3 : BitVec n → BitVec 8} (l0 : XorLinear f0)
    (l1 : XorLinear f1) (l2 : XorLinear f2) (l3 : XorLinear f3) :
    XorLinear fun w => word (f0 w) (f1 w) (f2 w) (f3 w) := by
  intro v w
  dsimp only
  rw [l0, l1, l2, l3, word_xor]

theorem mul2_linear : XorLinear mul2 := by
  intro v w
  rw [← word_bytes v, ← word_bytes w, word_xor, mul2_word, mul2_word, mul2_word, word_xor]
  simp only [aesXtime_xor]

theorem rot1_linear : XorLinear rot1 := by
  intro v w
  rw [← word_bytes v, ← word_bytes w, word_xor, rot1_word, rot1_word, rot1_word, word_xor]

theorem invMixCol_linear : XorLinear invMixCol := by
  have two := mul2_linear
  have four := two.comp two
  have eight := two.comp four
  have nine := XorLinear.id.xor eight
  have once := rot1_linear
  have twice : XorLinear rot2 := funext rot2_eq ▸ once.comp once
  have thrice : XorLinear rot3 := funext rot3_eq ▸ once.comp (once.comp once)
  exact (((two.xor four).xor eight).xor (thrice.comp (two.xor nine))).xor
    (twice.comp (four.xor nine)) |>.xor (once.comp nine)

def mixWord (w : BitVec 32) : BitVec 32 :=
  mixColumn (byteOf w 24) (byteOf w 16) (byteOf w 8) (byteOf w 0)

def invMixWord (w : BitVec 32) : BitVec 32 :=
  invMixColumn (byteOf w 24) (byteOf w 16) (byteOf w 8) (byteOf w 0)

theorem mixWord_linear : XorLinear mixWord := by
  have a0 := byteOf_linear 24
  have a1 := byteOf_linear 16
  have a2 := byteOf_linear 8
  have a3 := byteOf_linear 0
  have tmp1 := ((a0.xor a1).xor a2).xor a3
  have double := aesXtime_linear
  exact word_linear (a0.xor (tmp1.xor (double.comp (a0.xor a1))))
    (a1.xor (tmp1.xor (double.comp (a1.xor a2)))) (a2.xor (tmp1.xor (double.comp (a2.xor a3))))
    (a3.xor (tmp1.xor (double.comp (a3.xor a0))))

theorem invMixWord_linear : XorLinear invMixWord := by
  have a0 := byteOf_linear 24
  have a1 := byteOf_linear 16
  have a2 := byteOf_linear 8
  have a3 := byteOf_linear 0
  have double := aesXtime_linear
  have xt0 := double.comp (a0.xor a1)
  have xt1 := double.comp (a1.xor a2)
  have xt2 := double.comp (a2.xor a3)
  have xt3 := double.comp (a3.xor a0)
  have xt4 := double.comp (xt0.xor xt1)
  have xt5 := double.comp (xt1.xor xt2)
  have xt6 := double.comp (xt4.xor xt5)
  exact word_linear (xt0.xor ((((a1.xor a2).xor a3).xor xt4).xor xt6))
    (xt1.xor ((((a0.xor a2).xor a3).xor xt5).xor xt6))
    (xt2.xor ((((a0.xor a1).xor a3).xor xt4).xor xt6))
    (xt3.xor ((((a0.xor a1).xor a2).xor xt5).xor xt6))

theorem invMixCol_eq (w : BitVec 32) : invMixCol w = invMixWord w :=
  invMixCol_linear.ext invMixWord_linear (by decide +kernel) w

theorem invMixWord_mixWord (w : BitVec 32) : invMixWord (mixWord w) = w :=
  (invMixWord_linear.comp mixWord_linear).ext XorLinear.id (by decide +kernel) w

/-! ## Blocks -/

theorem isboxOf_sboxOf (b : BitVec 8) : isboxOf (sboxOf b) = b := by
  revert b
  decide +kernel

def subBlock (data : AesBlock) : AesBlock :=
  .ofFn fun row => word (sboxOf (byteOf (data.col row) 24))
    (sboxOf (byteOf (data.col (row + 1)) 16)) (sboxOf (byteOf (data.col (row + 2)) 8))
    (sboxOf (byteOf (data.col (row + 3)) 0))

def isubBlock (data : AesBlock) : AesBlock :=
  .ofFn fun row => word (isboxOf (byteOf (data.col row) 24))
    (isboxOf (byteOf (data.col (row + 3)) 16)) (isboxOf (byteOf (data.col (row + 2)) 8))
    (isboxOf (byteOf (data.col (row + 1)) 0))

def mixBlock (data : AesBlock) : AesBlock := .ofFn fun row => mixWord (data.col row)

def invMixBlock (data : AesBlock) : AesBlock := .ofFn fun row =>
  invMixWord (data.col row)

def AesCtx.roundKey (ctx : AesCtx) (i : ℕ) : AesBlock := .ofFn fun row => ctx.key (4 * i + row)

theorem col_add_four (data : AesBlock) (i : ℕ) : data.col (i + 4) = data.col i := by
  rw [AesBlock.col, Nat.add_mod_right, AesBlock.col]

theorem col_mod_add (data : AesBlock) (i k : ℕ) : data.col (i % 4 + k) = data.col (i + k) := by
  rw [AesBlock.col, Nat.mod_add_mod, AesBlock.col]

theorem block_ext {a b : AesBlock} (words : ∀ i < 4, a.col i = b.col i) : a = b := by
  refine Vector.ext fun i inside => ?_
  have same := words i inside
  rwa [AesBlock.col, AesBlock.col, Nat.mod_eq_of_lt inside, Vector.getElem?_eq_getElem inside,
    Vector.getElem?_eq_getElem inside, Option.getD_some, Option.getD_some] at same

theorem ofFn_col (f : ℕ → BitVec 32) (i : ℕ) :
    AesBlock.col (.ofFn fun row => f row) i = f (i % 4) := by
  have below : i % 4 < 4 := Nat.mod_lt i (by omega)
  rw [AesBlock.col, Vector.getElem?_ofFn, dif_pos below, Option.getD_some]

theorem subBlock_col (data : AesBlock) (i : ℕ) :
    (subBlock data).col i = word (sboxOf (byteOf (data.col i) 24))
      (sboxOf (byteOf (data.col (i + 1)) 16)) (sboxOf (byteOf (data.col (i + 2)) 8))
      (sboxOf (byteOf (data.col (i + 3)) 0)) := by
  have here := col_mod_add data i 0
  rw [Nat.add_zero, Nat.add_zero] at here
  rw [subBlock, ofFn_col fun row => word (sboxOf (byteOf (data.col row) 24))
    (sboxOf (byteOf (data.col (row + 1)) 16)) (sboxOf (byteOf (data.col (row + 2)) 8))
    (sboxOf (byteOf (data.col (row + 3)) 0)), here, col_mod_add, col_mod_add, col_mod_add]

theorem isubBlock_col (data : AesBlock) (i : ℕ) :
    (isubBlock data).col i = word (isboxOf (byteOf (data.col i) 24))
      (isboxOf (byteOf (data.col (i + 3)) 16)) (isboxOf (byteOf (data.col (i + 2)) 8))
      (isboxOf (byteOf (data.col (i + 1)) 0)) := by
  have here := col_mod_add data i 0
  rw [Nat.add_zero, Nat.add_zero] at here
  rw [isubBlock, ofFn_col fun row => word (isboxOf (byteOf (data.col row) 24))
    (isboxOf (byteOf (data.col (row + 3)) 16)) (isboxOf (byteOf (data.col (row + 2)) 8))
    (isboxOf (byteOf (data.col (row + 1)) 0)), here, col_mod_add, col_mod_add, col_mod_add]

theorem mixBlock_col (data : AesBlock) {i : ℕ} (low : i < 4) :
    (mixBlock data).col i = mixWord (data.col i) := by
  rw [mixBlock, ofFn_col fun row => mixWord (data.col row), Nat.mod_eq_of_lt low]

theorem invMixBlock_col (data : AesBlock) {i : ℕ} (low : i < 4) :
    (invMixBlock data).col i = invMixWord (data.col i) := by
  rw [invMixBlock, ofFn_col fun row => invMixWord (data.col row), Nat.mod_eq_of_lt low]

theorem xorBlock_col (a b : AesBlock) {i : ℕ} (low : i < 4) :
    (xorBlock a b).col i = a.col i ^^^ b.col i := by
  rw [xorBlock, ofFn_col fun row => a.col row ^^^ b.col row, Nat.mod_eq_of_lt low]

theorem roundKey_col (ctx : AesCtx) (n : ℕ) {i : ℕ} (low : i < 4) :
    (ctx.roundKey n).col i = ctx.key (4 * n + i) := by
  rw [AesCtx.roundKey, ofFn_col fun row => ctx.key (4 * n + row), Nat.mod_eq_of_lt low]

theorem isubBlock_subBlock (data : AesBlock) : isubBlock (subBlock data) = data := by
  apply block_ext
  intro i _
  rw [isubBlock_col, subBlock_col data i, subBlock_col data (i + 3), subBlock_col data (i + 2),
    subBlock_col data (i + 1), byteOf_word_24, byteOf_word_16, byteOf_word_8, byteOf_word_0,
    isboxOf_sboxOf, isboxOf_sboxOf, isboxOf_sboxOf, isboxOf_sboxOf, Nat.add_assoc i 3 1,
    Nat.add_assoc i 2 2, Nat.add_assoc i 1 3, col_add_four]
  exact word_bytes _

theorem invMixBlock_mixBlock (data : AesBlock) : invMixBlock (mixBlock data) = data := by
  apply block_ext
  intro i low
  rw [invMixBlock_col _ low, mixBlock_col _ low, invMixWord_mixWord]

theorem invMixBlock_xorBlock (a b : AesBlock) :
    invMixBlock (xorBlock a b) = xorBlock (invMixBlock a) (invMixBlock b) := by
  apply block_ext
  intro i low
  rw [invMixBlock_col _ low, xorBlock_col _ _ low, xorBlock_col _ _ low, invMixBlock_col _ low,
    invMixBlock_col _ low, invMixWord_linear]

theorem xorBlock_cancel (a b : AesBlock) : xorBlock (xorBlock a b) b = a := by
  apply block_ext
  intro i low
  rw [xorBlock_col _ _ low, xorBlock_col _ _ low, BitVec.xor_assoc, BitVec.xor_self,
    BitVec.xor_zero]

/-! ## The loops as ciphers in rounds -/

theorem aesEncryptRound_col (ctx : AesCtx) (currRnd : ℕ) (data : AesBlock) {i : ℕ} (low : i < 4) :
    (aesEncryptRound ctx currRnd data).col i =
      (if currRnd + 1 < ctx.rounds then
        mixColumn (sboxOf (byteOf (data.col i) 24)) (sboxOf (byteOf (data.col (i + 1)) 16))
          (sboxOf (byteOf (data.col (i + 2)) 8)) (sboxOf (byteOf (data.col (i + 3)) 0))
      else (subBlock data).col i) ^^^ ctx.key (4 * (currRnd + 1) + i) := by
  have column := ofFn_col (fun row => (if currRnd + 1 < ctx.rounds then
    mixColumn (sboxOf (byteOf (data.col row) 24)) (sboxOf (byteOf (data.col (row + 1)) 16))
      (sboxOf (byteOf (data.col (row + 2)) 8)) (sboxOf (byteOf (data.col (row + 3)) 0))
    else word (sboxOf (byteOf (data.col row) 24)) (sboxOf (byteOf (data.col (row + 1)) 16))
      (sboxOf (byteOf (data.col (row + 2)) 8)) (sboxOf (byteOf (data.col (row + 3)) 0))) ^^^
    ctx.key (4 * (currRnd + 1) + row)) i
  rw [Nat.mod_eq_of_lt low] at column
  rw [subBlock_col]
  exact column

theorem aesDecryptRound_col (ctx : AesCtx) (currRnd : ℕ) (data : AesBlock) {i : ℕ} (low : i < 4) :
    (aesDecryptRound ctx currRnd data).col i =
      (if currRnd + 1 < ctx.rounds then
        invMixColumn (isboxOf (byteOf (data.col i) 24)) (isboxOf (byteOf (data.col (i + 3)) 16))
          (isboxOf (byteOf (data.col (i + 2)) 8)) (isboxOf (byteOf (data.col (i + 1)) 0))
      else (isubBlock data).col i) ^^^ ctx.key (4 * (ctx.rounds - 1 - currRnd) + i) := by
  have column := ofFn_col (fun row => (if currRnd + 1 < ctx.rounds then
    invMixColumn (isboxOf (byteOf (data.col row) 24)) (isboxOf (byteOf (data.col (row + 3)) 16))
      (isboxOf (byteOf (data.col (row + 2)) 8)) (isboxOf (byteOf (data.col (row + 1)) 0))
    else word (isboxOf (byteOf (data.col row) 24)) (isboxOf (byteOf (data.col (row + 3)) 16))
      (isboxOf (byteOf (data.col (row + 2)) 8)) (isboxOf (byteOf (data.col (row + 1)) 0))) ^^^
    ctx.key (4 * (ctx.rounds - 1 - currRnd) + row)) i
  rw [Nat.mod_eq_of_lt low] at column
  rw [isubBlock_col]
  exact column

theorem aesEncryptRound_eq (ctx : AesCtx) (currRnd : ℕ) (data : AesBlock) :
    aesEncryptRound ctx currRnd data =
      xorBlock (if currRnd + 1 < ctx.rounds then mixBlock (subBlock data) else subBlock data)
        (ctx.roundKey (currRnd + 1)) := by
  apply block_ext
  intro i low
  rw [aesEncryptRound_col _ _ _ low, xorBlock_col _ _ low, roundKey_col _ _ low]
  by_cases more : currRnd + 1 < ctx.rounds
  · rw [if_pos more, if_pos more, mixBlock_col _ low, subBlock_col, mixWord, byteOf_word_24,
      byteOf_word_16, byteOf_word_8, byteOf_word_0]
  · rw [if_neg more, if_neg more]

theorem aesDecryptRound_eq (ctx : AesCtx) (currRnd : ℕ) (data : AesBlock) :
    aesDecryptRound ctx currRnd data =
      xorBlock (if currRnd + 1 < ctx.rounds then invMixBlock (isubBlock data) else isubBlock data)
        (ctx.roundKey (ctx.rounds - 1 - currRnd)) := by
  apply block_ext
  intro i low
  rw [aesDecryptRound_col _ _ _ low, xorBlock_col _ _ low, roundKey_col _ _ low]
  by_cases more : currRnd + 1 < ctx.rounds
  · rw [if_pos more, if_pos more, invMixBlock_col _ low, isubBlock_col, invMixWord, byteOf_word_24,
      byteOf_word_16, byteOf_word_8, byteOf_word_0]
  · rw [if_neg more, if_neg more]

theorem aesEncrypt_eq (ctx : AesCtx) (some_ : 0 < ctx.rounds) (data : AesBlock) :
    aesEncrypt ctx data = encipher xorBlock subBlock mixBlock ctx.roundKey ctx.rounds data := by
  -- the rounds from `currRnd` on, of which the last does not mix
  have loop : ∀ count currRnd data, currRnd + count + 1 = ctx.rounds →
      aesEncryptLoop ctx (count + 1) currRnd data =
        xorBlock (subBlock (forwardRounds xorBlock subBlock mixBlock ctx.roundKey (currRnd + 1)
          count data)) (ctx.roundKey ctx.rounds) := by
    intro count
    induction count with
    | zero =>
        intro currRnd data last
        rw [aesEncryptLoop, aesEncryptLoop, aesEncryptRound_eq, if_neg (by omega), forwardRounds,
          show currRnd + 1 = ctx.rounds by omega]
    | succ count ih =>
        intro currRnd data last
        rw [aesEncryptLoop, ih _ _ (by omega), aesEncryptRound_eq, if_pos (by omega),
          forwardRounds_front]
  have start : (.ofFn fun row => data.col row ^^^ ctx.key row) = xorBlock data (ctx.roundKey 0) := by
    apply block_ext
    intro i low
    rw [ofFn_col fun row => data.col row ^^^ ctx.key row, xorBlock_col _ _ low,
      roundKey_col _ _ low, Nat.mod_eq_of_lt low, Nat.mul_zero, Nat.zero_add]
  rw [aesEncrypt, encipher, start]
  have whole := loop (ctx.rounds - 1) 0 (xorBlock data (ctx.roundKey 0)) (by omega)
  rwa [Nat.sub_add_cancel some_] at whole

theorem aesDecrypt_eq (ctx : AesCtx) (some_ : 0 < ctx.rounds) (data : AesBlock) :
    aesDecrypt ctx data =
      decipher xorBlock isubBlock invMixBlock ctx.roundKey ctx.rounds data := by
  have loop : ∀ count currRnd data, currRnd + count + 1 = ctx.rounds →
      aesDecryptLoop ctx (count + 1) currRnd data =
        xorBlock (isubBlock (backwardRounds xorBlock isubBlock invMixBlock ctx.roundKey 1 count
          data)) (ctx.roundKey 0) := by
    intro count
    induction count with
    | zero =>
        intro currRnd data last
        rw [aesDecryptLoop, aesDecryptLoop, aesDecryptRound_eq, if_neg (by omega), backwardRounds,
          show ctx.rounds - 1 - currRnd = 0 by omega]
    | succ count ih =>
        intro currRnd data last
        rw [aesDecryptLoop, ih _ _ (by omega), aesDecryptRound_eq, if_pos (by omega),
          backwardRounds, show ctx.rounds - 1 - currRnd = 1 + count by omega]
  have start : (.ofFn fun row => data.col row ^^^ ctx.key (4 * ctx.rounds + row)) =
      xorBlock data (ctx.roundKey ctx.rounds) := by
    apply block_ext
    intro i low
    rw [ofFn_col fun row => data.col row ^^^ ctx.key (4 * ctx.rounds + row), xorBlock_col _ _ low,
      roundKey_col _ _ low, Nat.mod_eq_of_lt low]
  rw [aesDecrypt, decipher, start]
  have whole := loop (ctx.rounds - 1) 0 (xorBlock data (ctx.roundKey ctx.rounds)) (by omega)
  rwa [Nat.sub_add_cancel some_] at whole

@[simp] theorem aesConvertKey_rounds (ctx : AesCtx) : (aesConvertKey ctx).rounds = ctx.rounds := by
  rw [aesConvertKey]

theorem aesConvertKey_roundKey (ctx : AesCtx) (small : ctx.rounds < 30) {i : ℕ}
    (inside : i ≤ ctx.rounds) :
    (aesConvertKey ctx).roundKey i =
      if 0 < i ∧ i < ctx.rounds then invMixBlock (ctx.roundKey i) else ctx.roundKey i := by
  have key : ∀ j < 120, (aesConvertKey ctx).key j =
      if 4 ≤ j ∧ j < 4 * ctx.rounds then invMixCol (ctx.key j) else ctx.key j := by
    intro j below
    rw [AesCtx.key, AesCtx.key, aesConvertKey, Vector.getElem?_ofFn, dif_pos below,
      Vector.getElem?_eq_getElem below]
    rfl
  apply block_ext
  intro row low
  rw [roundKey_col _ _ low, key _ (by omega)]
  by_cases inner : 0 < i ∧ i < ctx.rounds
  · rw [if_pos (by omega), if_pos inner, invMixBlock_col _ low, roundKey_col _ _ low, invMixCol_eq]
  · rw [if_neg (by omega), if_neg inner, roundKey_col _ _ low]

theorem aesDecrypt_aesEncrypt (ctx : AesCtx) (some_ : 0 < ctx.rounds) (small : ctx.rounds < 30)
    (data : AesBlock) : aesDecrypt (aesConvertKey ctx) (aesEncrypt ctx data) = data := by
  rw [aesEncrypt_eq ctx some_, aesDecrypt_eq _ ((aesConvertKey_rounds ctx).symm ▸ some_),
    aesConvertKey_rounds]
  refine @decipher_encipher _ xorBlock subBlock mixBlock isubBlock invMixBlock xorBlock_cancel
    isubBlock_subBlock invMixBlock_mixBlock invMixBlock_xorBlock _ _ _ ?_ ?_
    (fun i positive inside => ?_) data
  · rw [aesConvertKey_roundKey ctx small (Nat.zero_le _), if_neg (by omega)]
  · rw [aesConvertKey_roundKey ctx small le_rfl, if_neg (by omega)]
  · rw [aesConvertKey_roundKey ctx small inside.le, if_pos ⟨positive, inside⟩]

/-! ## Messages -/

theorem storeBlock_length (block : AesBlock) : (storeBlock block).length = 16 := by
  simp [storeBlock, storeWord]

theorem loadWord_storeWord (w : BitVec 32) (front rest : Bytes) :
    loadWord (front ++ (storeWord w ++ rest)) front.length = w := by
  have place : ∀ i < 4, (front ++ (storeWord w ++ rest)).getD (front.length + i) 0 =
      (storeWord w).getD i 0 := by
    intro i inside
    rw [List.getD_append_right _ _ _ _ (by omega), Nat.add_sub_cancel_left,
      List.getD_append _ _ _ _ inside]
  have first := place 0 (by omega)
  rw [Nat.add_zero] at first
  rw [loadWord, first, place 1 (by omega), place 2 (by omega), place 3 (by omega)]
  exact word_bytes w

theorem loadBlock_col (bytes : Bytes) {i : ℕ} (low : i < 4) :
    (loadBlock bytes).col i = loadWord bytes (4 * i) := by
  rw [loadBlock, ofFn_col fun row => loadWord bytes (4 * row), Nat.mod_eq_of_lt low]

theorem loadBlock_storeBlock (block : AesBlock) (rest : Bytes) :
    loadBlock (storeBlock block ++ rest) = block := by
  have split : storeBlock block ++ rest = storeWord (block.col 0) ++ (storeWord (block.col 1) ++
      (storeWord (block.col 2) ++ (storeWord (block.col 3) ++ rest))) := by
    simp only [storeBlock, List.append_assoc]
  apply block_ext
  intro row low
  rw [loadBlock_col _ low, split]
  interval_cases row
  · exact loadWord_storeWord (block.col 0) [] _
  · exact loadWord_storeWord (block.col 1) (storeWord (block.col 0)) _
  · exact loadWord_storeWord (block.col 2) (storeWord (block.col 0) ++ storeWord (block.col 1)) _
  · exact loadWord_storeWord (block.col 3)
      (storeWord (block.col 0) ++ (storeWord (block.col 1) ++ storeWord (block.col 2))) _

theorem storeWord_loadWord {bytes : Bytes} {i : ℕ} (inside : i + 4 ≤ bytes.length) :
    storeWord (loadWord bytes i) = (bytes.drop i).take 4 := by
  have cut : (bytes.drop i).take 4 =
      [bytes[i], bytes[i + 1], bytes[i + 2], bytes[i + 3]] := by
    rw [List.drop_eq_getElem_cons (by omega), List.drop_eq_getElem_cons (by omega),
      List.drop_eq_getElem_cons (by omega), List.drop_eq_getElem_cons (by omega)]
    rfl
  have item : ∀ (j : ℕ) (below : j < bytes.length), bytes.getD j 0 = bytes[j] :=
    fun j below => List.getD_eq_getElem bytes 0 below
  rw [cut, storeWord, loadWord, byteOf_word_24, byteOf_word_16, byteOf_word_8, byteOf_word_0,
    item i (by omega), item (i + 1) (by omega), item (i + 2) (by omega), item (i + 3) (by omega)]

theorem storeBlock_loadBlock {bytes : Bytes} (enough : 16 ≤ bytes.length) :
    storeBlock (loadBlock bytes) = bytes.take 16 := by
  rw [storeBlock, loadBlock_col _ (by omega), loadBlock_col _ (by omega),
    loadBlock_col _ (by omega), loadBlock_col _ (by omega), storeWord_loadWord (by omega),
    storeWord_loadWord (by omega), storeWord_loadWord (by omega), storeWord_loadWord (by omega),
    show 16 = 4 + (4 + (4 + 4)) from rfl, List.take_add, List.take_add, List.take_add,
    List.drop_drop, List.drop_drop]
  rfl

/-- The first `count` blocks of a message. -/
def blocksOf : ℕ → Bytes → List AesBlock
  | 0, _ => []
  | count + 1, msg => loadBlock msg :: blocksOf count (msg.drop 16)

def storeBlocks (blocks : List AesBlock) : Bytes := blocks.flatMap storeBlock

theorem length_blocksOf (count : ℕ) : ∀ msg : Bytes, (blocksOf count msg).length = count := by
  induction count with
  | zero => intro msg; rfl
  | succ count ih => intro msg; rw [blocksOf, List.length_cons, ih]

theorem length_storeBlocks (blocks : List AesBlock) :
    (storeBlocks blocks).length = 16 * blocks.length := by
  induction blocks with
  | nil => rfl
  | cons block rest ih =>
      rw [storeBlocks, List.flatMap_cons, List.length_append, storeBlock_length, ← storeBlocks, ih,
        List.length_cons]
      omega

theorem blocksOf_storeBlocks (blocks : List AesBlock) (rest : Bytes) :
    blocksOf blocks.length (storeBlocks blocks ++ rest) = blocks := by
  induction blocks with
  | nil => rfl
  | cons block more ih =>
      rw [storeBlocks, List.flatMap_cons, ← storeBlocks, List.append_assoc, List.length_cons,
        blocksOf, loadBlock_storeBlock,
        List.drop_append_of_le_length (storeBlock_length block).ge,
        List.drop_eq_nil_of_le (storeBlock_length block).le, List.nil_append, ih]

theorem storeBlocks_blocksOf (count : ℕ) : ∀ msg : Bytes, 16 * count ≤ msg.length →
    storeBlocks (blocksOf count msg) = msg.take (16 * count) := by
  induction count with
  | zero => intro msg _; rfl
  | succ count ih =>
      intro msg enough
      rw [blocksOf, storeBlocks, List.flatMap_cons, ← storeBlocks,
        storeBlock_loadBlock (by omega), ih _ (by rw [List.length_drop]; omega), ← List.take_add]
      congr 1
      omega

theorem aesCbcEncryptLoop_eq (ctx : AesCtx) (count : ℕ) : ∀ (tout : AesBlock) (msg : Bytes),
    aesCbcEncryptLoop ctx count tout msg =
      (storeBlocks (chain xorBlock (aesEncrypt ctx) tout (blocksOf count msg)).1,
        (chain xorBlock (aesEncrypt ctx) tout (blocksOf count msg)).2) := by
  induction count with
  | zero => intro tout msg; rfl
  | succ count ih =>
      intro tout msg
      rw [aesCbcEncryptLoop, ih, blocksOf, chain]
      rfl

theorem aesCbcDecryptLoop_eq (ctx : AesCtx) (count : ℕ) : ∀ (xor : AesBlock) (msg : Bytes),
    aesCbcDecryptLoop ctx count xor msg =
      (storeBlocks (unchain xorBlock (aesDecrypt ctx) xor (blocksOf count msg)).1,
        (unchain xorBlock (aesDecrypt ctx) xor (blocksOf count msg)).2) := by
  induction count with
  | zero => intro xor msg; rfl
  | succ count ih =>
      intro xor msg
      rw [aesCbcDecryptLoop, ih, blocksOf, unchain]
      rfl

def AesCtx.Ready (ctx : AesCtx) : Prop := ctx.rounds = 10 ∨ ctx.rounds = 14

theorem aesSetKey_ready (ctx : AesCtx) (key iv : Bytes) (mode : AesMode) :
    (aesSetKey ctx key iv mode).Ready := by
  cases mode
  · exact .inl rfl
  · exact .inr rfl

theorem aesCbcDecrypt_aesCbcEncrypt (ctx : AesCtx) (ready : ctx.Ready) (msg rest : Bytes) :
    let code := aesCbcEncrypt ctx msg msg.length
    let back := aesCbcDecrypt (aesConvertKey ctx) (code.2 ++ rest) msg.length
    back.2 = msg.take (16 * (msg.length / 16)) ∧ back.1 = aesConvertKey code.1 := by
  have some_ : 0 < ctx.rounds := by rcases ready with rounds | rounds <;> omega
  have small : ctx.rounds < 30 := by rcases ready with rounds | rounds <;> omega
  let blocks := blocksOf (msg.length / 16) msg
  let codes := chain xorBlock (aesEncrypt ctx) (loadBlock ctx.iv) blocks
  have encrypted : aesCbcEncrypt ctx msg msg.length =
      ({ ctx with iv := storeBlock codes.2 }, storeBlocks codes.1) := by
    rw [aesCbcEncrypt, Int.toNat_natCast, aesCbcEncryptLoop_eq]
  have parts : blocksOf (msg.length / 16) (storeBlocks codes.1 ++ rest) = codes.1 := by
    have count : codes.1.length = msg.length / 16 :=
      (length_chain _ _ _ _).trans (length_blocksOf _ _)
    rw [← count, blocksOf_storeBlocks]
  have restored : unchain xorBlock (aesDecrypt (aesConvertKey ctx)) (loadBlock ctx.iv) codes.1 =
      (blocks, codes.2) :=
    unchain_chain xorBlock_cancel (aesDecrypt_aesEncrypt ctx some_ small) blocks _
  have iv : (aesConvertKey ctx).iv = ctx.iv := by rw [aesConvertKey]
  have decrypted : aesCbcDecrypt (aesConvertKey ctx) (storeBlocks codes.1 ++ rest) msg.length =
      ({ aesConvertKey ctx with iv := storeBlock codes.2 }, storeBlocks blocks) := by
    rw [aesCbcDecrypt, Int.toNat_natCast, aesCbcDecryptLoop_eq, parts, iv, restored]
  dsimp only
  rw [encrypted, decrypted]
  refine ⟨storeBlocks_blocksOf _ _ (by omega), ?_⟩
  rw [aesConvertKey, aesConvertKey]

end AirCast.Crypt
