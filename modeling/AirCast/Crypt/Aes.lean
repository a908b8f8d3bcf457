import AirCast.CString
import AirCast.Crypt.AesTables
import AirCast.Lib.BlockCipher

/-! # The cipher of aes.c

`AES_CTX` with its key schedule, one block, and chained blocks.  A word of the state holds a column
with its first byte on top.  `AES_cbc_decrypt` behind `AES_convert_key` undoes `AES_cbc_encrypt`. -/

set_option autoImplicit false

namespace AirCast.Crypt

/-- `(a0 << 24) | (a1 << 16) | (a2 << 8) | a3`. -/
def word (a0 a1 a2 a3 : BitVec 8) : BitVec 32 :=
  a0.setWidth 32 <<< 24 ||| a1.setWidth 32 <<< 16 ||| a2.setWidth 32 <<< 8 ||| a3.setWidth 32

/-- `(w >> n) & 0xFF`. -/
def byteOf (w : BitVec 32) (n : ℕ) : BitVec 8 := (w >>> n).setWidth 8

abbrev AesBlock := Vector (BitVec 32) 4

/-- `data[i % 4]`. -/
def AesBlock.col (data : AesBlock) (i : ℕ) : BitVec 32 := data[i % 4]?.getD 0

def loadWord (bytes : Bytes) (i : ℕ) : BitVec 32 :=
  word (bytes.getD i 0).toBitVec (bytes.getD (i + 1) 0).toBitVec (bytes.getD (i + 2) 0).toBitVec
    (bytes.getD (i + 3) 0).toBitVec

def storeWord (w : BitVec 32) : Bytes :=
  [⟨byteOf w 24⟩, ⟨byteOf w 16⟩, ⟨byteOf w 8⟩, ⟨byteOf w 0⟩]

def loadBlock (bytes : Bytes) : AesBlock := .ofFn fun i => loadWord bytes (4 * i)

/-- `htonl` and `memcpy` out of words. -/
def storeBlock (block : AesBlock) : Bytes :=
  storeWord (block.col 0) ++ (storeWord (block.col 1) ++ (storeWord (block.col 2) ++
    storeWord (block.col 3)))

def xorBlock (a b : AesBlock) : AesBlock := .ofFn fun i => a.col i ^^^ b.col i

def sboxOf (b : BitVec 8) : BitVec 8 := aesSbox.getD b.toNat 0

def isboxOf (b : BitVec 8) : BitVec 8 := aesIsbox.getD b.toNat 0

inductive AesMode where
  | mode128
  | mode256
  deriving DecidableEq

structure AesCtx where
  rounds : ℕ
  keySize : ℕ
  ks : Vector (BitVec 32) 120
  iv : Bytes

def AesCtx.key (ctx : AesCtx) (i : ℕ) : BitVec 32 := ctx.ks[i]?.getD 0

/-- What the loop of `AES_set_key` makes of the word before. -/
def scheduleCore (words i : ℕ) (ip : ℕ) (tmp : BitVec 32) : BitVec 32 :=
  let tmp :=
    if i % words = 0 then
      word (sboxOf (byteOf tmp 16)) (sboxOf (byteOf tmp 8)) (sboxOf (byteOf tmp 0))
        (sboxOf (byteOf tmp 24)) ^^^ (aesRcon.getD ip 0).setWidth 32 <<< 24
    else tmp
  if words = 8 ∧ i % words = 4 then
    word (sboxOf (byteOf tmp 24)) (sboxOf (byteOf tmp 16)) (sboxOf (byteOf tmp 8))
      (sboxOf (byteOf tmp 0))
  else tmp

/-- The loop of `AES_set_key`, from `W[i]` on. -/
def scheduleLoop (words : ℕ) :
    ℕ → ℕ → ℕ → Vector (BitVec 32) 120 → Vector (BitVec 32) 120
  | 0, _, _, w => w
  | count + 1, i, ip, w =>
      scheduleLoop words count (i + 1) (if i % words = 0 then ip + 1 else ip)
        (w.setIfInBounds i
          (w[i - words]?.getD 0 ^^^ scheduleCore words i ip (w[i - 1]?.getD 0)))

def aesSetKey (ctx : AesCtx) (key iv : Bytes) (mode : AesMode) : AesCtx :=
  let rounds := if mode = .mode128 then 10 else 14
  let words := if mode = .mode128 then 4 else 8
  let loaded := .ofFn fun i => if i < words then loadWord key (4 * i) else ctx.ks[i]
  { rounds := rounds
    keySize := words
    ks := scheduleLoop words (4 * (rounds + 1) - words) words 0 loaded
    iv := iv.take 16 }

def rot1 (x : BitVec 32) : BitVec 32 := x <<< 24 ||| x >>> 8

def rot2 (x : BitVec 32) : BitVec 32 := x <<< 16 ||| x >>> 16

def rot3 (x : BitVec 32) : BitVec 32 := x <<< 8 ||| x >>> 24

def mul2 (x : BitVec 32) : BitVec 32 :=
  let t := x &&& 0x80808080
  ((x + x) &&& 0xfefefefe#32) ^^^ ((t - t >>> 7) &&& 0x1b1b1b1b)

def invMixCol (x : BitVec 32) : BitVec 32 :=
  let f2 := mul2 x
  let f4 := mul2 f2
  let f8 := mul2 f4
  let f9 := x ^^^ f8
  let f8 := f2 ^^^ f4 ^^^ f8
  let f2 := f2 ^^^ f9
  let f4 := f4 ^^^ f9
  let f8 := f8 ^^^ rot3 f2
  let f8 := f8 ^^^ rot2 f4
  f8 ^^^ rot1 f9

/-- `AES_convert_key`: the words between the first and the last round key, one after the other. -/
def aesConvertKey (ctx : AesCtx) : AesCtx :=
  { ctx with
    ks := .ofFn fun i =>
      if 4 ≤ i.val ∧ i.val < 4 * ctx.rounds then invMixCol ctx.ks[i] else ctx.ks[i] }

def aesXtime (x : BitVec 8) : BitVec 8 := if x.getLsbD 7 then x <<< 1 ^^^ 0x1b else x <<< 1

/-- The column that a round of `AES_encrypt` makes of four bytes. -/
def mixColumn (a0 a1 a2 a3 : BitVec 8) : BitVec 32 :=
  let tmp1 := a0 ^^^ a1 ^^^ a2 ^^^ a3
  word (a0 ^^^ (tmp1 ^^^ aesXtime (a0 ^^^ a1))) (a1 ^^^ (tmp1 ^^^ aesXtime (a1 ^^^ a2)))
    (a2 ^^^ (tmp1 ^^^ aesXtime (a2 ^^^ a3))) (a3 ^^^ (tmp1 ^^^ aesXtime (a3 ^^^ a0)))

/-- One round of `AES_encrypt`. -/
def aesEncryptRound (ctx : AesCtx) (currRnd : ℕ) (data : AesBlock) : AesBlock :=
  let tmp (row : ℕ) :=
    let a0 := sboxOf (byteOf (data.col row) 24)
    let a1 := sboxOf (byteOf (data.col (row + 1)) 16)
    let a2 := sboxOf (byteOf (data.col (row + 2)) 8)
    let a3 := sboxOf (byteOf (data.col (row + 3)) 0)
    if currRnd + 1 < ctx.rounds then mixColumn a0 a1 a2 a3 else word a0 a1 a2 a3
  .ofFn fun row => tmp row ^^^ ctx.key (4 * (currRnd + 1) + row)

/-- The loop of `AES_encrypt`. -/
def aesEncryptLoop (ctx : AesCtx) : ℕ → ℕ → AesBlock → AesBlock
  | 0, _, data => data
  | count + 1, currRnd, data =>
      aesEncryptLoop ctx count (currRnd + 1) (aesEncryptRound ctx currRnd data)

def aesEncrypt (ctx : AesCtx) (data : AesBlock) : AesBlock :=
  aesEncryptLoop ctx ctx.rounds 0 (.ofFn fun row => data.col row ^^^ ctx.key row)

/-- The column that a round of `AES_decrypt` makes of four bytes. -/
def invMixColumn (a0 a1 a2 a3 : BitVec 8) : BitVec 32 :=
  let xt0 := aesXtime (a0 ^^^ a1)
  let xt1 := aesXtime (a1 ^^^ a2)
  let xt2 := aesXtime (a2 ^^^ a3)
  let xt3 := aesXtime (a3 ^^^ a0)
  let xt4 := aesXtime (xt0 ^^^ xt1)
  let xt5 := aesXtime (xt1 ^^^ xt2)
  let xt6 := aesXtime (xt4 ^^^ xt5)
  word (xt0 ^^^ (a1 ^^^ a2 ^^^ a3 ^^^ xt4 ^^^ xt6)) (xt1 ^^^ (a0 ^^^ a2 ^^^ a3 ^^^ xt5 ^^^ xt6))
    (xt2 ^^^ (a0 ^^^ a1 ^^^ a3 ^^^ xt4 ^^^ xt6)) (xt3 ^^^ (a0 ^^^ a1 ^^^ a2 ^^^ xt5 ^^^ xt6))

/-- One round of `AES_decrypt`; `row` is one less than in the source. -/
def aesDecryptRound (ctx : AesCtx) (currRnd : ℕ) (data : AesBlock) : AesBlock :=
  let tmp (row : ℕ) :=
    let a0 := isboxOf (byteOf (data.col row) 24)
    let a1 := isboxOf (byteOf (data.col (row + 3)) 16)
    let a2 := isboxOf (byteOf (data.col (row + 2)) 8)
    let a3 := isboxOf (byteOf (data.col (row + 1)) 0)
    if currRnd + 1 < ctx.rounds then invMixColumn a0 a1 a2 a3 else word a0 a1 a2 a3
  .ofFn fun row => tmp row ^^^ ctx.key (4 * (ctx.rounds - 1 - currRnd) + row)

/-- The loop of `AES_decrypt`. -/
def aesDecryptLoop (ctx : AesCtx) : ℕ → ℕ → AesBlock → AesBlock
  | 0, _, data => data
  | count + 1, currRnd, data =>
      aesDecryptLoop ctx count (currRnd + 1) (aesDecryptRound ctx currRnd data)

def aesDecrypt (ctx : AesCtx) (data : AesBlock) : AesBlock :=
  aesDecryptLoop ctx ctx.rounds 0 (.ofFn fun row => data.col row ^^^ ctx.key (4 * ctx.rounds + row))

/-- The loop of `AES_cbc_encrypt`: what is written, and `tout`. -/
def aesCbcEncryptLoop (ctx : AesCtx) : ℕ → AesBlock → Bytes → Bytes × AesBlock
  | 0, tout, _ => ([], tout)
  | count + 1, tout, msg =>
      let tin := aesEncrypt ctx (xorBlock (loadBlock msg) tout)
      let rest := aesCbcEncryptLoop ctx count tin (msg.drop 16)
      (storeBlock tin ++ rest.1, rest.2)

def aesCbcEncrypt (ctx : AesCtx) (msg : Bytes) (length : ℤ) : AesCtx × Bytes :=
  let (out, tout) := aesCbcEncryptLoop ctx (length.toNat / 16) (loadBlock ctx.iv) msg
  ({ ctx with iv := storeBlock tout }, out)

/-- The loop of `AES_cbc_decrypt`: what is written, and `xor`. -/
def aesCbcDecryptLoop (ctx : AesCtx) : ℕ → AesBlock → Bytes → Bytes × AesBlock
  | 0, xor, _ => ([], xor)
  | count + 1, xor, msg =>
      let tin := loadBlock msg
      let tout := xorBlock (aesDecrypt ctx tin) xor
      let rest := aesCbcDecryptLoop ctx count tin (msg.drop 16)
      (storeBlock tout ++ rest.1, rest.2)

def aesCbcDecrypt (ctx : AesCtx) (msg : Bytes) (length : ℤ) : AesCtx × Bytes :=
  let (out, xor) := aesCbcDecryptLoop ctx (length.toNat / 16) (loadBlock ctx.iv) msg
  ({ ctx with iv := storeBlock xor }, out)

end AirCast.Crypt
