import AirCast.Crypt.Base64
import AirCast.Crypt.BigInt
import AirCast.Http.HttpResponse
import AirCast.Lib.MemoryBlock
import AirCast.Lib.RingLayout

/-! # Decryption with the private key

`rsakey_decrypt` of rsakey.c.  SHA-1 and the modular exponentiation are opaque: a function of
the concatenated updates and an operation on big integers. -/

set_option autoImplicit false

namespace AirCast.Crypt

open AirCast.Http

abbrev Sha1 : Type := Bytes → List.Vector UInt8 20

/-- `struct rsakey_s`; `modpow` is `rsakey_modpow` with the private numbers of the key. -/
structure RsaKey where
  keylen : ℕ
  n : BigInt
  modpow : BigInt → BigInt
  base64 : Base64
  /-- `MAX_KEYLEN` -/
  keylen_le : keylen ≤ 512

/-- `rsakey_init`; a modulus of zeros is read past its end. -/
def rsakeyInit (modulus : Bytes) (modpow : BigInt → BigInt) : Except Fault (Option RsaKey) :=
  if long : 512 < modulus.length then .ok none
  else if ∀ c ∈ modulus, c = 0 then .error .outOfBounds
  else
    .ok (some
      { keylen := (modulus.dropWhile (· = 0)).length
        n := biImport modulus
        modpow := modpow
        base64 := .ofDefault false false
        keylen_le := (List.length_dropWhile_le _ _).trans (not_lt.mp long) })

/-! ## The mask generation function -/

section

variable (sha1 : Sha1)

def counterBytes (i : ℕ) : Bytes :=
  [UInt8.ofNat (i >>> 24 &&& 0xff), UInt8.ofNat (i >>> 16 &&& 0xff), UInt8.ofNat (i >>> 8 &&& 0xff),
    UInt8.ofNat (i &&& 0xff)]

/-- The loop of `rsakey_mfg1`; `none` is a write outside `dst`. -/
def mfg1Loop (seed : Bytes) : ℕ → ℕ → ℕ → MemoryBlock UInt8 → Option (MemoryBlock UInt8)
  | 0, _, _, dst => some dst
  | rounds + 1, i, dstpos, dst => do
      let dst ← dst.store dstpos (sha1 (seed ++ counterBytes i)).toList
      mfg1Loop seed rounds (i + 1) (dstpos + 20) dst

/-- `rsakey_mfg1`: the result and `dst` after the call. -/
def rsakeyMfg1 (dst : MemoryBlock UInt8) (dstlen : ℕ) (seed : Bytes) (masklen : ℕ) :
    Except Fault (ℤ × MemoryBlock UInt8) :=
  let iterations := (masklen + 20 - 1) / 20
  if dstlen < iterations * 20 then .ok (-1, dst)
  else
    match mfg1Loop sha1 seed iterations 0 0 dst with
    | none => .error .outOfBounds
    | some dst => .ok (masklen, dst)

/-! ## Decryption -/

/-- `buffer[i] ^= mask[0]` and so on. -/
def xorFrom : ℕ → Bytes → Bytes → Bytes
  | _, [], buffer => buffer
  | i, c :: mask, buffer => xorFrom (i + 1) mask (buffer.modify i (· ^^^ c))

/-- The arrays of `rsakey_decrypt`. -/
structure Buffers where
  buffer : Bytes
  maskbuf : MemoryBlock UInt8

/-- A mask is made from a part of `buffer` and put on another one; `none` when there is no
mask. -/
def unmask (buffers : Buffers) (seed seedlen target masklen : ℕ) :
    Except Fault (Option Buffers) :=
  match rsakeyMfg1 sha1 buffers.maskbuf 512 (window buffers.buffer seed seedlen) masklen with
  | .error fault => .error fault
  | .ok (ret, maskbuf) =>
      if ret < 0 then .ok none
      else
        match maskbuf.load ret.toNat with
        | none => .error .uninitialised
        | some mask =>
            if buffers.buffer.length < target + mask.length then .error .outOfBounds
            else .ok (some ⟨xorFrom target mask buffers.buffer, maskbuf⟩)

/-- `buffer` once the input is decrypted: m = c^d (mod n). -/
def decryptedBuffer (key : RsaKey) (input : Bytes) : Bytes :=
  let buffer := overwrite (List.replicate 512 0) (key.keylen - input.length) input
  let biOut := key.modpow (biImport (window buffer 0 key.keylen))
  overwrite (List.replicate 512 0) 0 (biExport biOut key.keylen)

/-- The loop that looks for the first data byte; each round moves `i`. -/
def firstData (buffer : Bytes) (keylen : ℕ) : ℕ → ℕ → ℕ
  | 0, i => i
  | rounds + 1, i =>
      if i < keylen then
        if buffer.getD i 0 = 0 then firstData buffer keylen rounds (i + 1) else i + 1
      else i

/-- The end of `rsakey_decrypt`: the result, and what stands at `dst`. -/
def copyData (keylen : ℕ) (buffer dst : Bytes) (dstlen : ℤ) : Except Fault (ℤ × Option Bytes) :=
  let i := firstData buffer keylen keylen (1 + 2 * 20)
  let outlen : ℤ := keylen - i
  if dstlen < outlen then .ok (-5, some dst)
  else if outlen < 0 ∨ dst.length < outlen then .error .outOfBounds
  else .ok (outlen, some (overwrite dst 0 (window buffer i outlen.toNat)))

def rsakeyDecrypt (key : RsaKey) (dst : Option Bytes) (dstlen : ℤ) (b64input : Option CString) :
    Except Fault (ℤ × Option Bytes) :=
  match dst, b64input with
  | some block, some b64input =>
      let input := base64Decode key.base64 b64input.chars
      if input.result < 0 ∨ key.keylen < input.result then .ok (-2, dst)
      -- the length of the first seed would be negative
      else if key.keylen < 1 + 20 then .error .outOfBounds
      else
        let buffers := ⟨decryptedBuffer key input.written, .alloc 512⟩
        match unmask sha1 buffers (1 + 20) (key.keylen - 1 - 20) 1 20 with
        | .error fault => .error fault
        | .ok none => .ok (-3, dst)
        | .ok (some buffers) =>
            match unmask sha1 buffers 1 20 (1 + 20) (key.keylen - 1 - 20) with
            | .error fault => .error fault
            | .ok none => .ok (-4, dst)
            | .ok (some buffers) => copyData key.keylen buffers.buffer block dstlen
  | _, _ => .ok (-1, dst)

end

/-! ## The encoding of RFC 3447 -/

section

variable (sha1 : Sha1)

def mgf1Digests (seed : Bytes) (count : ℕ) : Bytes :=
  (List.range count).flatMap fun i => (sha1 (seed ++ octets 4 i)).toList

def mgf1 (seed : Bytes) (masklen : ℕ) : Bytes :=
  (mgf1Digests sha1 seed ((masklen + 19) / 20)).take masklen

def xorBytes (left right : Bytes) : Bytes := List.zipWith (· ^^^ ·) left right

def oaepData (keylen : ℕ) (label message : Bytes) : Bytes :=
  (sha1 label).toList ++ (List.replicate (keylen - message.length - 42) 0 ++ 1 :: message)

/-- EME-OAEP, for a key of `keylen` bytes. -/
def oaepEncode (keylen : ℕ) (label message seed : Bytes) : Bytes :=
  let maskedData := xorBytes (oaepData sha1 keylen label message) (mgf1 sha1 seed (keylen - 21))
  let maskedSeed := xorBytes seed (mgf1 sha1 maskedData 20)
  0 :: (maskedSeed ++ maskedData)

end

/-- The private operation of the key undoes the public one below the modulus. -/
def RsaKey.Inverts (key : RsaKey) (encrypt : ℕ → ℕ) : Prop :=
  ∀ m < key.n.value, encrypt m < key.n.value ∧
    ∀ x : BigInt, x.value = encrypt m → (key.modpow x).value = m

/-- The ciphertext of a message: the encoded message as a number, encrypted, in `keylen`
bytes. -/
def rsaesOaep (sha1 : Sha1) (key : RsaKey) (encrypt : ℕ → ℕ) (label message seed : Bytes) : Bytes :=
  octets key.keylen (encrypt (numberOf (oaepEncode sha1 key.keylen label message seed)))

/-! ## What the key is -/

theorem rsakeyInit_spec {modulus : Bytes} {modpow : BigInt → BigInt} {key : RsaKey}
    (made : rsakeyInit modulus modpow = .ok (some key)) :
    key.base64 = .ofDefault false false ∧ 256 ^ (key.keylen - 1) ≤ key.n.value ∧
      key.n.value < 256 ^ key.keylen := by
  rw [rsakeyInit] at made
  by_cases long : 512 < modulus.length
  · rw [dif_pos long] at made
    cases made
  · by_cases zeros : ∀ c ∈ modulus, c = 0
    · rw [dif_neg long, if_pos zeros] at made
      cases made
    · rw [dif_neg long, if_neg zeros] at made
      cases made
      refine ⟨rfl, ?_, ?_⟩
      · rw [biImport_value]
        exact pow_le_numberOf (by simpa using zeros)
      · rw [biImport_value, ← numberOf_dropWhile]
        exact numberOf_lt _

/-! ## The masks -/

section

variable (sha1 : Sha1)

theorem counterBytes_eq (i : ℕ) : counterBytes i = octets 4 i := by
  simp only [counterBytes, octets, List.nil_append, List.cons_append, Nat.div_div_eq_div_mul,
    Nat.shiftRight_eq_div_pow, Nat.and_two_pow_sub_one_eq_mod _ 8, UInt8.ofNat_mod_size]

theorem mgf1Digests_length (seed : Bytes) (count : ℕ) :
    (mgf1Digests sha1 seed count).length = count * 20 := by
  induction count with
  | zero => rfl
  | succ count ih =>
      rw [mgf1Digests, List.range_succ, List.flatMap_append, List.length_append, ← mgf1Digests, ih,
        List.flatMap_singleton, List.Vector.toList_length]
      ring

theorem mgf1_length (seed : Bytes) (masklen : ℕ) : (mgf1 sha1 seed masklen).length = masklen := by
  rw [mgf1, List.length_take, mgf1Digests_length]
  omega

/-- After `i` rounds the first `i` digests stand in `dst`. -/
theorem mfg1Loop_holds (seed : Bytes) : ∀ (rounds i : ℕ) (dst : MemoryBlock UInt8),
    dst.Holds (mgf1Digests sha1 seed i) → (i + rounds) * 20 ≤ dst.capacity →
      ∃ after, mfg1Loop sha1 seed rounds i (i * 20) dst = some after ∧
        after.capacity = dst.capacity ∧ after.Holds (mgf1Digests sha1 seed (i + rounds)) := by
  intro rounds
  induction rounds with
  | zero => intro i dst holds _; exact ⟨dst, rfl, rfl, holds⟩
  | succ rounds ih =>
      intro i dst holds room
      have digest : (sha1 (seed ++ counterBytes i)).toList.length = 20 :=
        List.Vector.toList_length _
      obtain ⟨next, stored, nextHolds⟩ := holds.store (sha1 (seed ++ counterBytes i)).toList (by
        rw [mgf1Digests_length, digest]
        omega)
      have nextDigests : mgf1Digests sha1 seed i ++ (sha1 (seed ++ counterBytes i)).toList =
          mgf1Digests sha1 seed (i + 1) := by
        rw [mgf1Digests, mgf1Digests, List.range_succ, List.flatMap_append, List.flatMap_singleton,
          counterBytes_eq]
      rw [nextDigests] at nextHolds
      rw [mgf1Digests_length] at stored
      have same := MemoryBlock.capacity_store stored
      obtain ⟨after, loop, afterSame, afterHolds⟩ := ih (i + 1) next nextHolds (by
        rw [same]
        omega)
      refine ⟨after, ?_, afterSame.trans same, by rwa [Nat.add_comm rounds, ← Nat.add_assoc]⟩
      rw [Nat.add_mul, Nat.one_mul] at loop
      rw [mfg1Loop, stored]
      exact loop

theorem rsakeyMfg1_spec (seed : Bytes) {masklen : ℕ} {dst : MemoryBlock UInt8}
    (array : dst.capacity = 512) (short : masklen ≤ 500) :
    ∃ after, rsakeyMfg1 sha1 dst 512 seed masklen = .ok (masklen, after) ∧
      after.capacity = 512 ∧ after.load masklen = some (mgf1 sha1 seed masklen) := by
  obtain ⟨after, loop, same, holds⟩ := mfg1Loop_holds sha1 seed ((masklen + 19) / 20) 0 dst
    (MemoryBlock.holds_nil dst) (by omega)
  rw [Nat.zero_mul] at loop
  rw [Nat.zero_add] at holds
  refine ⟨after, ?_, same.trans array, ?_⟩
  · rw [rsakeyMfg1, if_neg (by omega), Nat.add_sub_assoc (by decide), loop]
  · exact holds.load_take (by
      rw [mgf1Digests_length]
      omega)

/-! ## Masks on and off -/

omit sha1 in
theorem xorBytes_length (left right : Bytes) :
    (xorBytes left right).length = min left.length right.length := List.length_zipWith

omit sha1 in
theorem xorBytes_twice {bytes mask : Bytes} (long : bytes.length ≤ mask.length) :
    xorBytes (xorBytes bytes mask) mask = bytes := by
  induction bytes generalizing mask with
  | nil => rfl
  | cons c rest ih =>
      cases mask with
      | nil => simp at long
      | cons d mask =>
          have tail : xorBytes (xorBytes rest mask) mask = rest := ih (by simpa using long)
          simp only [xorBytes, List.zipWith_cons_cons] at tail ⊢
          rw [tail, UInt8.xor_assoc, UInt8.xor_self, UInt8.xor_zero]

omit sha1 in
theorem xorFrom_middle (back : Bytes) : ∀ (mask middle front : Bytes),
    mask.length = middle.length →
      xorFrom front.length mask (front ++ (middle ++ back)) =
        front ++ (xorBytes middle mask ++ back) := by
  intro mask
  induction mask with
  | nil =>
      intro middle front same
      obtain rfl : middle = [] := List.eq_nil_of_length_eq_zero same.symm
      rfl
  | cons d mask ih =>
      intro middle front same
      cases middle with
      | nil => simp at same
      | cons c middle =>
          have rest := ih middle (front ++ [c ^^^ d]) (by simpa using same)
          have here : (front ++ (c :: middle ++ back)).modify front.length (· ^^^ d) =
              front ++ [c ^^^ d] ++ (middle ++ back) := by
            rw [List.modify_eq_take_cons_drop (by simp)]
            simp
          rw [List.length_append, List.length_singleton] at rest
          rw [xorFrom, here, rest]
          simp [xorBytes]

theorem unmask_spec (buffers : Buffers) (seed seedlen : ℕ) {target : ℕ}
    {front middle back : Bytes} (array : buffers.maskbuf.capacity = 512)
    (short : middle.length ≤ 500) (split : buffers.buffer = front ++ (middle ++ back)) (place : target = front.length) :
    ∃ maskbuf, maskbuf.capacity = 512 ∧
      unmask sha1 buffers seed seedlen target middle.length =
        .ok (some ⟨front ++ (xorBytes middle
          (mgf1 sha1 (window buffers.buffer seed seedlen) middle.length) ++ back), maskbuf⟩) := by
  obtain ⟨maskbuf, made, capacity, loaded⟩ := rsakeyMfg1_spec sha1
    (window buffers.buffer seed seedlen) array short
  refine ⟨maskbuf, capacity, ?_⟩
  have count := mgf1_length sha1 (window buffers.buffer seed seedlen) middle.length
  have inside : ¬ buffers.buffer.length <
      target + (mgf1 sha1 (window buffers.buffer seed seedlen) middle.length).length := by
    rw [count, split, place, List.length_append, List.length_append]
    omega
  have mixed := xorFrom_middle back (mgf1 sha1 (window buffers.buffer seed seedlen) middle.length)
    middle front count
  rw [unmask, made]
  simp only [Int.toNat_natCast, loaded, if_neg (not_lt.mpr (Int.natCast_nonneg middle.length)),
    if_neg inside]
  rw [place, split] at *
  rw [mixed]

end

/-! ## The data -/

theorem firstData_zeros (keylen : ℕ) (rest : Bytes) : ∀ (zeros : ℕ) (front : Bytes) (rounds : ℕ),
    zeros < rounds → front.length + zeros < keylen →
      firstData (front ++ (List.replicate zeros 0 ++ 1 :: rest)) keylen rounds front.length =
        front.length + zeros + 1 := by
  intro zeros
  induction zeros with
  | zero =>
      intro front rounds enough inside
      obtain ⟨rounds, rfl⟩ := Nat.exists_eq_add_one.mpr enough
      rw [firstData, if_pos (by omega), if_neg (by simp [List.getD_eq_getElem?_getD])]
  | succ zeros ih =>
      intro front rounds enough inside
      obtain ⟨rounds, rfl⟩ := Nat.exists_eq_add_one.mpr (Nat.zero_lt_of_lt enough)
      have next := ih (front ++ [0]) rounds (by omega) (by simp; omega)
      rw [List.length_append, List.length_singleton, List.append_assoc] at next
      rw [firstData, if_pos (by omega),
        if_pos (by simp [List.getD_eq_getElem?_getD, List.replicate_succ]), List.replicate_succ]
      rw [show front.length + (zeros + 1) + 1 = front.length + 1 + zeros + 1 by omega]
      exact next

theorem copyData_spec {keylen : ℕ} (zeros : ℕ) (front message back dst : Bytes)
    (start : front.length = 41) (whole : keylen = 42 + zeros + message.length) :
    copyData keylen (front ++ (List.replicate zeros 0 ++ 1 :: (message ++ back))) dst dst.length =
      if message.length ≤ dst.length then
        .ok (message.length, some (message ++ dst.drop message.length))
      else .ok (-5, some dst) := by
  have found := firstData_zeros keylen (message ++ back) zeros front keylen (by omega) (by omega)
  rw [start] at found
  have outlen : (keylen : ℤ) - ((41 + zeros + 1 : ℕ) : ℤ) = message.length := by
    rw [whole]
    push_cast
    ring
  have data : window (front ++ (List.replicate zeros 0 ++ 1 :: (message ++ back)))
      (41 + zeros + 1) message.length = message := by
    have split : front ++ (List.replicate zeros 0 ++ 1 :: (message ++ back)) =
        (front ++ List.replicate zeros 0 ++ [1]) ++ (message ++ back) := by simp
    have place : (front ++ List.replicate zeros 0 ++ [1]).length = 41 + zeros + 1 := by
      simp only [List.length_append, List.length_replicate, List.length_singleton, start]
    rw [split, ← place, window_middle]
  rw [copyData]
  simp only [found, outlen, Int.toNat_natCast, data, Nat.cast_lt]
  by_cases room : message.length ≤ dst.length
  · rw [if_neg (by omega), if_neg (by omega), if_pos room, overwrite]
    simp
  · rw [if_pos (by omega), if_neg room]

/-! ## The encoded message -/

section

variable (sha1 : Sha1) (label : Bytes) {keylen : ℕ} {message seed : Bytes}

theorem oaepData_length (fits : message.length + 42 ≤ keylen) :
    (oaepData sha1 keylen label message).length = keylen - 21 := by
  simp only [oaepData, List.length_append, List.length_replicate, List.length_cons,
    List.Vector.toList_length]
  omega

theorem maskedData_length (fits : message.length + 42 ≤ keylen) :
    (xorBytes (oaepData sha1 keylen label message) (mgf1 sha1 seed (keylen - 21))).length =
      keylen - 21 := by
  rw [xorBytes_length, oaepData_length sha1 label fits, mgf1_length, Nat.min_self]

theorem oaepEncode_length (salt : seed.length = 20) (fits : message.length + 42 ≤ keylen) :
    (oaepEncode sha1 keylen label message seed).length = keylen := by
  simp only [oaepEncode, List.length_cons, List.length_append, maskedData_length sha1 label fits,
    xorBytes_length seed, salt, mgf1_length, Nat.min_self]
  omega

theorem oaepEncode_lt (salt : seed.length = 20) (fits : message.length + 42 ≤ keylen) :
    numberOf (oaepEncode sha1 keylen label message seed) < 256 ^ (keylen - 1) := by
  have count := oaepEncode_length sha1 label salt fits
  have bound := numberOf_lt (oaepEncode sha1 keylen label message seed).tail
  rw [List.length_tail, count] at bound
  rwa [show oaepEncode sha1 keylen label message seed =
    0 :: (oaepEncode sha1 keylen label message seed).tail from rfl, numberOf_cons,
    UInt8.toNat_zero, Nat.mul_zero, Nat.add_zero]

end

/-- The private operation brings the encoded message back, whatever zeros were dropped from the
ciphertext. -/
theorem decryptedBuffer_spec {key : RsaKey} {encrypt : ℕ → ℕ} (inverts : key.Inverts encrypt)
    {encoded input : Bytes} (count : encoded.length = key.keylen)
    (small : numberOf encoded < key.n.value) (bounded : key.n.value < 256 ^ key.keylen) {zeros : ℕ}
    (cipher : octets key.keylen (encrypt (numberOf encoded)) = List.replicate zeros 0 ++ input) :
    decryptedBuffer key input = encoded ++ List.replicate (512 - key.keylen) 0 := by
  have whole : zeros + input.length = key.keylen := by
    rw [← octets_length key.keylen (encrypt (numberOf encoded)), cipher, List.length_append,
      List.length_replicate]
  have array := key.keylen_le
  have read : window (overwrite (List.replicate 512 0) (key.keylen - input.length) input) 0
      key.keylen = List.replicate zeros 0 ++ input := by
    have place : key.keylen - input.length = zeros := by omega
    have front : (overwrite (List.replicate 512 0) zeros input).take (zeros + input.length) =
        (List.replicate 512 0).take zeros ++ input := take_overwrite input (by
      rw [List.length_replicate]
      omega)
    rw [whole, List.take_replicate, Nat.min_eq_left (by omega)] at front
    rw [window, List.drop_zero, place, front]
  obtain ⟨below, back⟩ := inverts (numberOf encoded) small
  have value : (biImport (List.replicate zeros 0 ++ input)).value = encrypt (numberOf encoded) := by
    rw [biImport_value, ← cipher, numberOf_octets (below.trans bounded)]
  have plain := back _ value
  have exported : biExport (key.modpow (biImport (List.replicate zeros 0 ++ input))) key.keylen =
      encoded := by
    rw [biExport_eq _ (by rw [plain]; exact small.trans bounded), plain, ← count, octets_numberOf]
  rw [decryptedBuffer]
  simp only [read, exported]
  rw [overwrite, List.take_zero, List.nil_append, Nat.zero_add, List.drop_replicate, count]

/-- Both masks come off again: the seed first, with the masked data as its mask's seed, and then
the data. -/
theorem unmask_encoded (sha1 : Sha1) (label : Bytes) {keylen : ℕ} {message seed : Bytes}
    (salt : seed.length = 20) (fits : message.length + 42 ≤ keylen) (short : keylen ≤ 512)
    (pad : Bytes) {maskbuf : MemoryBlock UInt8} (array : maskbuf.capacity = 512) :
    ∃ (first second : MemoryBlock UInt8) (buffer : Bytes),
      unmask sha1 ⟨oaepEncode sha1 keylen label message seed ++ pad, maskbuf⟩ (1 + 20)
          (keylen - 1 - 20) 1 20 = .ok (some ⟨buffer, first⟩) ∧
        unmask sha1 ⟨buffer, first⟩ 1 20 (1 + 20) (keylen - 1 - 20) =
          .ok (some ⟨0 :: (seed ++ (oaepData sha1 keylen label message ++ pad)), second⟩) := by
  set data := oaepData sha1 keylen label message with data_eq
  set masked := xorBytes data (mgf1 sha1 seed (keylen - 21)) with masked_eq
  have dataLength : data.length = keylen - 21 := oaepData_length sha1 label fits
  have maskedLength : masked.length = keylen - 1 - 20 := maskedData_length sha1 label fits
  set maskedSeed := xorBytes seed (mgf1 sha1 masked 20) with maskedSeed_eq
  have seedLength : maskedSeed.length = 20 := by
    rw [maskedSeed_eq, xorBytes_length, mgf1_length, salt, Nat.min_self]
  have layout : oaepEncode sha1 keylen label message seed ++ pad =
      [0] ++ (maskedSeed ++ (masked ++ pad)) := by
    simp [oaepEncode, ← data_eq, ← masked_eq, ← maskedSeed_eq]
  have firstSeed : window (oaepEncode sha1 keylen label message seed ++ pad) (1 + 20)
      (keylen - 1 - 20) = masked := by
    have place : ([0] ++ maskedSeed).length = 1 + 20 := by
      rw [List.length_append, seedLength, List.length_singleton]
    rw [layout, ← List.append_assoc, ← place, ← maskedLength, window_middle]
  obtain ⟨first, firstArray, unmasked⟩ := unmask_spec sha1
    ⟨oaepEncode sha1 keylen label message seed ++ pad, maskbuf⟩ (1 + 20) (keylen - 1 - 20)
    array (by omega) layout rfl
  rw [firstSeed, seedLength, maskedSeed_eq, xorBytes_twice (by rw [mgf1_length, salt])] at unmasked
  have secondSeed : window ([0] ++ (seed ++ (masked ++ pad))) 1 20 = seed := by
    rw [← salt]
    exact @window_middle _ [0] seed (masked ++ pad)
  have secondLayout : [0] ++ (seed ++ (masked ++ pad)) = ([0] ++ seed) ++ (masked ++ pad) := by
    rw [List.append_assoc]
  have secondPlace : 1 + 20 = ([0] ++ seed).length := by
    rw [List.length_append, salt, List.length_singleton]
  obtain ⟨second, -, revealed⟩ := unmask_spec sha1 ⟨[0] ++ (seed ++ (masked ++ pad)), first⟩ 1 20
    firstArray (by omega) secondLayout secondPlace
  rw [secondSeed, maskedLength, masked_eq, Nat.sub_sub,
    xorBytes_twice (by rw [mgf1_length, dataLength])] at revealed
  refine ⟨first, second, _, unmasked, ?_⟩
  rw [Nat.sub_sub]
  simpa using revealed

/-- A message that was encoded and encrypted for the key is decrypted if there is room for it;
else `dst` is left as it was. -/
theorem rsakeyDecrypt_oaep (sha1 : Sha1) {modulus : Bytes} {modpow : BigInt → BigInt} {key : RsaKey}
    (made : rsakeyInit modulus modpow = .ok (some key)) {encrypt : ℕ → ℕ}
    (inverts : key.Inverts encrypt) (label message : Bytes) {seed : Bytes}
    (salt : seed.length = 20) (fits : message.length + 42 ≤ key.keylen) (zeros : ℕ) {input : Bytes}
    (cipher : rsaesOaep sha1 key encrypt label message seed = List.replicate zeros 0 ++ input)
    {text : CString} (encoded : base64Encode (.ofDefault false false) input =
      (text.chars ++ [0], text.chars.length)) (dst : Bytes) :
    rsakeyDecrypt sha1 key (some dst) dst.length (some text) =
      if message.length ≤ dst.length then
        .ok (message.length, some (message ++ dst.drop message.length))
      else .ok (-5, some dst) := by
  obtain ⟨codec, least, bounded⟩ := rsakeyInit_spec made
  have chars : stripped (.ofDefault false false) text.chars =
      base64Chars (.ofDefault false false) input :=
    (List.append_cancel_right (Prod.mk.inj encoded).1).symm
  have decoded := @base64Decode_encoded (.ofDefault false false) rfl input text.chars chars
  have length := octets_length key.keylen
    (encrypt (numberOf (oaepEncode sha1 key.keylen label message seed)))
  rw [← rsaesOaep, cipher, List.length_append, List.length_replicate] at length
  have plain := decryptedBuffer_spec inverts (oaepEncode_length sha1 label salt fits)
    ((oaepEncode_lt sha1 label salt fits).trans_le least) bounded cipher
  obtain ⟨first, second, buffer, unmasked, revealed⟩ := unmask_encoded sha1 label salt fits
    key.keylen_le (List.replicate (512 - key.keylen) 0) (MemoryBlock.capacity_alloc 512)
  have copied := copyData_spec (key.keylen - message.length - 42)
    (0 :: (seed ++ (sha1 label).toList)) message (List.replicate (512 - key.keylen) 0) dst
    (by simp [salt]) (show key.keylen = _ by omega)
  have block : 0 :: (seed ++ (oaepData sha1 key.keylen label message ++
      List.replicate (512 - key.keylen) 0)) =
      0 :: (seed ++ (sha1 label).toList) ++ (List.replicate (key.keylen - message.length - 42) 0 ++
        1 :: (message ++ List.replicate (512 - key.keylen) 0)) := by
    simp [oaepData]
  have accepted : ¬ ((input.length : ℤ) < 0 ∨ (key.keylen : ℤ) < input.length) := by omega
  rw [rsakeyDecrypt]
  simp only [codec, decoded]
  rw [if_neg accepted, if_neg (by omega), plain, unmasked]
  simp only [revealed]
  rw [block, copied]

/-- A key with the exponents 1, whose operations change no number below the modulus. -/
def unitKey : RsaKey where
  keylen := 43
  n := biImport (1 :: List.replicate 42 0)
  modpow := id
  base64 := .ofDefault false false
  keylen_le := by decide

def lengthDigest : Sha1 := fun updates => List.Vector.replicate 20 (UInt8.ofNat updates.length)

theorem unitKey_decrypts : ∃ text : CString,
    rsakeyDecrypt lengthDigest unitKey (some [8, 9]) 2 (some text) = .ok (1, some [7, 9]) ∧
      rsakeyDecrypt lengthDigest unitKey (some []) 0 (some text) = .ok (-5, some []) := by
  have made : rsakeyInit (1 :: List.replicate 42 0) id = .ok (some unitKey) := rfl
  have inverts : unitKey.Inverts id := fun m below => ⟨below, fun x same => same⟩
  have salt : (List.replicate 20 5 : Bytes).length = 20 := List.length_replicate
  obtain ⟨input, cipher⟩ : ∃ input, rsaesOaep lengthDigest unitKey id [] [7] (List.replicate 20 5) =
      List.replicate 1 0 ++ input :=
    ⟨(rsaesOaep lengthDigest unitKey id [] [7] (List.replicate 20 5)).drop 1, by decide⟩
  refine ⟨⟨base64Chars (.ofDefault false false) input,
    @base64Chars_nulFree (.ofDefault false false) rfl input⟩, ?_, ?_⟩
  · exact rsakeyDecrypt_oaep lengthDigest made inverts [] [7] salt (by decide) 1 cipher rfl [8, 9]
  · exact rsakeyDecrypt_oaep lengthDigest made inverts [] [7] salt (by decide) 1 cipher rfl []

end AirCast.Crypt
