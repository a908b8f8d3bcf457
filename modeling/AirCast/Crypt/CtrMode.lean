import AirCast.Crypt.NewAes
import AirCast.Lib.PlaceValue
import AirCast.Lib.StreamCipher

/-! # Counter mode in new_aes.c

`CRYPTO_ctr128_encrypt` has a path for aligned buffers, which works on whole blocks, beside the plain
one.  Both add the same key stream, and go on with it in the next call. -/

set_option autoImplicit false

namespace AirCast.Crypt

open AirCast.StreamCipher

/-! ## The source -/

/-- `ivec`, `ecount_buf` and `*num`. -/
structure CtrState where
  ivec : Bytes
  ecountBuf : Bytes
  num : ℕ
  deriving DecidableEq

/-- The loop of `ctr128_inc` from the last byte on: the bytes and what is carried. -/
def ctrCarry : Bytes → Bytes × ℕ
  | [] => ([], 1)
  | b :: rest =>
      let behind := ctrCarry rest
      let c := behind.2 + b.toNat
      (UInt8.ofNat c :: behind.1, c / 256)

def ctr128Inc (counter : Bytes) : Bytes := (ctrCarry counter).1

section

variable (block : Bytes → Bytes)

def CtrState.refresh (st : CtrState) : CtrState :=
  { st with ecountBuf := block st.ivec, ivec := ctr128Inc st.ivec }

/-- The first loop, which uses up the block of the call before; what is left comes last. -/
def ctrHead : CtrState → Bytes → CtrState × Bytes × Bytes
  | st, [] => (st, [], [])
  | st, b :: rest =>
      if st.num = 0 then (st, [], b :: rest)
      else
        let others := ctrHead { st with num := (st.num + 1) % 16 } rest
        (others.1, (b ^^^ st.ecountBuf.getD st.num 0) :: others.2.1, others.2.2)

def ctrBlocks : ℕ → CtrState → Bytes → CtrState × Bytes × Bytes
  | 0, st, data => (st, [], data)
  | count + 1, st, data =>
      let st := { st.refresh block with num := 0 }
      let out := List.zipWith (· ^^^ ·) (data.take 16) st.ecountBuf
      let others := ctrBlocks count st (data.drop 16)
      (others.1, out ++ others.2.1, others.2.2)

def ctrTail (st : CtrState) (data : Bytes) : CtrState × Bytes :=
  if data = [] then (st, [])
  else
    let st := st.refresh block
    ({ st with num := st.num + data.length },
      List.zipWith (· ^^^ ·) data (st.ecountBuf.drop st.num))

def ctrPlain : CtrState → Bytes → CtrState × Bytes
  | st, [] => (st, [])
  | st, b :: rest =>
      let st := if st.num = 0 then st.refresh block else st
      let others := ctrPlain { st with num := (st.num + 1) % 16 } rest
      (others.1, (b ^^^ st.ecountBuf.getD st.num 0) :: others.2)

/-- `CRYPTO_ctr128_encrypt`; the plain path is taken where a buffer is not aligned. -/
def cryptoCtr128Encrypt (aligned : Bool) (st : CtrState) (data : Bytes) : CtrState × Bytes :=
  let (st, head, rest) := ctrHead st data
  if aligned then
    let (st, blocks, rest) := ctrBlocks block (rest.length / 16) st rest
    let (st, tail) := ctrTail block st rest
    (st, head ++ (blocks ++ tail))
  else
    let (st, out) := ctrPlain block st rest
    (st, head ++ out)

end

/-! ## How much is written -/

section

variable {block : Bytes → Bytes}

theorem ctrHead_length (data : Bytes) : ∀ st : CtrState,
    (ctrHead st data).2.1.length + (ctrHead st data).2.2.length = data.length ∧
      ((ctrHead st data).2.2 = [] ∨ (ctrHead st data).1.num = 0) := by
  induction data with
  | nil => intro st; exact ⟨rfl, .inl rfl⟩
  | cons b rest ih =>
      intro st
      rw [ctrHead]
      split
      · rename_i boundary
        exact ⟨by simp, .inr boundary⟩
      · obtain ⟨length, stop⟩ := ih { st with num := (st.num + 1) % 16 }
        refine ⟨?_, stop⟩
        simp only [List.length_cons, ← length]
        omega

theorem ctrPlain_length (data : Bytes) : ∀ st : CtrState,
    (ctrPlain block st data).2.length = data.length := by
  induction data with
  | nil => intro st; rfl
  | cons b rest ih =>
      intro st
      rw [ctrPlain]
      simp only [List.length_cons, ih]

theorem ctrBlocks_length (sized : ∀ input, (block input).length = 16) (count : ℕ) :
    ∀ (st : CtrState) (data : Bytes), 16 * count ≤ data.length →
      (ctrBlocks block count st data).2.1.length = 16 * count ∧
        (ctrBlocks block count st data).2.2 = data.drop (16 * count) ∧
          (st.num = 0 → (ctrBlocks block count st data).1.num = 0) := by
  induction count with
  | zero => intro st data _; exact ⟨rfl, rfl, id⟩
  | succ count ih =>
      intro st data enough
      have others := ih { st.refresh block with num := 0 } (data.drop 16)
        (by rw [List.length_drop]; omega)
      rw [ctrBlocks]
      dsimp only at others ⊢
      obtain ⟨length, rest, boundary⟩ := others
      refine ⟨?_, ?_, fun _ => boundary rfl⟩
      · rw [List.length_append, length, List.length_zipWith, CtrState.refresh, sized,
          List.length_take]
        omega
      · rw [rest, List.drop_drop]
        congr 1
        omega

theorem ctrTail_length (sized : ∀ input, (block input).length = 16) {st : CtrState} {data : Bytes}
    (short : data.length < 16) (boundary : data = [] ∨ st.num = 0) :
    (ctrTail block st data).2.length = data.length := by
  rw [ctrTail]
  split
  · rename_i empty
    rw [empty]
  · rename_i some_
    simp only [CtrState.refresh, List.length_zipWith, List.length_drop, sized,
      boundary.resolve_left some_]
    omega

theorem cryptoCtr128Encrypt_length (sized : ∀ input, (block input).length = 16) (aligned : Bool)
    (st : CtrState) (data : Bytes) :
    (cryptoCtr128Encrypt block aligned st data).2.length = data.length := by
  obtain ⟨all, stop⟩ := ctrHead_length data st
  rw [cryptoCtr128Encrypt]
  generalize ctrHead st data = headed at all stop
  obtain ⟨st', head, left⟩ := headed
  dsimp only at all stop ⊢
  cases aligned with
  | false =>
      rw [if_neg (by decide)]
      simp only [List.length_append, ctrPlain_length, all]
  | true =>
      obtain ⟨blocks, rest, boundary⟩ :=
        ctrBlocks_length sized (left.length / 16) st' left (by omega)
      rw [if_pos rfl]
      generalize ctrBlocks block (left.length / 16) st' left = out at blocks rest boundary
      obtain ⟨st'', middle, behind⟩ := out
      dsimp only at blocks rest boundary ⊢
      have length : behind.length = left.length - 16 * (left.length / 16) := by
        rw [rest, List.length_drop]
      have front : behind = [] ∨ st''.num = 0 := by
        rcases stop with rfl | front
        · exact .inl rest
        · exact .inr (boundary front)
      have tail := ctrTail_length sized (show behind.length < 16 by omega) front
      simp only [List.length_append, tail, blocks, length]
      omega

end

def newAesCtr128Encrypt (key : AesKey) (aligned : Bool) (st : CtrState) (data : Bytes) :
    CtrState × Bytes :=
  cryptoCtr128Encrypt (newAesEncrypt key) aligned st data

/-! ## The key stream -/

theorem numberOf_ctrCarry (counter : Bytes) :
    (ctrCarry counter).1.length = counter.length ∧
      numberOf (ctrCarry counter).1 + 256 ^ counter.length * (ctrCarry counter).2 =
        numberOf counter + 1 := by
  induction counter with
  | nil => exact ⟨rfl, rfl⟩
  | cons b rest ih =>
      obtain ⟨length, value⟩ := ih
      rw [ctrCarry]
      dsimp only
      rw [List.length_cons, List.length_cons, length]
      refine ⟨rfl, ?_⟩
      rw [numberOf_cons, numberOf_cons, length, UInt8.toNat_ofNat', show 2 ^ 8 = 256 from rfl,
        pow_succ 256 rest.length, Nat.mul_assoc, Nat.add_assoc, ← Nat.mul_add, Nat.mod_add_div,
        Nat.mul_add, ← Nat.add_assoc, value]
      omega

def counterBlock (n : ℕ) : Bytes := octets 16 (n % 256 ^ 16)

theorem ctr128Inc_counterBlock (n : ℕ) : ctr128Inc (counterBlock n) = counterBlock (n + 1) := by
  have all : 0 < 256 ^ 16 := by positivity
  obtain ⟨length, value⟩ := numberOf_ctrCarry (counterBlock n)
  have count : (counterBlock n).length = 16 := octets_length _ _
  have below := numberOf_lt (ctr128Inc (counterBlock n))
  have number : numberOf (counterBlock n) = n % 256 ^ 16 := numberOf_octets (Nat.mod_lt _ all)
  have next : numberOf (counterBlock (n + 1)) = (n + 1) % 256 ^ 16 :=
    numberOf_octets (Nat.mod_lt _ all)
  rw [ctr128Inc, length, count] at below
  rw [count, number] at value
  refine eq_of_numberOf_eq (length.trans (count.trans (octets_length _ _).symm)) ?_
  rw [next, ← Nat.mod_add_mod, ← value, Nat.add_mul_mod_self_left, Nat.mod_eq_of_lt below]
  rfl

def keyByte (block : Bytes → Bytes) (ivec : Bytes) (place : ℕ) : UInt8 :=
  (block (counterBlock (numberOf ivec + place / 16))).getD (place % 16) 0

/-- The state in front of a byte of the stream. -/
structure AtPlace (block : Bytes → Bytes) (ivec : Bytes) (place : ℕ) (st : CtrState) : Prop where
  num : st.num = place % 16
  counter : st.ivec = counterBlock (numberOf ivec + (place + 15) / 16)
  current : place % 16 ≠ 0 → st.ecountBuf = block (counterBlock (numberOf ivec + place / 16))

section

variable {block : Bytes → Bytes} {ivec : Bytes} {place : ℕ} {st : CtrState}

theorem AtPlace.byte (here : AtPlace block ivec place st) (inside : place % 16 ≠ 0) :
    st.ecountBuf.getD st.num 0 = keyByte block ivec place := by
  rw [here.num, here.current inside, keyByte]

theorem AtPlace.refresh (here : AtPlace block ivec place st) (front : place % 16 = 0) :
    (st.refresh block).ecountBuf = block (counterBlock (numberOf ivec + place / 16)) ∧
      (st.refresh block).ivec = counterBlock (numberOf ivec + place / 16 + 1) ∧
        (st.refresh block).num = 0 := by
  have counter : st.ivec = counterBlock (numberOf ivec + place / 16) := by
    rw [here.counter, show (place + 15) / 16 = place / 16 by omega]
  refine ⟨by rw [CtrState.refresh, counter], ?_, here.num.trans front⟩
  rw [CtrState.refresh, counter, ctr128Inc_counterBlock]

theorem AtPlace.next (here : AtPlace block ivec place st) (inside : place % 16 ≠ 0) :
    AtPlace block ivec (place + 1) { st with num := (st.num + 1) % 16 } := by
  refine ⟨?_, ?_, fun more => ?_⟩
  · dsimp only
    rw [here.num]
    omega
  · rw [here.counter]
    congr 2
    omega
  · rw [here.current inside]
    congr 3
    omega

theorem AtPlace.first (here : AtPlace block ivec place st) (front : place % 16 = 0) :
    (st.refresh block).ecountBuf.getD (st.refresh block).num 0 = keyByte block ivec place ∧
      AtPlace block ivec (place + 1)
        { st.refresh block with num := ((st.refresh block).num + 1) % 16 } := by
  obtain ⟨current, counter, num⟩ := here.refresh front
  refine ⟨by rw [current, num, keyByte, front], ?_, ?_, fun _ => ?_⟩
  · dsimp only
    rw [num]
    omega
  · rw [counter]
    congr 1
    omega
  · rw [current]
    congr 3
    omega

theorem ctrPlain_stream (data : Bytes) : ∀ (place : ℕ) (st : CtrState),
    AtPlace block ivec place st →
      AtPlace block ivec (place + data.length) (ctrPlain block st data).1 ∧
        (ctrPlain block st data).2 = xorStream (keyByte block ivec) place data := by
  induction data with
  | nil => intro place st here; exact ⟨here, rfl⟩
  | cons b rest ih =>
      intro place st here
      rw [ctrPlain, List.length_cons, ← Nat.add_assoc, Nat.add_right_comm place, xorStream]
      by_cases front : place % 16 = 0
      · obtain ⟨byte, next⟩ := here.first front
        obtain ⟨final, others⟩ := ih (place + 1) _ next
        rw [if_pos (here.num.trans front)]
        dsimp only
        rw [byte, others]
        exact ⟨final, rfl⟩
      · obtain ⟨final, others⟩ := ih (place + 1) _ (here.next front)
        rw [if_neg (by rw [here.num]; exact front)]
        dsimp only
        rw [here.byte front, others]
        exact ⟨final, rfl⟩

theorem ctrHead_stream (data : Bytes) : ∀ (place : ℕ) (st : CtrState),
    AtPlace block ivec place st →
      ∃ front rest, data = front ++ rest ∧
        (ctrHead st data).2 = (xorStream (keyByte block ivec) place front, rest) ∧
          AtPlace block ivec (place + front.length) (ctrHead st data).1 ∧
            (rest = [] ∨ (place + front.length) % 16 = 0) := by
  induction data with
  | nil => intro place st here; exact ⟨[], [], rfl, rfl, here, .inl rfl⟩
  | cons b rest ih =>
      intro place st here
      by_cases front : place % 16 = 0
      · rw [ctrHead, if_pos (here.num.trans front)]
        exact ⟨[], b :: rest, rfl, rfl, here, .inr front⟩
      · obtain ⟨used, left, rfl, written, next, stop⟩ := ih (place + 1) _ (here.next front)
        rw [ctrHead, if_neg (by rw [here.num]; exact front)]
        refine ⟨b :: used, left, rfl, ?_, ?_, ?_⟩
        · dsimp only
          rw [written, here.byte front, xorStream]
        · rw [List.length_cons, ← Nat.add_assoc, Nat.add_right_comm place]
          exact next
        · rw [List.length_cons, ← Nat.add_assoc, Nat.add_right_comm place]
          exact stop

theorem blockStream (sized : ∀ input, (block input).length = 16) (front : place % 16 = 0)
    {data : Bytes} (fits : data.length ≤ 16) :
    List.zipWith (· ^^^ ·) data (block (counterBlock (numberOf ivec + place / 16))) =
      xorStream (keyByte block ivec) place data := by
  refine zipWith_xor data _ place (by rw [sized]; exact fits) fun i inside => ?_
  rw [keyByte, show (place + i) / 16 = place / 16 by omega, show (place + i) % 16 = i by omega]

theorem ctrBlocks_stream (sized : ∀ input, (block input).length = 16) (count : ℕ) :
    ∀ (place : ℕ) (st : CtrState) (data : Bytes), AtPlace block ivec place st →
      (0 < count → place % 16 = 0) → 16 * count ≤ data.length →
        (ctrBlocks block count st data).2 =
            (xorStream (keyByte block ivec) place (data.take (16 * count)),
              data.drop (16 * count)) ∧
          AtPlace block ivec (place + 16 * count) (ctrBlocks block count st data).1 := by
  induction count with
  | zero => intro place st data here _ _; exact ⟨rfl, here⟩
  | succ count ih =>
      intro place st data here front enough
      have boundary := front (Nat.succ_pos _)
      obtain ⟨current, counter, -⟩ := here.refresh boundary
      have next : AtPlace block ivec (place + 16) { st.refresh block with num := 0 } := by
        refine ⟨?_, ?_, fun inside => absurd inside (by omega)⟩
        · dsimp only
          omega
        · dsimp only
          rw [counter]
          congr 1
          omega
      obtain ⟨others, final⟩ := ih (place + 16) _ (data.drop 16) next (fun _ => by omega)
        (by rw [List.length_drop]; omega)
      have first : (data.take 16).length = 16 := by
        rw [List.length_take]
        omega
      refine ⟨?_, ?_⟩
      · rw [ctrBlocks]
        dsimp only
        rw [others, current, blockStream sized boundary first.le,
          show 16 * (count + 1) = 16 + 16 * count by omega, List.take_add, xorStream_append, first,
          List.drop_drop]
      · rw [show place + 16 * (count + 1) = place + 16 + 16 * count by omega]
        exact final

theorem ctrTail_stream (sized : ∀ input, (block input).length = 16)
    (here : AtPlace block ivec place st) {data : Bytes} (short : data.length < 16)
    (front : data = [] ∨ place % 16 = 0) :
    (ctrTail block st data).2 = xorStream (keyByte block ivec) place data ∧
      AtPlace block ivec (place + data.length) (ctrTail block st data).1 := by
  rcases front with rfl | boundary
  · exact ⟨rfl, here⟩
  · by_cases none_ : data = []
    · rw [none_]
      exact ⟨rfl, here⟩
    · obtain ⟨current, counter, num⟩ := here.refresh boundary
      have some_ : 0 < data.length := List.length_pos_of_ne_nil none_
      rw [ctrTail, if_neg none_]
      dsimp only
      rw [num, List.drop_zero, current, blockStream sized boundary short.le, Nat.zero_add]
      refine ⟨rfl, ?_, ?_, fun _ => ?_⟩
      · dsimp only
        omega
      · dsimp only
        rw [counter]
        congr 1
        omega
      · dsimp only
        congr 3
        omega

/-- Both paths of `CRYPTO_ctr128_encrypt` add the key stream and move on by what they were given. -/
theorem cryptoCtr128Encrypt_stream (sized : ∀ input, (block input).length = 16) (aligned : Bool)
    (here : AtPlace block ivec place st) (data : Bytes) :
    AtPlace block ivec (place + data.length) (cryptoCtr128Encrypt block aligned st data).1 ∧
      (cryptoCtr128Encrypt block aligned st data).2 =
        xorStream (keyByte block ivec) place data := by
  obtain ⟨front, rest, rfl, head, after, stop⟩ := ctrHead_stream data place st here
  rw [cryptoCtr128Encrypt, List.length_append, ← Nat.add_assoc, xorStream_append]
  generalize ctrHead st (front ++ rest) = headed at head after
  obtain ⟨st', written, left⟩ := headed
  obtain ⟨rfl, rfl⟩ := Prod.mk.inj head
  dsimp only at after ⊢
  cases aligned with
  | false =>
      obtain ⟨final, others⟩ := ctrPlain_stream left _ _ after
      rw [if_neg (by decide)]
      dsimp only
      rw [others]
      exact ⟨final, rfl⟩
  | true =>
      obtain ⟨blocks, between⟩ := ctrBlocks_stream sized (left.length / 16) _ _ left after
        (fun some_ => stop.resolve_left (by rintro rfl; exact absurd some_ (lt_irrefl 0)))
        (by omega)
      have short : (left.drop (16 * (left.length / 16))).length < 16 := by
        rw [List.length_drop]
        omega
      obtain ⟨tail, final⟩ := ctrTail_stream sized between short (by
        rcases stop with rfl | boundary
        · exact .inl rfl
        · exact .inr (by omega))
      rw [if_pos rfl]
      generalize ctrBlocks block (left.length / 16) st' left = out at blocks between tail final
      obtain ⟨st'', middle, behind⟩ := out
      obtain ⟨rfl, rfl⟩ := Prod.mk.inj blocks
      dsimp only at tail final ⊢
      have counted : (left.take (16 * (left.length / 16))).length = 16 * (left.length / 16) := by
        rw [List.length_take]
        omega
      have whole := xorStream_append (keyByte block ivec) (left.take (16 * (left.length / 16)))
        (left.drop (16 * (left.length / 16))) (place + front.length)
      rw [List.take_append_drop, counted] at whole
      rw [tail, whole]
      refine ⟨?_, rfl⟩
      rw [List.length_drop] at final
      convert final using 1
      omega

theorem atPlace_start (sixteen : ivec.length = 16) (ecountBuf : Bytes) :
    AtPlace block ivec 0 ⟨ivec, ecountBuf, 0⟩ := by
  refine ⟨rfl, ?_, fun inside => absurd rfl inside⟩
  have same := octets_numberOf ivec
  have below := numberOf_lt ivec
  rw [sixteen] at same below
  rw [counterBlock, Nat.add_zero, Nat.mod_eq_of_lt below, same]

end

theorem newAesEncrypt_length (key : AesKey) (input : Bytes) :
    (newAesEncrypt key input).length = 16 := by
  rw [newAesEncrypt]
  exact storeBlock_length _

theorem newAesCtr128Encrypt_stream {key : AesKey} {ivec : Bytes} {place : ℕ} {st : CtrState}
    (aligned : Bool) (here : AtPlace (newAesEncrypt key) ivec place st) (data : Bytes) :
    AtPlace (newAesEncrypt key) ivec (place + data.length)
        (newAesCtr128Encrypt key aligned st data).1 ∧
      (newAesCtr128Encrypt key aligned st data).2 =
        xorStream (keyByte (newAesEncrypt key) ivec) place data :=
  cryptoCtr128Encrypt_stream (newAesEncrypt_length key) aligned here data

/-- What one side encrypts in some calls the other decrypts in others: the stream may be cut in
different places, and the buffers be aligned or not. -/
theorem newAesCtr128Encrypt_calls (key : AesKey) {ivec : Bytes} (sixteen : ivec.length = 16)
    (ecountBuf ecountBuf' : Bytes) (sent received : List (Bool × Bytes))
    (arrives : (received.map Prod.snd).flatten =
      (runCalls (newAesCtr128Encrypt key) ⟨ivec, ecountBuf, 0⟩ sent).2.flatten) :
    (runCalls (newAesCtr128Encrypt key) ⟨ivec, ecountBuf', 0⟩ received).2.flatten =
      (sent.map Prod.snd).flatten := by
  have moves : ∀ (aligned : Bool) (st : CtrState) (place : ℕ) (data : Bytes),
      AtPlace (newAesEncrypt key) ivec place st → _ :=
    fun aligned st place data here => newAesCtr128Encrypt_stream aligned here data
  obtain ⟨-, written⟩ := runCalls_stream moves sent _ 0 (atPlace_start sixteen ecountBuf)
  obtain ⟨-, read⟩ := runCalls_stream moves received _ 0 (atPlace_start sixteen ecountBuf')
  rw [read, arrives, written, xorStream_twice]

/-- The key `00..00`, a counter about to carry over all its bytes, and pieces cut differently. -/
theorem newAesCtr128Encrypt_twoPieces :
    let key := (aesSetEncryptKey (List.replicate 16 0) 128 ⟨Vector.replicate 60 0, 0⟩).2
    let sent := (runCalls (newAesCtr128Encrypt key) ⟨List.replicate 16 255, [], 0⟩
      [(false, List.replicate 7 1), (true, List.replicate 30 2)]).2.flatten
    (runCalls (newAesCtr128Encrypt key) ⟨List.replicate 16 255, [], 0⟩
        [(true, sent.take 20), (false, sent.drop 20)]).2.flatten =
      List.replicate 7 1 ++ (List.replicate 30 2 ++ []) :=
  newAesCtr128Encrypt_calls _ (by decide) [] [] [(false, List.replicate 7 1),
    (true, List.replicate 30 2)] [(true, List.take 20 _), (false, List.drop 20 _)]
    (by simp only [List.map_cons, List.map_nil, List.flatten_cons, List.flatten_nil,
      List.append_nil, List.take_append_drop])

end AirCast.Crypt
