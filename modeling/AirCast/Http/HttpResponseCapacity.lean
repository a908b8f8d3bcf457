import AirCast.Http.HttpResponse

/-! # When a reply fits its buffer

`data_size` keeps its first value, so each call sizes the buffer for the piece
it adds and forgets what the buffer holds.  A whole reply is written inside the
buffer, and read back in order, exactly when every piece finds room behind the
bytes before it in the size chosen for that piece alone (`FitsAll`). -/

set_option autoImplicit false

namespace AirCast.Http

/-- One reply: the arguments of init, of every added header, and of finish. -/
structure Reply where
  protocol : CString
  code : ℤ
  message : CString
  headers : List (CString × CString)
  body : Bytes

def addHeaders (response : HttpResponse) : List (CString × CString) → Except Fault HttpResponse
  | [] => .ok response
  | (name, value) :: rest => do
      let response ← httpResponseAddHeader response name value
      addHeaders response rest

def buildReply (reply : Reply) : Except Fault HttpResponse := do
  let response ← httpResponseInit reply.protocol reply.code reply.message
  let response ← addHeaders response reply.headers
  httpResponseFinish response reply.body

/-! ## The pieces of a reply -/

def initPieces (protocol : CString) (code : ℤ) (message : CString) : List Bytes :=
  [protocol.chars, bytesOf " ", (decimal code.toNat).chars, bytesOf " ", message.chars,
    bytesOf "\r\n"]

def headerPieces (header : CString × CString) : List Bytes :=
  [header.1.chars, bytesOf ": ", header.2.chars, bytesOf "\r\n"]

def finishPieces (body : Bytes) : List Bytes :=
  if body = [] then [bytesOf "\r\n"]
  else
    [bytesOf "Content-Length", bytesOf ": ", (decimal body.length).chars, bytesOf "\r\n\r\n", body]

def Reply.pieces (reply : Reply) : List Bytes :=
  initPieces reply.protocol reply.code reply.message ++
    reply.headers.flatMap headerPieces ++ finishPieces reply.body

/-- Every copy stays inside the buffer, and the reader gets all pieces in order. -/
def Delivers (reply : Reply) : Prop :=
  ∃ response, buildReply reply = .ok response ∧
    httpResponseGetData response = .ok reply.pieces.flatten

/-- A piece of `piece` bytes has room behind `before` bytes in every size of the
doubling sequence that exceeds it by 1024. -/
structure Fits (before piece : ℕ) : Prop where
  nonempty : 0 < piece
  bounded : piece + 1024 ≤ 2 ^ 30
  room : ∀ k, piece + 1024 ≤ 1024 * 2 ^ k → before + piece ≤ 1024 * 2 ^ k

def FitsAll : ℕ → List Bytes → Prop
  | _, [] => True
  | before, piece :: rest => Fits before piece.length ∧ FitsAll (before + piece.length) rest

/-! ## Doubling -/

/-- The least size of the sequence that covers `needed`. -/
structure LeastCover (needed : ℤ) (k : ℕ) : Prop where
  covers : needed ≤ 1024 * 2 ^ k
  least : ∀ i < k, 1024 * 2 ^ i < needed

theorem pow_le_twenty {j : ℕ} (small : (1024 : ℤ) * 2 ^ j < 2 ^ 31) : j ≤ 20 := by
  by_contra large
  have grows : (2 : ℤ) ^ 21 ≤ 2 ^ j := pow_le_pow_right₀ (by norm_num) (by omega)
  omega

theorem pow_bound {j : ℕ} (small : j ≤ 20) : (1024 : ℤ) * 2 ^ j ≤ 2 ^ 30 := by
  have grows : (2 : ℤ) ^ j ≤ 2 ^ 20 := pow_le_pow_right₀ (by norm_num) small
  omega

theorem doubleSize_covers (needed : ℤ) (bound : needed ≤ 2 ^ 30) :
    ∀ fuel j, 21 ≤ j + fuel → (∀ i < j, 1024 * 2 ^ i < needed) →
      ∃ k, doubleSize needed (1024 * 2 ^ j) fuel = .ok (1024 * 2 ^ k) ∧ LeastCover needed k := by
  intro fuel
  induction fuel with
  | zero =>
      intro j enough below
      have := below 20 (by omega)
      omega
  | succ fuel ih =>
      intro j enough below
      simp only [doubleSize]
      by_cases short : 1024 * 2 ^ j < needed
      · have small : j + 1 ≤ 20 := by
          by_contra large
          have grows : (2 : ℤ) ^ 20 ≤ 2 ^ j := pow_le_pow_right₀ (by norm_num) (by omega)
          omega
        have fits : ¬ intMax < 1024 * 2 ^ j * 2 := by
          have := pow_bound small
          rw [pow_succ] at this
          unfold intMax
          omega
        rw [if_pos short, if_neg fits, mul_assoc, ← pow_succ]
        refine ih (j + 1) (by omega) fun i less => ?_
        rcases Nat.lt_succ_iff_lt_or_eq.mp less with less | rfl
        · exact below i less
        · exact short
      · rw [if_neg short]
        exact ⟨j, rfl, not_lt.mp short, below⟩

theorem doubleSize_overflows (needed : ℤ) (large : 2 ^ 30 < needed) :
    ∀ fuel j, j ≤ 20 → doubleSize needed (1024 * 2 ^ j) fuel = .error .signedOverflow := by
  intro fuel
  induction fuel with
  | zero => intro j _; rfl
  | succ fuel ih =>
      intro j small
      have short : 1024 * 2 ^ j < needed := lt_of_le_of_lt (pow_bound small) large
      simp only [doubleSize]
      rw [if_pos short, mul_assoc, ← pow_succ]
      split
      · rfl
      · rename_i inside
        refine ih (j + 1) (pow_le_twenty ?_)
        unfold intMax at inside
        omega

theorem doubleSize_first (needed : ℤ) (bound : needed ≤ 2 ^ 30) :
    ∃ k, doubleSize needed 1024 32 = .ok (1024 * 2 ^ k) ∧ LeastCover needed k := by
  have first := doubleSize_covers needed bound 32 0 (by omega) (by omega)
  simpa using first

theorem doubleSize_first_overflows (needed : ℤ) (large : 2 ^ 30 < needed) :
    doubleSize needed 1024 32 = .error .signedOverflow := by
  have first := doubleSize_overflows needed large 32 0 (by omega)
  simpa using first

/-! ## One call -/

/-- The response holds exactly these bytes. -/
structure Represents (response : HttpResponse) (bytes : Bytes) : Prop where
  size : response.dataSize = 1024
  length : response.dataLength = bytes.length
  holds : response.data.Holds bytes

theorem leastCover_positive {n k : ℕ} (cover : LeastCover (1024 + (n : ℤ)) k) (nonempty : 0 < n) :
    (1024 : ℤ) * 2 ^ k ≠ 1024 := by
  intro same
  have := cover.covers
  omega

theorem addData_eq {response : HttpResponse} {bytes data : Bytes}
    (represents : Represents response bytes) (nonempty : 0 < data.length)
    (bounded : data.length + 1024 ≤ 2 ^ 30) :
    ∃ k, LeastCover (1024 + (data.length : ℤ)) k ∧
      httpResponseAddData response data data.length =
        match (response.data.resize (1024 * 2 ^ k)).store bytes.length data with
        | none => .error .outOfBounds
        | some block =>
            .ok { response with data := block, dataLength := response.dataLength + data.length } := by
  obtain ⟨k, doubled, cover⟩ := doubleSize_first (1024 + data.length) (by omega)
  refine ⟨k, cover, ?_⟩
  have positive : ¬ (data.length : ℤ) ≤ 0 := by omega
  have inside : ¬ intMax < 1024 + (data.length : ℤ) := by
    unfold intMax
    omega
  have grown := leastCover_positive cover nonempty
  have cast : ((1024 : ℤ) * 2 ^ k).toNat = 1024 * 2 ^ k := by
    rw [show (1024 : ℤ) * 2 ^ k = ((1024 * 2 ^ k : ℕ) : ℤ) by push_cast; rfl, Int.toNat_natCast]
  cases stored : (response.data.resize (1024 * 2 ^ k)).store bytes.length data <;>
    simp only [httpResponseAddData, represents.size, if_neg positive, if_neg inside, doubled,
      if_neg grown, cast, represents.length, Int.toNat_natCast, List.take_length, stored]

theorem addData_fits {response : HttpResponse} {bytes data : Bytes}
    (represents : Represents response bytes) (fits : Fits bytes.length data.length) :
    ∃ after, httpResponseAddData response data data.length = .ok after ∧
      Represents after (bytes ++ data) := by
  obtain ⟨k, cover, call⟩ := addData_eq represents fits.nonempty fits.bounded
  have room : bytes.length + data.length ≤ 1024 * 2 ^ k := by
    refine fits.room k ?_
    have := cover.covers
    exact_mod_cast (by push_cast; linarith : ((data.length + 1024 : ℕ) : ℤ) ≤ ((1024 * 2 ^ k : ℕ) : ℤ))
  obtain ⟨block, stored, holds⟩ :=
    (represents.holds.resize (n := 1024 * 2 ^ k) (by omega)).store data (by simpa using room)
  rw [call, stored]
  refine ⟨_, rfl, represents.size, ?_, holds⟩
  simp only [represents.length, List.length_append]
  push_cast
  rfl

theorem addData_unfit {response : HttpResponse} {bytes data : Bytes}
    (represents : Represents response bytes) (unfit : ¬ Fits bytes.length data.length) :
    ∃ fault, httpResponseAddData response data data.length = .error fault := by
  by_cases nonempty : 0 < data.length
  · by_cases bounded : data.length + 1024 ≤ 2 ^ 30
    · obtain ⟨k, cover, call⟩ := addData_eq represents nonempty bounded
      have overrun : (response.data.resize (1024 * 2 ^ k)).capacity <
          bytes.length + data.length := by
        by_contra room
        refine unfit ⟨nonempty, bounded, fun i covers => ?_⟩
        have least : k ≤ i := by
          by_contra less
          have := cover.least i (by omega)
          have : (1024 * 2 ^ i : ℕ) < data.length + 1024 := by
            exact_mod_cast (by push_cast; linarith :
              ((1024 * 2 ^ i : ℕ) : ℤ) < ((data.length + 1024 : ℕ) : ℤ))
          omega
        have grows : 2 ^ k ≤ 2 ^ i := Nat.pow_le_pow_right (by norm_num) least
        rw [MemoryBlock.capacity_resize] at room
        omega
      rw [call, MemoryBlock.store_eq_none overrun]
      exact ⟨_, rfl⟩
    · refine ⟨.signedOverflow, ?_⟩
      have positive : ¬ (data.length : ℤ) ≤ 0 := by omega
      have doubled := doubleSize_first_overflows (1024 + data.length) (by omega)
      simp only [httpResponseAddData, represents.size, if_neg positive, doubled]
      split <;> rfl
  · refine ⟨.assertion, ?_⟩
    have empty : (data.length : ℤ) ≤ 0 := by omega
    simp only [httpResponseAddData, if_pos empty]

/-! ## A sequence of calls -/

def addAll (response : HttpResponse) : List Bytes → Except Fault HttpResponse
  | [] => .ok response
  | piece :: rest => do
      let response ← httpResponseAddData response piece (toInt piece.length)
      addAll response rest

theorem addAll_append (first second : List Bytes) :
    ∀ response, addAll response (first ++ second) =
      (addAll response first >>= fun response => addAll response second) := by
  induction first with
  | nil => intro response; rfl
  | cons piece rest ih =>
      intro response
      simp only [List.cons_append, addAll, bind_assoc, ih]

theorem fitsAll_append (first second : List Bytes) :
    ∀ before, FitsAll before (first ++ second) ↔
      FitsAll before first ∧ FitsAll (before + first.flatten.length) second := by
  induction first with
  | nil => intro before; simp [FitsAll]
  | cons piece rest ih =>
      intro before
      simp only [List.cons_append, FitsAll, ih, List.flatten_cons, List.length_append, and_assoc,
        Nat.add_assoc]

theorem toInt_length {data : Bytes} (short : data.length < 2 ^ 31) :
    toInt data.length = data.length := by
  unfold toInt
  apply Int.bmod_eq_of_le_mul_two <;> norm_num <;> omega

theorem addAll_fits :
    ∀ (pieces : List Bytes) (response : HttpResponse) (bytes : Bytes),
      Represents response bytes → FitsAll bytes.length pieces →
        ∃ after, addAll response pieces = .ok after ∧
          Represents after (bytes ++ pieces.flatten) := by
  intro pieces
  induction pieces with
  | nil =>
      intro response bytes represents _
      exact ⟨response, rfl, by simpa using represents⟩
  | cons piece rest ih =>
      intro response bytes represents fits
      obtain ⟨fit, restFits⟩ := fits
      have short : piece.length < 2 ^ 31 := by
        have := fit.bounded
        omega
      obtain ⟨next, added, grown⟩ := addData_fits represents fit
      obtain ⟨after, finished, final⟩ := ih next (bytes ++ piece) grown (by simpa using restFits)
      refine ⟨after, ?_, by simpa using final⟩
      simp only [addAll, toInt_length short, added]
      exact finished

theorem addAll_unfit :
    ∀ (pieces : List Bytes) (response : HttpResponse) (bytes : Bytes),
      Represents response bytes → (∀ piece ∈ pieces, piece.length < 2 ^ 31) →
        ¬ FitsAll bytes.length pieces → ∃ fault, addAll response pieces = .error fault := by
  intro pieces
  induction pieces with
  | nil => intro response bytes _ _ unfit; exact absurd trivial unfit
  | cons piece rest ih =>
      intro response bytes represents short unfit
      have exactLength := toInt_length (short piece List.mem_cons_self)
      by_cases fit : Fits bytes.length piece.length
      · obtain ⟨next, added, grown⟩ := addData_fits represents fit
        obtain ⟨fault, failed⟩ := ih next (bytes ++ piece) grown
          (fun p member => short p (List.mem_cons_of_mem _ member))
          (fun restFits => unfit ⟨fit, by simpa using restFits⟩)
        refine ⟨fault, ?_⟩
        simp only [addAll, exactLength, added]
        exact failed
      · obtain ⟨fault, failed⟩ := addData_unfit represents fit
        refine ⟨fault, ?_⟩
        simp only [addAll, exactLength, failed]
        rfl

/-! ## The buffer never grows past 2 ^ 30 -/

theorem doubleSize_bounded {needed size : ℤ}
    (doubled : doubleSize needed 1024 32 = .ok size) : needed ≤ size ∧ size ≤ 2 ^ 30 := by
  by_cases bound : needed ≤ 2 ^ 30
  · obtain ⟨k, covered, cover⟩ := doubleSize_first needed bound
    rw [doubled] at covered
    cases covered
    refine ⟨cover.covers, pow_bound ?_⟩
    by_contra large
    have := cover.least 20 (by omega)
    omega
  · rw [doubleSize_first_overflows needed (by omega)] at doubled
    simp at doubled

theorem addData_bounded {response after : HttpResponse} {data : Bytes} {datalen : ℤ}
    (size : response.dataSize = 1024) (enough : datalen ≤ data.length)
    (success : httpResponseAddData response data datalen = .ok after) :
    after.dataSize = 1024 ∧ after.dataLength ≤ 2 ^ 30 := by
  unfold httpResponseAddData at success
  rw [size] at success
  split at success
  · simp at success
  · rename_i positive
    split at success
    · simp at success
    · split at success
      · simp at success
      · rename_i newdatasize doubled
        obtain ⟨covers, bounded⟩ := doubleSize_bounded doubled
        have grown : newdatasize ≠ 1024 := by omega
        rw [if_neg grown] at success
        dsimp only at success
        split at success
        · simp at success
        · rename_i block stored
          cases success
          have room := MemoryBlock.length_le_of_store stored
          rw [MemoryBlock.capacity_resize, List.length_take] at room
          refine ⟨rfl, ?_⟩
          dsimp only
          omega

theorem toInt_le (n : ℕ) : toInt n ≤ n := by
  by_cases small : (n : ℤ) < 2 ^ 31
  · unfold toInt
    apply le_of_eq
    apply Int.bmod_eq_of_le_mul_two <;> norm_num <;> omega
  · have upper := Int.bmod_lt (x := n) (m := 2 ^ 32) (by norm_num)
    simp only [toInt]
    norm_num at upper ⊢
    omega

theorem addString_bounded {response after : HttpResponse} {text : CString}
    (size : response.dataSize = 1024) (success : addString response text = .ok after) :
    after.dataSize = 1024 ∧ after.dataLength ≤ 2 ^ 30 :=
  addData_bounded size (toInt_le _) success

theorem addAll_size :
    ∀ (pieces : List Bytes) (response after : HttpResponse), response.dataSize = 1024 →
      addAll response pieces = .ok after → after.dataSize = 1024 := by
  intro pieces
  induction pieces with
  | nil =>
      intro response after size success
      cases success
      exact size
  | cons piece rest ih =>
      intro response after size success
      simp only [addAll] at success
      cases added : httpResponseAddData response piece (toInt piece.length) with
      | error fault =>
          rw [added] at success
          cases success
      | ok next =>
          rw [added] at success
          exact ih next after (addData_bounded size (toInt_le _) added).1 success

theorem bind_ok {α β : Type} {x : Except Fault α} {f : α → Except Fault β} {b : β}
    (success : x >>= f = .ok b) : ∃ a, x = .ok a ∧ f a = .ok b := by
  cases x with
  | error fault => cases success
  | ok a => exact ⟨a, rfl, success⟩

theorem finish_bounded {response after : HttpResponse} {body : Bytes}
    (size : response.dataSize = 1024) (success : httpResponseFinish response body = .ok after) :
    after.dataLength ≤ 2 ^ 30 := by
  unfold httpResponseFinish at success
  split at success
  · simp at success
  · obtain ⟨added, success, completed⟩ := bind_ok success
    have same : after = { added with complete := true } := (Except.ok.inj completed).symm
    rw [same]
    unfold finishData at success
    split at success
    · obtain ⟨_, name, success⟩ := bind_ok success
      obtain ⟨_, colon, success⟩ := bind_ok success
      obtain ⟨_, value, success⟩ := bind_ok success
      obtain ⟨_, newline, success⟩ := bind_ok success
      have sized := (addString_bounded (addString_bounded (addString_bounded
        (addString_bounded size name).1 colon).1 value).1 newline).1
      exact (addData_bounded sized (toInt_le _) success).2
    · exact (addString_bounded size success).2

/-! ## A whole reply -/

theorem addString_eq (response : HttpResponse) (text : CString) :
    addString response text =
      httpResponseAddData response text.chars (toInt text.chars.length) := rfl

theorem bind_ok_self (x : Except Fault HttpResponse) : (x >>= fun r => .ok r) = x := bind_pure x

theorem httpResponseInit_eq (protocol : CString) (code : ℤ) (message : CString)
    (valid : 100 ≤ code ∧ code < 1000) :
    httpResponseInit protocol code message =
      addAll freshResponse (initPieces protocol code message) := by
  have inRange : ¬ (code < 100 ∨ 1000 ≤ code) := by omega
  unfold httpResponseInit
  rw [if_neg inRange]
  simp only [initPieces, addAll, addString_eq, bind_ok_self, CString.lit_chars " " (by decide),
    CString.lit_chars "\r\n" (by decide)]

theorem httpResponseAddHeader_eq (response : HttpResponse) (header : CString × CString) :
    httpResponseAddHeader response header.1 header.2 = addAll response (headerPieces header) := by
  simp only [httpResponseAddHeader, headerPieces, addAll, addString_eq, bind_ok_self,
    CString.lit_chars ": " (by decide), CString.lit_chars "\r\n" (by decide)]

theorem addHeaders_eq (headers : List (CString × CString)) :
    ∀ response, addHeaders response headers =
      addAll response (headers.flatMap headerPieces) := by
  induction headers with
  | nil => intro response; rfl
  | cons header rest ih =>
      intro response
      rw [List.flatMap_cons, addAll_append, ← httpResponseAddHeader_eq]
      simp only [addHeaders, ih]

theorem finishData_eq (response : HttpResponse) (body : Bytes) (short : body.length < 2 ^ 31) :
    finishData response body (toInt body.length) = addAll response (finishPieces body) := by
  unfold finishData finishPieces
  rw [toInt_length short]
  by_cases empty : body = []
  · subst empty
    simp only [List.length_nil, Nat.cast_zero, lt_self_iff_false, if_false, if_true, addAll,
      addString_eq, bind_ok_self, CString.lit_chars "\r\n" (by decide)]
  · have positive : (0 : ℤ) < body.length := by
      exact_mod_cast List.length_pos_iff.mpr empty
    simp only [if_pos positive, if_neg empty, addAll, addString_eq, bind_ok_self,
      toInt_length short, Int.toNat_natCast, CString.lit_chars "Content-Length" (by decide),
      CString.lit_chars ": " (by decide), CString.lit_chars "\r\n\r\n" (by decide)]

theorem buildReply_eq (reply : Reply) (valid : 100 ≤ reply.code ∧ reply.code < 1000)
    (short : reply.body.length < 2 ^ 31) :
    buildReply reply = (addAll freshResponse reply.pieces >>= fun response =>
      .ok { response with complete := true }) := by
  have nonnegative : ¬ toInt reply.body.length < 0 := by
    rw [toInt_length short]
    omega
  simp only [buildReply, httpResponseInit_eq _ _ _ valid, addHeaders_eq, httpResponseFinish,
    if_neg nonnegative, finishData_eq _ _ short, Reply.pieces, addAll_append, bind_assoc]
  rfl

theorem fresh_represents : Represents freshResponse [] where
  size := rfl
  length := rfl
  holds := MemoryBlock.holds_nil _

theorem piece_short {reply : Reply} (delivers : Delivers reply) :
    ∀ piece ∈ reply.pieces, piece.length < 2 ^ 31 := by
  intro piece member
  obtain ⟨response, built, read⟩ := delivers
  have bounded : response.dataLength ≤ 2 ^ 30 := by
    unfold buildReply at built
    obtain ⟨first, opened, built⟩ := bind_ok built
    obtain ⟨second, added, built⟩ := bind_ok built
    by_cases valid : 100 ≤ reply.code ∧ reply.code < 1000
    · rw [httpResponseInit_eq _ _ _ valid] at opened
      rw [addHeaders_eq] at added
      exact finish_bounded (addAll_size _ _ _ (addAll_size _ _ _ rfl opened) added) built
    · unfold httpResponseInit at opened
      rw [if_pos (by omega)] at opened
      simp at opened
  have total : reply.pieces.flatten.length ≤ response.dataLength.toNat := by
    unfold httpResponseGetData at read
    split at read
    · simp at read
    · split at read
      · simp at read
      · rename_i bytes loaded
        cases read
        exact MemoryBlock.length_le_of_load loaded
  have part : piece.length ≤ reply.pieces.flatten.length :=
    (List.sublist_flatten_of_mem member).length_le
  omega

theorem delivers_of_fits (reply : Reply) (valid : 100 ≤ reply.code ∧ reply.code < 1000)
    (fits : FitsAll 0 reply.pieces) : Delivers reply := by
  have short : reply.body.length < 2 ^ 31 := by
    by_cases empty : reply.body = []
    · simp [empty]
    · have last := ((fitsAll_append _ _ _).mp fits).2
      simp only [finishPieces, if_neg empty, FitsAll] at last
      have := last.2.2.2.2.1.bounded
      omega
  obtain ⟨after, added, represents⟩ := addAll_fits reply.pieces freshResponse []
    fresh_represents fits
  refine ⟨{ after with complete := true }, ?_, ?_⟩
  · rw [buildReply_eq reply valid short, added]
    rfl
  · have loaded := represents.holds.load
    simp only [httpResponseGetData, represents.length, Int.toNat_natCast]
    rw [loaded]
    rfl

theorem fits_of_delivers (reply : Reply) (delivers : Delivers reply) :
    (100 ≤ reply.code ∧ reply.code < 1000) ∧ FitsAll 0 reply.pieces := by
  have short := piece_short delivers
  obtain ⟨response, built, read⟩ := delivers
  have valid : 100 ≤ reply.code ∧ reply.code < 1000 := by
    by_contra invalid
    unfold buildReply httpResponseInit at built
    rw [if_pos (by omega)] at built
    cases built
  refine ⟨valid, ?_⟩
  by_contra unfit
  have bodyShort : reply.body.length < 2 ^ 31 := by
    by_cases empty : reply.body = []
    · simp [empty]
    · exact short reply.body (by simp [Reply.pieces, finishPieces, empty])
  obtain ⟨fault, failed⟩ := addAll_unfit reply.pieces freshResponse [] fresh_represents short unfit
  rw [buildReply_eq reply valid bodyShort, failed] at built
  cases built

/-- A reply is delivered exactly when its status code has three digits and each
piece has room behind the ones before it. -/
theorem delivers_iff_fits (reply : Reply) :
    Delivers reply ↔ (100 ≤ reply.code ∧ reply.code < 1000) ∧ FitsAll 0 reply.pieces :=
  ⟨fits_of_delivers reply, fun fits => delivers_of_fits reply fits.1 fits.2⟩

def longCSeqReply : Reply where
  protocol := .lit "RTSP/1.0"
  code := 200
  message := .lit "OK"
  headers := [(.lit "CSeq", ⟨List.replicate 3000 49, fun member =>
    absurd (List.eq_of_mem_replicate member) (by decide)⟩)]
  body := []

/-- The line end behind the CSeq gets a buffer of 2048 bytes. -/
theorem longCSeqReply_overruns : ¬ Delivers longCSeqReply := by
  intro delivers
  have fits := (fits_of_delivers longCSeqReply delivers).2
  have room := fits.2.2.2.2.2.2.2.2.2.1.room 1 (by decide)
  have digits : (List.replicate 3000 (49 : UInt8)).length = 3000 := List.length_replicate
  dsimp only [longCSeqReply] at room
  rw [digits] at room
  exact absurd room (by decide)

end AirCast.Http
