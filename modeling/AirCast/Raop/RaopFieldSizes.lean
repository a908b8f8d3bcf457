import AirCast.Raop.RaopHandshake
import AirCast.Raop.RaopSetup

/-! # The sizes of received fields

What the handlers copy out of bodies, property list values and headers that a client
sends in any size.  Only the key is looked at for its size before it is used. -/

set_option autoImplicit false

namespace AirCast.Raop

open AirCast.Http

/-- A copy out of a received value into an array that has `room` bytes left. -/
structure Copy where
  offset : ℤ
  length : ℕ
  room : ℕ
  deriving DecidableEq

/-- Nothing is read outside of a value of that size, nothing written outside of the array. -/
def Copy.Inside (c : Copy) (size : ℕ) : Prop :=
  0 ≤ c.offset ∧ c.offset + c.length ≤ size ∧ c.length ≤ c.room

instance (c : Copy) (size : ℕ) : Decidable (c.Inside size) := inferInstanceAs (Decidable (_ ∧ _))

def pairverifyCopies (body : Bytes) : List Copy :=
  if body.head? = some 1 then [⟨4, 32, 32⟩, ⟨36, 32, 32⟩] else [⟨4, 64, 64⟩]

/-- `SETUP_MESSAGE_TYPE` and `SETUP2_MESSAGE_SEQ`, for which `fairplay_setup` sends back the
end of the message. -/
def secondFairplay (message : Bytes) : Bool := message.getD 5 0 = 1 ∧ message.getD 6 0 = 3

theorem secondFairplay_iff {message : Bytes} :
    secondFairplay message = true ↔ message.getD 5 0 = 1 ∧ message.getD 6 0 = 3 :=
  decide_eq_true_iff

/-- The end of the message goes behind the twelve bytes of `fp_header`. -/
def fairplaySetupCopies (message : Bytes) : List Copy :=
  if secondFairplay message then [⟨(message.length : ℤ) - 20, 20, 32 - 12⟩] else []

/-- Whatever is not 16 bytes long is kept as `message3`. -/
def fpsetupCopies (body : Bytes) : List Copy :=
  fairplaySetupCopies body ++ if body.length = 16 then [] else [⟨0, 164, 164⟩]

def eivCopies (eiv : Bytes) : List Copy := [⟨0, eiv.length, 16⟩]

/-- The two blocks that `fairplay_decrypt` takes out of a key. -/
def ekeyCopies (message3 ekey : Bytes) : List Copy :=
  if ekey.length = 72 ∧ secondFairplay message3 ∧ ekey.getD 5 0 = 2 then
    [⟨56, 16, 16⟩, ⟨16, 16, 16⟩]
  else []

/-- `strcpy` into `m_sessionId` takes the terminator along. -/
def sessionIdCopies (sessionId : CString) : List Copy := [⟨0, sessionId.strlen + 1, 128⟩]

inductive ReceivedValue where
  | pairVerify (body : Bytes)
  | fpSetup (body : Bytes)
  | eiv (value : Bytes)
  | ekey (message3 value : Bytes)
  | sessionId (text : CString)
  deriving DecidableEq

namespace ReceivedValue

def size : ReceivedValue → ℕ
  | .pairVerify body | .fpSetup body => body.length
  | .eiv value | .ekey _ value => value.length
  | .sessionId text => text.strlen + 1

def copies : ReceivedValue → List Copy
  | .pairVerify body => pairverifyCopies body
  | .fpSetup body => fpsetupCopies body
  | .eiv value => eivCopies value
  | .ekey message3 value => ekeyCopies message3 value
  | .sessionId text => sessionIdCopies text

/-- The size that the arrays behind the value are made for. -/
def RightSize : ReceivedValue → Prop
  | .pairVerify body => body.length = 68
  | .fpSetup body => body.length = 164
  | .eiv value => value.length = 16
  | .ekey _ value => value.length = 72
  | .sessionId text => text.strlen < 128

/-- All copies stay inside, and there are none where the size is not the right one. -/
structure Safe (value : ReceivedValue) : Prop where
  inside : ∀ c ∈ value.copies, c.Inside value.size
  rejected : ¬ value.RightSize → value.copies = []

/-- The right size where the code does not ask for it. -/
def WellSized : ReceivedValue → Prop
  | .pairVerify body => body.length = 68
  | .fpSetup body => body.length = 164 ∨ body.length = 16 ∧ secondFairplay body = false
  | .eiv value => value.length = 16
  | .ekey _ _ => True
  | .sessionId text => text.strlen < 128

end ReceivedValue

inductive SizedRequest where
  | pairVerify (body : Option Bytes)
  | fpSetup (body : Option Bytes)
  /-- SETUP with the property list it was sent, while the server has `message3` -/
  | setup (message3 : Bytes) (dict : Option Plist)
  /-- any request of airplay.c with its `X-Apple-Session-ID` -/
  | airplay (sessionId : Option CString)

/-- The values a handler takes out of its request; a body that is not there is read all the
same. -/
def receivedValues : SizedRequest → Except Fault (List ReceivedValue)
  | .pairVerify none | .fpSetup none => .error .nullPointer
  | .pairVerify (some body) => .ok [.pairVerify body]
  | .fpSetup (some body) => .ok [.fpSetup body]
  | .setup message3 dict =>
      let item (key : String) := Plist.getDataVal (Plist.dictGetItem (.lit key) dict)
      .ok ((item "eiv").toList.map .eiv ++ (item "ekey").toList.map (.ekey message3))
  | .airplay sessionId => .ok (sessionId.toList.map .sessionId)

def SizedRequest.Safe (request : SizedRequest) : Prop :=
  ∃ values, receivedValues request = .ok values ∧ ∀ value ∈ values, value.Safe

def SizedRequest.WellSized : SizedRequest → Prop
  | .pairVerify body => ∃ bytes ∈ body, bytes.length = 68
  | .fpSetup body =>
      ∃ bytes ∈ body,
        bytes.length = 164 ∨ bytes.length = 16 ∧ secondFairplay bytes = false
  | .setup _ dict =>
      ∀ iv ∈ Plist.getDataVal (Plist.dictGetItem (.lit "eiv") dict), iv.length = 16
  | .airplay sessionId => ∀ text ∈ sessionId, text.strlen < 128

theorem safe_pairVerify (body : Bytes) :
    (ReceivedValue.pairVerify body).Safe ↔ body.length = 68 := by
  have some' : pairverifyCopies body ≠ [] := by
    unfold pairverifyCopies
    split <;> simp
  constructor
  · intro safe
    by_contra wrong
    exact some' (safe.rejected wrong)
  · intro right
    refine ⟨?_, fun wrong => absurd right wrong⟩
    intro c member
    change c.Inside body.length
    change c ∈ pairverifyCopies body at member
    rw [right]
    unfold pairverifyCopies at member
    split at member
    · rcases List.mem_pair.mp member with rfl | rfl
      · decide
      · decide
    · cases List.mem_singleton.mp member
      decide

theorem safe_fpSetup (body : Bytes) :
    (ReceivedValue.fpSetup body).Safe ↔
      body.length = 164 ∨ body.length = 16 ∧ secondFairplay body = false := by
  constructor
  · intro safe
    by_cases right : body.length = 164
    · exact Or.inl right
    · have none : fairplaySetupCopies body = [] ∧
          (if body.length = 16 then [] else [(⟨0, 164, 164⟩ : Copy)]) = [] :=
        List.append_eq_nil_iff.mp (safe.rejected right)
      by_cases short : body.length = 16
      · refine Or.inr ⟨short, ?_⟩
        by_contra second
        have second : secondFairplay body = true := by simpa using second
        have echoed := none.1
        rw [fairplaySetupCopies, if_pos second] at echoed
        cases echoed
      · have kept := none.2
        rw [if_neg short] at kept
        cases kept
  · rintro (right | ⟨short, first⟩)
    · refine ⟨?_, fun wrong => absurd right wrong⟩
      intro c member
      change c.Inside body.length
      change c ∈ fpsetupCopies body at member
      unfold fpsetupCopies fairplaySetupCopies at member
      rw [right] at member ⊢
      rcases List.mem_append.mp member with echoed | kept
      · split at echoed
        · cases List.mem_singleton.mp echoed
          decide
        · cases echoed
      · cases List.mem_singleton.mp kept
        decide
    · have none : (ReceivedValue.fpSetup body).copies = [] := by
        simp [ReceivedValue.copies, fpsetupCopies, fairplaySetupCopies, short, first]
      exact ⟨by simp [none], fun _ => none⟩

theorem safe_eiv (value : Bytes) : (ReceivedValue.eiv value).Safe ↔ value.length = 16 := by
  constructor
  · intro safe
    by_contra wrong
    exact absurd (safe.rejected wrong) (List.cons_ne_nil _ _)
  · intro right
    refine ⟨?_, fun wrong => absurd right wrong⟩
    intro c member
    cases List.mem_singleton.mp member
    change (⟨0, value.length, 16⟩ : Copy).Inside value.length
    rw [right]
    decide

theorem safe_ekey (message3 value : Bytes) : (ReceivedValue.ekey message3 value).Safe := by
  by_cases used : value.length = 72 ∧ secondFairplay message3 ∧ value.getD 5 0 = 2
  · refine ⟨?_, fun wrong => absurd used.1 wrong⟩
    intro c member
    change c.Inside value.length
    rw [ReceivedValue.copies, ekeyCopies, if_pos used] at member
    rw [used.1]
    rcases List.mem_pair.mp member with rfl | rfl
    · decide
    · decide
  · have none : (ReceivedValue.ekey message3 value).copies = [] := if_neg used
    exact ⟨by simp [none], fun _ => none⟩

theorem safe_sessionId (text : CString) :
    (ReceivedValue.sessionId text).Safe ↔ text.strlen < 128 := by
  constructor
  · intro safe
    by_contra wrong
    exact absurd (safe.rejected wrong) (List.cons_ne_nil _ _)
  · intro right
    refine ⟨?_, fun wrong => absurd right wrong⟩
    intro c member
    cases List.mem_singleton.mp member
    change (⟨0, text.strlen + 1, 128⟩ : Copy).Inside (text.strlen + 1)
    refine ⟨le_refl _, ?_, ?_⟩
    · simp
    · exact right

theorem ReceivedValue.safe_iff (value : ReceivedValue) : value.Safe ↔ value.WellSized := by
  cases value with
  | pairVerify body => exact safe_pairVerify body
  | fpSetup body => exact safe_fpSetup body
  | eiv value => exact safe_eiv value
  | ekey message3 value => exact iff_of_true (safe_ekey message3 value) trivial
  | sessionId text => exact safe_sessionId text

section Handlers

variable {ρ : Type} {crypto : RaopCrypto} {server : RaopServer} {conn : RaopConn ρ}

theorem copyFrom_succeeds (buffer : Bytes) (offset length : ℕ) :
    (∃ bytes, copyFrom buffer offset length = .ok bytes) ↔ offset + length ≤ buffer.length := by
  unfold copyFrom
  split
  · rename_i inside
    exact iff_of_true ⟨_, rfl⟩ inside
  · rename_i outside
    exact iff_of_false (by rintro ⟨_, wrong⟩; cases wrong) outside

/-- `request_handle_pairverify` stays inside its body exactly if its copies do. -/
theorem requestHandlePairverify_succeeds (seed : Bytes) {body : Bytes} (present : body ≠ []) :
    (∃ out, requestHandlePairverify crypto server conn seed (some body) = .ok out) ↔
      ∀ c ∈ pairverifyCopies body, c.Inside body.length := by
  obtain ⟨step, rest, rfl⟩ := List.exists_cons_of_ne_nil present
  by_cases first : step = 1
  · have copies : pairverifyCopies (step :: rest) = [⟨4, 32, 32⟩, ⟨36, 32, 32⟩] := if_pos (by simp [first])
    rw [copies, requestHandlePairverify, if_pos first]
    constructor
    · rintro ⟨out, handled⟩
      obtain ⟨his, read, handled⟩ := bind_ok handled
      obtain ⟨ed, readEd, -⟩ := bind_ok handled
      have long := (copyFrom_succeeds _ _ _).mp ⟨ed, readEd⟩
      intro c member
      rcases List.mem_pair.mp member with rfl | rfl
      · refine ⟨by decide, ?_, by decide⟩
        push_cast
        omega
      · refine ⟨by decide, ?_, by decide⟩
        push_cast
        omega
    · intro inside
      have long := (inside ⟨36, 32, 32⟩ (by simp)).2.1
      push_cast at long
      have starts : (step :: rest).head? = some 1 := by simp [first]
      have handled := @pairverifyFirst_eq _ crypto server conn (step :: rest) starts (by omega) seed
      rw [requestHandlePairverify, if_pos first] at handled
      exact ⟨_, handled⟩
  · have copies : pairverifyCopies (step :: rest) = [⟨4, 64, 64⟩] := if_neg (by simp [first])
    rw [copies, requestHandlePairverify, if_neg first]
    constructor
    · rintro ⟨out, handled⟩
      obtain ⟨sig, read, -⟩ := bind_ok handled
      have long := (copyFrom_succeeds _ _ _).mp ⟨sig, read⟩
      intro c member
      cases List.mem_singleton.mp member
      refine ⟨by decide, ?_, by decide⟩
      push_cast
      omega
    · intro inside
      have long := (inside ⟨4, 64, 64⟩ (by simp)).2.1
      push_cast at long
      have starts : (step :: rest).head? ≠ some 1 := by simp [first]
      have handled := @pairverifySecond_eq _ crypto server conn (step :: rest) starts (by omega) seed
      rw [requestHandlePairverify, if_neg first] at handled
      exact ⟨_, handled⟩

theorem setupIv_succeeds (eiv : Bytes) :
    (∃ ready, setupIv conn (some eiv) = .ok ready) ↔
      ∀ c ∈ eivCopies eiv, c.Inside eiv.length := by
  constructor
  · rintro ⟨ready, copied⟩ c member
    cases List.mem_singleton.mp member
    refine ⟨le_refl _, by simp, ?_⟩
    by_contra long
    rw [setupIv, if_neg long] at copied
    cases copied
  · intro inside
    exact ⟨_, if_pos (inside _ (List.mem_singleton_self _)).2.2⟩

end Handlers

/-- `chunk1` and `chunk2` of `fairplay_decrypt`, where it does not return NULL. -/
def fairplayDecryptBlocks (message3 cipherText : Bytes) : Except Fault (Option (Bytes × Bytes)) :=
  if secondFairplay message3 ∧ cipherText.getD 5 0 = 2 then do
    let chunk2 ← copyFrom cipherText 56 16
    let chunk1 ← copyFrom cipherText 16 16
    return some (chunk1, chunk2)
  else return none

def setupBlocks (message3 ekey : Bytes) : Except Fault (Option (Bytes × Bytes)) :=
  if ekey.length = 72 then fairplayDecryptBlocks message3 ekey else return none

theorem setupBlocks_eq (message3 ekey : Bytes) :
    setupBlocks message3 ekey =
      .ok (if ekeyCopies message3 ekey = [] then none
        else some ((ekey.drop 16).take 16, (ekey.drop 56).take 16)) := by
  by_cases long : ekey.length = 72
  · rw [setupBlocks, if_pos long, fairplayDecryptBlocks]
    by_cases used : secondFairplay message3 ∧ ekey.getD 5 0 = 2
    · have copies : ekeyCopies message3 ekey ≠ [] := by
        rw [ekeyCopies, if_pos ⟨long, used⟩]
        exact List.cons_ne_nil _ _
      rw [if_pos used, if_neg copies, copyFrom_ok (by omega), copyFrom_ok (by omega)]
      rfl
    · have none : ekeyCopies message3 ekey = [] := if_neg fun all => used all.2
      rw [if_neg used, if_pos none]
      rfl
  · have none : ekeyCopies message3 ekey = [] := if_neg fun all => long all.1
    rw [setupBlocks, if_neg long, if_pos none]
    rfl

def strcpy (dst : Bytes) (src : CString) : Except Fault Bytes :=
  if src.strlen + 1 ≤ dst.length then .ok (src.chars ++ 0 :: dst.drop (src.strlen + 1))
  else .error .outOfBounds

/-- `m_sessionId` after the first lines of `conn_request` in airplay.c. -/
def keepSessionId (mSessionId : Bytes) : Option CString → Except Fault Bytes
  | none => .ok mSessionId
  | some sessionId => strcpy (zeros 128) sessionId

theorem keepSessionId_succeeds (mSessionId : Bytes) (sessionId : CString) :
    (∃ kept, keepSessionId mSessionId (some sessionId) = .ok kept) ↔
      ∀ c ∈ sessionIdCopies sessionId, c.Inside (sessionId.strlen + 1) := by
  have room : (zeros 128).length = 128 := List.length_replicate
  rw [keepSessionId, strcpy, room]
  constructor
  · rintro ⟨kept, copied⟩ c member
    cases List.mem_singleton.mp member
    refine ⟨le_refl _, by simp, ?_⟩
    by_contra long
    rw [if_neg long] at copied
    cases copied
  · intro inside
    exact ⟨_, if_pos (inside _ (List.mem_singleton_self _)).2.2⟩

/-- Every copy fits and a value of another size is not copied, exactly if pair-verify,
FairPlay message, initialization vector and session are of their sizes. -/
theorem request_copies_safe_iff (request : SizedRequest) : request.Safe ↔ request.WellSized := by
  unfold SizedRequest.Safe
  cases request with
  | pairVerify body =>
      cases body with
      | none => simp [receivedValues, SizedRequest.WellSized]
      | some bytes =>
          simp [receivedValues, SizedRequest.WellSized, ReceivedValue.safe_iff,
            ReceivedValue.WellSized]
  | fpSetup body =>
      cases body with
      | none => simp [receivedValues, SizedRequest.WellSized]
      | some bytes =>
          simp [receivedValues, SizedRequest.WellSized, ReceivedValue.safe_iff,
            ReceivedValue.WellSized]
  | setup message3 dict =>
      simp [receivedValues, SizedRequest.WellSized, ReceivedValue.safe_iff,
        ReceivedValue.WellSized, or_imp, forall_and]
  | airplay sessionId =>
      simp [receivedValues, SizedRequest.WellSized, ReceivedValue.safe_iff,
        ReceivedValue.WellSized]

/-- An initialization vector of 17 bytes runs over the end of `rsa_iv`. -/
theorem longEiv_not_safe :
    ¬ (SizedRequest.setup (zeros 164)
      (some (.dict [(.lit "eiv", .data (List.replicate 17 7))]))).Safe := by
  rintro ⟨values, received, safe⟩
  cases Except.ok.inj received
  have inside := (safe (.eiv (List.replicate 17 7)) (by decide)).inside
  exact absurd (inside ⟨0, 17, 16⟩ (by decide)) (by decide)

end AirCast.Raop
