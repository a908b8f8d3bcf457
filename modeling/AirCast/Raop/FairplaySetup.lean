import AirCast.Http.HttpResponseCapacity
import AirCast.Raop.RaopFieldSizes

/-! # The reply to a FairPlay message

The handler chooses the size of the reply from the length of the body, `fairplay_setup` its
buffer from two bytes of it.  (The log lines of raop.c are empty: `ALOGD` drops its
arguments.) -/

set_option autoImplicit false

namespace AirCast.Raop

open AirCast.Http

def replyMessage0 : Bytes :=
  [0x46, 0x50, 0x4c, 0x59, 0x03, 0x01, 0x02, 0x00, 0x00, 0x00, 0x00, 0x82, 0x02, 0x00, 0x0f, 0x9f,
   0x3f, 0x9e, 0x0a, 0x25, 0x21, 0xdb, 0xdf, 0x31, 0x2a, 0xb2, 0xbf, 0xb2, 0x9e, 0x8d, 0x23, 0x2b,
   0x63, 0x76, 0xa8, 0xc8, 0x18, 0x70, 0x1d, 0x22, 0xae, 0x93, 0xd8, 0x27, 0x37, 0xfe, 0xaf, 0x9d,
   0xb4, 0xfd, 0xf4, 0x1c, 0x2d, 0xba, 0x9d, 0x1f, 0x49, 0xca, 0xaa, 0xbf, 0x65, 0x91, 0xac, 0x1f,
   0x7b, 0xc6, 0xf7, 0xe0, 0x66, 0x3d, 0x21, 0xaf, 0xe0, 0x15, 0x65, 0x95, 0x3e, 0xab, 0x81, 0xf4,
   0x18, 0xce, 0xed, 0x09, 0x5a, 0xdb, 0x7c, 0x3d, 0x0e, 0x25, 0x49, 0x09, 0xa7, 0x98, 0x31, 0xd4,
   0x9c, 0x39, 0x82, 0x97, 0x34, 0x34, 0xfa, 0xcb, 0x42, 0xc6, 0x3a, 0x1c, 0xd9, 0x11, 0xa6, 0xfe,
   0x94, 0x1a, 0x8a, 0x6d, 0x4a, 0x74, 0x3b, 0x46, 0xc3, 0xa7, 0x64, 0x9e, 0x44, 0xc7, 0x89, 0x55,
   0xe4, 0x9d, 0x81, 0x55, 0x00, 0x95, 0x49, 0xc4, 0xe2, 0xf7, 0xa3, 0xf6, 0xd5, 0xba]

def replyMessage1 : Bytes :=
  [0x46, 0x50, 0x4c, 0x59, 0x03, 0x01, 0x02, 0x00, 0x00, 0x00, 0x00, 0x82, 0x02, 0x01, 0xcf, 0x32,
   0xa2, 0x57, 0x14, 0xb2, 0x52, 0x4f, 0x8a, 0xa0, 0xad, 0x7a, 0xf1, 0x64, 0xe3, 0x7b, 0xcf, 0x44,
   0x24, 0xe2, 0x00, 0x04, 0x7e, 0xfc, 0x0a, 0xd6, 0x7a, 0xfc, 0xd9, 0x5d, 0xed, 0x1c, 0x27, 0x30,
   0xbb, 0x59, 0x1b, 0x96, 0x2e, 0xd6, 0x3a, 0x9c, 0x4d, 0xed, 0x88, 0xba, 0x8f, 0xc7, 0x8d, 0xe6,
   0x4d, 0x91, 0xcc, 0xfd, 0x5c, 0x7b, 0x56, 0xda, 0x88, 0xe3, 0x1f, 0x5c, 0xce, 0xaf, 0xc7, 0x43,
   0x19, 0x95, 0xa0, 0x16, 0x65, 0xa5, 0x4e, 0x19, 0x39, 0xd2, 0x5b, 0x94, 0xdb, 0x64, 0xb9, 0xe4,
   0x5d, 0x8d, 0x06, 0x3e, 0x1e, 0x6a, 0xf0, 0x7e, 0x96, 0x56, 0x16, 0x2b, 0x0e, 0xfa, 0x40, 0x42,
   0x75, 0xea, 0x5a, 0x44, 0xd9, 0x59, 0x1c, 0x72, 0x56, 0xb9, 0xfb, 0xe6, 0x51, 0x38, 0x98, 0xb8,
   0x02, 0x27, 0x72, 0x19, 0x88, 0x57, 0x16, 0x50, 0x94, 0x2a, 0xd9, 0x46, 0x68, 0x8a]

def replyMessage2 : Bytes :=
  [0x46, 0x50, 0x4c, 0x59, 0x03, 0x01, 0x02, 0x00, 0x00, 0x00, 0x00, 0x82, 0x02, 0x02, 0xc1, 0x69,
   0xa3, 0x52, 0xee, 0xed, 0x35, 0xb1, 0x8c, 0xdd, 0x9c, 0x58, 0xd6, 0x4f, 0x16, 0xc1, 0x51, 0x9a,
   0x89, 0xeb, 0x53, 0x17, 0xbd, 0x0d, 0x43, 0x36, 0xcd, 0x68, 0xf6, 0x38, 0xff, 0x9d, 0x01, 0x6a,
   0x5b, 0x52, 0xb7, 0xfa, 0x92, 0x16, 0xb2, 0xb6, 0x54, 0x82, 0xc7, 0x84, 0x44, 0x11, 0x81, 0x21,
   0xa2, 0xc7, 0xfe, 0xd8, 0x3d, 0xb7, 0x11, 0x9e, 0x91, 0x82, 0xaa, 0xd7, 0xd1, 0x8c, 0x70, 0x63,
   0xe2, 0xa4, 0x57, 0x55, 0x59, 0x10, 0xaf, 0x9e, 0x0e, 0xfc, 0x76, 0x34, 0x7d, 0x16, 0x40, 0x43,
   0x80, 0x7f, 0x58, 0x1e, 0xe4, 0xfb, 0xe4, 0x2c, 0xa9, 0xde, 0xdc, 0x1b, 0x5e, 0xb2, 0xa3, 0xaa,
   0x3d, 0x2e, 0xcd, 0x59, 0xe7, 0xee, 0xe7, 0x0b, 0x36, 0x29, 0xf2, 0x2a, 0xfd, 0x16, 0x1d, 0x87,
   0x73, 0x53, 0xdd, 0xb9, 0x9a, 0xdc, 0x8e, 0x07, 0x00, 0x6e, 0x56, 0xf8, 0x50, 0xce]

def replyMessage3 : Bytes :=
  [0x46, 0x50, 0x4c, 0x59, 0x03, 0x01, 0x02, 0x00, 0x00, 0x00, 0x00, 0x82, 0x02, 0x03, 0x90, 0x01,
   0xe1, 0x72, 0x7e, 0x0f, 0x57, 0xf9, 0xf5, 0x88, 0x0d, 0xb1, 0x04, 0xa6, 0x25, 0x7a, 0x23, 0xf5,
   0xcf, 0xff, 0x1a, 0xbb, 0xe1, 0xe9, 0x30, 0x45, 0x25, 0x1a, 0xfb, 0x97, 0xeb, 0x9f, 0xc0, 0x01,
   0x1e, 0xbe, 0x0f, 0x3a, 0x81, 0xdf, 0x5b, 0x69, 0x1d, 0x76, 0xac, 0xb2, 0xf7, 0xa5, 0xc7, 0x08,
   0xe3, 0xd3, 0x28, 0xf5, 0x6b, 0xb3, 0x9d, 0xbd, 0xe5, 0xf2, 0x9c, 0x8a, 0x17, 0xf4, 0x81, 0x48,
   0x7e, 0x3a, 0xe8, 0x63, 0xc6, 0x78, 0x32, 0x54, 0x22, 0xe6, 0xf7, 0x8e, 0x16, 0x6d, 0x18, 0xaa,
   0x7f, 0xd6, 0x36, 0x25, 0x8b, 0xce, 0x28, 0x72, 0x6f, 0x66, 0x1f, 0x73, 0x88, 0x93, 0xce, 0x44,
   0x31, 0x1e, 0x4b, 0xe6, 0xc0, 0x53, 0x51, 0x93, 0xe5, 0xef, 0x72, 0xe8, 0x68, 0x62, 0x33, 0x72,
   0x9c, 0x22, 0x7d, 0x82, 0x0c, 0x99, 0x94, 0x45, 0xd8, 0x92, 0x46, 0xc8, 0xc3, 0x59]

def replyMessage : List Bytes := [replyMessage0, replyMessage1, replyMessage2, replyMessage3]

def fpHeader : Bytes :=
  [0x46, 0x50, 0x4c, 0x59, 0x03, 0x01, 0x04, 0x00, 0x00, 0x00, 0x00, 0x14]

/-- A byte of a message; a `char` of 128 and more is no index, whatever its sign. -/
def messageByte (message : Bytes) (position : ℕ) : Except Fault UInt8 :=
  match message[position]? with
  | none => .error .outOfBounds
  | some c => .ok c

def replyOf (mode : UInt8) : Except Fault Bytes :=
  match replyMessage[mode.toNat]? with
  | none => .error .outOfBounds
  | some reply => .ok reply

/-- `&message[length - SETUP2_RESPONSE_SUFFIX_LENGTH]`, as many bytes of it. -/
def suffixOf (message : Bytes) (length : ℤ) : Except Fault Bytes :=
  if length < 20 then .error .outOfBounds else copyFrom message (length - 20).toNat 20

/-- `fairplay_setup`: the buffer that it returns, or NULL.  `granted` says if there is
memory, `response` is what the variable holds that is not written for other sequence
numbers. -/
def fairplaySetup (granted : Bool) (response : Option Bytes) (message : Bytes) (length : ℤ) :
    Except Fault (Option Bytes) := do
  let type ← messageByte message 5
  let seq ← messageByte message 6
  if type = 1 then
    if seq = 1 then
      let mode ← messageByte message 14
      let reply ← replyOf mode
      return if granted then some reply else none
    else if seq = 3 then
      if granted then
        let suffix ← suffixOf message length
        return some (fpHeader ++ suffix)
      else return none
    else return response
  else return none

/-- What `request_handle_fpsetup` gives back: the buffer of the response data with the
length it is sent with, and `message3`. -/
structure FpsetupAnswer where
  response : Option (Bytes × ℕ)
  message3 : Bytes
  deriving DecidableEq

def FpsetupAnswer.sent (answer : FpsetupAnswer) : Except Fault Bytes :=
  match answer.response with
  | none => .ok []
  | some (buf, size) => copyFrom buf 0 size

/-- `request_handle_fpsetup` with `fairplay_setup` in it. -/
def fpsetupAnswer (granted : Bool) (response : Option Bytes) (message3 : Bytes) :
    Option Bytes → Except Fault FpsetupAnswer
  | none => .error .nullPointer
  | some data =>
      if data.length = 16 then do
        let buf ← fairplaySetup granted response data data.length
        return ⟨buf.map fun buf => (buf, 142), message3⟩
      else do
        let buf ← fairplaySetup granted response data data.length
        let message3 ← copyFrom data 0 164
        return ⟨buf.map fun buf => (buf, 32), message3⟩

def KnownMessage (data : Bytes) : Prop :=
  data.getD 5 0 = 1 ∧ (data.getD 6 0 = 1 ∨ data.getD 6 0 = 3)

/-- The handler reads inside the body and the table, sends what was allocated, and sends
nothing for a message it does not know. -/
def FpsetupSound (body : Option Bytes) : Prop :=
  ∀ (granted : Bool) (response : Option Bytes) (message3 : Bytes),
    ∃ answer, fpsetupAnswer granted response message3 body = .ok answer ∧
      (∀ buf size, answer.response = some (buf, size) → size = buf.length) ∧
        ((∀ data ∈ body, ¬ KnownMessage data) → answer.response = none)

/-- The body is as long as a FairPlay message can be, and a message of type 1 is one of the
two of a handshake: the first in 16 bytes with a mode that there is, or the second. -/
def FpsetupExpected (data : Bytes) : Prop :=
  (data.length = 16 ∨ 164 ≤ data.length) ∧
    (data.getD 5 0 = 1 →
      data.length = 16 ∧ data.getD 6 0 = 1 ∧ data.getD 14 0 < 4 ∨
        164 ≤ data.length ∧ data.getD 6 0 = 3)

theorem replyMessage_length : ∀ reply ∈ replyMessage, reply.length = 142 := by
  decide +kernel

theorem replyOf_ok {mode : UInt8} {reply : Bytes} (found : replyOf mode = .ok reply) :
    mode < 4 ∧ reply.length = 142 := by
  unfold replyOf at found
  split at found
  · cases found
  · rename_i row listed
    obtain rfl : row = reply := Except.ok.inj found
    obtain ⟨inside, rfl⟩ := List.getElem?_eq_some_iff.mp listed
    exact ⟨inside, replyMessage_length _ (List.getElem_mem inside)⟩

theorem replyOf_mode {mode : UInt8} (known : mode < 4) : ∃ reply, replyOf mode = .ok reply := by
  have inside : mode.toNat < replyMessage.length := known
  exact ⟨replyMessage[mode.toNat], by rw [replyOf, List.getElem?_eq_getElem inside]⟩

theorem messageByte_ok {message : Bytes} {position : ℕ} (inside : position < message.length) :
    messageByte message position = .ok (message.getD position 0) := by
  rw [messageByte, List.getD_eq_getElem?_getD, List.getElem?_eq_getElem inside]
  rfl

theorem suffixOf_ok {message : Bytes} (long : 20 ≤ message.length) :
    ∃ suffix, suffixOf message message.length = .ok suffix ∧ suffix.length = 20 := by
  refine ⟨(message.drop (message.length - 20)).take 20, ?_, ?_⟩
  · rw [suffixOf, if_neg (by omega), copyFrom_ok (by omega)]
    congr 3
    omega
  · simp
    omega

section

variable (granted : Bool) (response : Option Bytes) {data : Bytes}

theorem fairplaySetup_of_long (long : 15 ≤ data.length) :
    fairplaySetup granted response data data.length =
      if data.getD 5 0 = 1 then
        if data.getD 6 0 = 1 then
          (replyOf (data.getD 14 0)).map fun reply => if granted then some reply else none
        else if data.getD 6 0 = 3 then
          if granted then (suffixOf data data.length).map fun suffix => some (fpHeader ++ suffix)
          else .ok none
        else .ok response
      else .ok none := by
  rw [fairplaySetup, messageByte_ok (by omega), messageByte_ok (by omega), messageByte_ok (by omega)]
  simp only [bind, Except.bind, pure, Except.pure]
  split_ifs <;> rfl

theorem fpsetupAnswer_ok (message3 : Bytes) (answer : FpsetupAnswer) :
    fpsetupAnswer granted response message3 (some data) = .ok answer ↔
      (data.length = 16 ∨ 164 ≤ data.length) ∧
        ∃ buf, fairplaySetup granted response data data.length = .ok buf ∧
          answer = ⟨buf.map fun buf => (buf, fpsetupSize data),
            if data.length = 16 then message3 else data.take 164⟩ := by
  rw [fpsetupAnswer, fpsetupSize]
  by_cases short : data.length = 16
  · rw [if_pos short, if_pos short, if_pos short]
    cases fairplaySetup granted response data data.length with
    | error fault => exact iff_of_false (by rintro ⟨⟩) (by rintro ⟨_, _, ⟨⟩, _⟩)
    | ok buf =>
        constructor
        · rintro ⟨⟩
          exact ⟨.inl short, buf, rfl, rfl⟩
        · rintro ⟨_, _, ⟨⟩, rfl⟩
          rfl
  · rw [if_neg short, if_neg short, if_neg short]
    cases fairplaySetup granted response data data.length with
    | error fault => exact iff_of_false (by rintro ⟨⟩) (by rintro ⟨_, _, ⟨⟩, _⟩)
    | ok buf =>
        constructor
        · intro success
          obtain ⟨_, made, success⟩ := bind_ok success
          obtain rfl := Except.ok.inj made
          obtain ⟨bytes, copied, done⟩ := bind_ok success
          have long := (copyFrom_succeeds data 0 164).mp ⟨bytes, copied⟩
          rw [copyFrom_ok long] at copied
          obtain rfl := Except.ok.inj copied
          obtain rfl := Except.ok.inj done
          exact ⟨.inr (by omega), buf, rfl, rfl⟩
        · rintro ⟨long, _, ⟨⟩, rfl⟩
          simp only [copyFrom_ok (show 0 + 164 ≤ data.length by omega), List.drop_zero]
          rfl

end

theorem fpsetupSound_some {data : Bytes} :
    FpsetupSound (some data) ↔
      (data.length = 16 ∨ 164 ≤ data.length) ∧
        ∀ (granted : Bool) (response : Option Bytes),
          ∃ buf, fairplaySetup granted response data data.length = .ok buf ∧
            (∀ block ∈ buf, fpsetupSize data = block.length) ∧
              (¬ KnownMessage data → buf = none) := by
  constructor
  · intro sound
    refine ⟨?_, fun granted response => ?_⟩
    · obtain ⟨answer, done, _⟩ := sound true none []
      exact ((fpsetupAnswer_ok _ _ _ _).mp done).1
    · obtain ⟨answer, done, sent, unknown⟩ := sound granted response []
      obtain ⟨_, buf, made, rfl⟩ := (fpsetupAnswer_ok _ _ _ _).mp done
      refine ⟨buf, made, fun block member => ?_, fun foreign => ?_⟩
      · obtain rfl : buf = some block := member
        exact sent block _ rfl
      · have silent := unknown (by rintro _ ⟨⟩; exact foreign)
        exact Option.map_eq_none_iff.mp silent
  · rintro ⟨long, made⟩ granted response message3
    obtain ⟨buf, done, sent, unknown⟩ := made granted response
    refine ⟨_, (fpsetupAnswer_ok _ _ _ _).mpr ⟨long, buf, done, rfl⟩, ?_, fun foreign => ?_⟩
    · intro block size found
      obtain ⟨_, same, pair⟩ := Option.map_eq_some_iff.mp found
      obtain ⟨rfl, rfl⟩ := Prod.mk.inj pair
      exact sent _ same
    · exact Option.map_eq_none_iff.mpr (unknown (foreign data rfl))

theorem fpsetupCopies_inside {data : Bytes} (long : data.length = 16 ∨ 164 ≤ data.length) :
    (∀ c ∈ fpsetupCopies data, c.Inside data.length) ↔
      (secondFairplay data → 20 ≤ data.length) := by
  constructor
  · intro inside second
    have start := (inside ⟨(data.length : ℤ) - 20, 20, 32 - 12⟩
      (List.mem_append_left _ (by simp [fairplaySetupCopies, second]))).1
    dsimp only at start
    omega
  · intro echoed c member
    rcases List.mem_append.mp member with echo | keep
    · unfold fairplaySetupCopies at echo
      split_ifs at echo with second
      · cases List.mem_singleton.mp echo
        have enough := echoed second
        refine ⟨?_, ?_, le_refl _⟩
        · dsimp only
          omega
        · dsimp only
          omega
      · cases echo
    · split_ifs at keep with short
      · cases keep
      · cases List.mem_singleton.mp keep
        exact ⟨le_refl _, by push_cast; omega, le_refl _⟩

/-- Where there is memory and the mode is in the table, the handler ends exactly if the
copies out of its body stay inside. -/
theorem fpsetupAnswer_succeeds {response : Option Bytes} {message3 data : Bytes}
    (listed : data.getD 5 0 = 1 → data.getD 6 0 = 1 → data.getD 14 0 < 4) :
    (∃ answer, fpsetupAnswer true response message3 (some data) = .ok answer) ↔
      ∀ c ∈ fpsetupCopies data, c.Inside data.length := by
  simp only [fpsetupAnswer_ok]
  by_cases long : data.length = 16 ∨ 164 ≤ data.length
  · rw [fpsetupCopies_inside long, fairplaySetup_of_long _ _ (by omega), secondFairplay_iff]
    by_cases type : data.getD 5 0 = 1
    · by_cases first : data.getD 6 0 = 1
      · obtain ⟨reply, replied⟩ := replyOf_mode (listed type first)
        rw [if_pos type, if_pos first, replied]
        refine iff_of_true ⟨_, long, _, rfl, rfl⟩ fun second => ?_
        have other := first.symm.trans second.2
        contradiction
      · by_cases second : data.getD 6 0 = 3
        · rw [if_pos type, if_neg first, if_pos second, if_pos rfl]
          constructor
          · rintro ⟨_, _, buf, made, -⟩ -
            by_contra short
            rw [suffixOf, if_pos (by omega)] at made
            cases made
          · intro echoed
            obtain ⟨suffix, copied, -⟩ := suffixOf_ok (echoed ⟨type, second⟩)
            rw [copied]
            exact ⟨_, long, _, rfl, rfl⟩
        · rw [if_pos type, if_neg first, if_neg second]
          exact iff_of_true ⟨_, long, _, rfl, rfl⟩ fun all => absurd all.2 second
    · rw [if_neg type]
      exact iff_of_true ⟨_, long, _, rfl, rfl⟩ fun all => absurd all.1 type
  · refine iff_of_false (by rintro ⟨_, right, _⟩; exact long right) fun inside => ?_
    have all := (inside ⟨0, 164, 164⟩
      (List.mem_append_right _ (by rw [if_neg fun short => long (.inl short)]; simp))).2.1
    push_cast at all
    omega

theorem requestHandleFpsetup_answer {ρ : Type} (crypto : RaopCrypto) (server : RaopServer)
    (conn : RaopConn ρ) {granted : Bool} {response : Option Bytes} {data : Bytes}
    (made : fairplaySetup granted response data data.length = .ok (crypto.fairplaySetup data)) :
    requestHandleFpsetup crypto server conn (some data) = do
      let answer ← fpsetupAnswer granted response server.message3 (some data)
      let reply ← answer.sent
      return .plain { server with message3 := answer.message3 } conn [] reply := by
  unfold requestHandleFpsetup fpsetupAnswer fpsetupReply
  simp only [made]
  by_cases short : data.length = 16
  · simp only [if_pos short]
    cases crypto.fairplaySetup data <;> rfl
  · simp only [if_neg short]
    cases crypto.fairplaySetup data <;> cases copyFrom data 0 164 <;> rfl

theorem requestHandleFpsetup_inside {ρ : Type} {crypto : RaopCrypto} {server : RaopServer}
    {conn : RaopConn ρ} {response : Option Bytes} {data : Bytes} {out : Handling ρ}
    (listed : data.getD 5 0 = 1 → data.getD 6 0 = 1 → data.getD 14 0 < 4)
    (made : fairplaySetup true response data data.length = .ok (crypto.fairplaySetup data))
    (handled : requestHandleFpsetup crypto server conn (some data) = .ok out) :
    ∀ c ∈ fpsetupCopies data, c.Inside data.length := by
  rw [requestHandleFpsetup_answer crypto server conn made] at handled
  obtain ⟨answer, answered, -⟩ := bind_ok handled
  exact (fpsetupAnswer_succeeds listed).mp ⟨answer, answered⟩

/-- The reply is as long as its buffer, and everything read is there, just for the expected
messages. -/
theorem fpsetupSound_iff (body : Option Bytes) :
    FpsetupSound body ↔ ∃ data ∈ body, FpsetupExpected data := by
  cases body with
  | none =>
      refine iff_of_false (fun sound => ?_) (by rintro ⟨_, ⟨⟩, _⟩)
      obtain ⟨_, ⟨⟩, _⟩ := sound true none []
  | some data =>
      rw [fpsetupSound_some]
      simp only [Option.mem_some_iff, exists_eq_left']
      refine and_congr_right fun long => ?_
      have inside : 15 ≤ data.length := by omega
      simp only [fairplaySetup_of_long _ _ inside]
      constructor
      · intro sound type
        simp only [if_pos type] at sound
        by_cases first : data.getD 6 0 = 1
        · obtain ⟨buf, made, sent, _⟩ := sound true none
          rw [if_pos first] at made
          cases replied : replyOf (data.getD 14 0) with
          | error fault =>
              rw [replied] at made
              cases made
          | ok reply =>
              rw [replied] at made
              obtain rfl : some reply = buf := Except.ok.inj made
              obtain ⟨mode, length⟩ := replyOf_ok replied
              have same : fpsetupSize data = 142 := (sent reply rfl).trans length
              have short : data.length = 16 := by
                by_contra other
                rw [fpsetupSize, if_neg other] at same
                cases same
              exact .inl ⟨short, first, mode⟩
        · by_cases second : data.getD 6 0 = 3
          · refine .inr ⟨long.resolve_left fun short => ?_, second⟩
            obtain ⟨buf, made, _⟩ := sound true none
            rw [if_neg first, if_pos second, if_pos rfl, suffixOf, if_pos (by omega)] at made
            cases made
          · -- the variable that nobody wrote may hold any pointer
            obtain ⟨buf, made, _, unknown⟩ := sound true (some [])
            rw [if_neg first, if_neg second] at made
            cases made
            cases unknown fun known => known.2.elim first second
      · intro expected granted response
        by_cases type : data.getD 5 0 = 1
        · rw [if_pos type]
          rcases expected type with ⟨short, first, mode⟩ | ⟨long, second⟩
          · obtain ⟨reply, replied⟩ := replyOf_mode mode
            rw [if_pos first, replied]
            refine ⟨_, rfl, fun block member => ?_,
              fun foreign => absurd ⟨type, .inl first⟩ foreign⟩
            cases granted with
            | false => cases member
            | true =>
                obtain rfl : reply = block := Option.some.inj member
                rw [fpsetupSize, if_pos short, (replyOf_ok replied).2]
          · have other : data.getD 6 0 ≠ 1 := by
              rw [second]
              decide
            rw [if_neg other, if_pos second]
            cases granted with
            | false => exact ⟨none, rfl, by simp, fun _ => rfl⟩
            | true =>
                obtain ⟨suffix, copied, length⟩ := suffixOf_ok (show 20 ≤ data.length by omega)
                rw [if_pos rfl, copied]
                refine ⟨_, rfl, fun block member => ?_,
                  fun foreign => absurd ⟨type, .inr second⟩ foreign⟩
                obtain rfl : fpHeader ++ suffix = block := Option.some.inj member
                rw [fpsetupSize, if_neg (by omega), List.length_append, length]
                rfl
        · rw [if_neg type]
          exact ⟨none, rfl, by simp, fun _ => rfl⟩

/-- The second message in 16 bytes: its end is read from before the body. -/
theorem shortSecond_unsound :
    ¬ FpsetupSound (some [70, 80, 76, 89, 3, 1, 3, 0, 0, 0, 0, 4, 2, 0, 0, 0]) := by
  intro sound
  obtain ⟨_, answered, _⟩ := sound true none []
  cases answered

end AirCast.Raop
