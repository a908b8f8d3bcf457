import AirCast.Raop.RaopHandlers

/-! # What is put into a reply

No assertion of http_response.c fails on a string that is not empty and not too long.
The handlers put only such strings into their replies.  The size of the reply buffer is
not looked at here: its faults may remain. -/

set_option autoImplicit false

namespace AirCast.Raop

open AirCast.Http

variable {δ : Type}

/-! ## Strings for a reply -/

/-- `http_response_add_data` takes the string, its length being an `int` above 0. -/
def Sayable (text : Bytes) : Prop := 0 < text.length ∧ text.length < 2 ^ 31

instance (text : Bytes) : Decidable (Sayable text) := inferInstanceAs (Decidable (_ ∧ _))

/-- A fault of the reply buffer and its size. -/
def StorageFault (fault : Fault) : Prop := fault = .outOfBounds ∨ fault = .signedOverflow

theorem doubleSize_fault {fault : Fault} (needed : ℤ) :
    ∀ (doublings : ℕ) (size : ℤ), doubleSize needed size doublings = .error fault →
      fault = .signedOverflow := by
  intro doublings
  induction doublings with
  | zero =>
      intro size failed
      cases failed
      rfl
  | succ doublings ih =>
      intro size failed
      unfold doubleSize at failed
      split at failed
      · split at failed
        · cases failed
          rfl
        · exact ih _ failed
      · cases failed

theorem addData_sayable {response : HttpResponse} {piece : Bytes} {fault : Fault}
    (sayable : Sayable piece)
    (failed : httpResponseAddData response piece (toInt piece.length) = .error fault) :
    StorageFault fault := by
  unfold httpResponseAddData at failed
  have positive : ¬ ((piece.length : ℕ) : ℤ) ≤ 0 := by
    have := sayable.1
    omega
  rw [toInt_length sayable.2, if_neg positive] at failed
  split at failed
  · cases failed
    exact Or.inr rfl
  · split at failed
    · rename_i doubling
      cases failed
      exact Or.inr (doubleSize_fault _ _ _ doubling)
    · dsimp only at failed
      generalize MemoryBlock.store _ _ _ = stored at failed
      cases stored with
      | none =>
          cases failed
          exact Or.inl rfl
      | some block => cases failed

theorem addAll_sayable {fault : Fault} (pieces : List Bytes) :
    ∀ response, (∀ piece ∈ pieces, Sayable piece) → addAll response pieces = .error fault →
      StorageFault fault := by
  induction pieces with
  | nil => intro response _ failed; cases failed
  | cons piece rest ih =>
      intro response sayable failed
      obtain ⟨first, later⟩ := List.forall_mem_cons.mp sayable
      unfold addAll at failed
      cases added : httpResponseAddData response piece (toInt piece.length) with
      | error other =>
          rw [added] at failed
          cases failed
          exact addData_sayable first added
      | ok next =>
          rw [added] at failed
          exact ih next later failed

/-- All of the reply can be added. -/
structure SayableReply (reply : Reply) : Prop where
  code : 100 ≤ reply.code ∧ reply.code < 1000
  protocol : Sayable reply.protocol.chars
  message : Sayable reply.message.chars
  headers : ∀ header ∈ reply.headers, Sayable header.1.chars ∧ Sayable header.2.chars
  body : reply.body.length < 2 ^ 31

theorem nulFree_repr (n : ℕ) : (0 : UInt8) ∉ bytesOf (toString n) := by
  intro member
  obtain ⟨c, digit, zero⟩ := List.mem_map.mp member
  rw [Nat.toString_eq_repr, Nat.toList_repr] at digit
  have isDigit := Nat.isDigit_of_mem_toDigits (by decide) (by decide) digit
  simp only [Char.isDigit, Bool.and_eq_true, decide_eq_true_eq] at isDigit
  have low := isDigit.1
  have high := isDigit.2
  have value : c.toUInt8.toNat = c.toNat % 256 := UInt32.toNat_toUInt8 c.val
  rw [zero] at value
  have lowNat : 48 ≤ c.toNat := low
  have highNat : c.toNat ≤ 57 := high
  simp at value
  omega

theorem sayable_decimal {n : ℕ} (small : n < 2 ^ 31) : Sayable (decimal n).chars := by
  have chars : (decimal n).chars.length = n.repr.length := by
    rw [decimal, CString.lit_chars _ (nulFree_repr n)]
    simp [bytesOf, Nat.repr_eq_ofList_toDigits]
  rw [Sayable, chars]
  refine ⟨Nat.length_repr_pos, ?_⟩
  have short : n.repr.length ≤ 10 := (Nat.length_repr_le_iff (by decide)).mpr (by omega)
  omega

theorem pieces_sayable {reply : Reply} (sayable : SayableReply reply) :
    ∀ piece ∈ reply.pieces, Sayable piece := by
  have status : Sayable (decimal reply.code.toNat).chars :=
    sayable_decimal (by have := sayable.code; omega)
  have head : ∀ piece ∈ initPieces reply.protocol reply.code reply.message, Sayable piece := by
    simp only [initPieces, List.forall_mem_cons]
    exact ⟨sayable.protocol, by decide, status, by decide, sayable.message, by decide, by simp⟩
  have headers : ∀ piece ∈ reply.headers.flatMap headerPieces, Sayable piece := by
    intro piece member
    obtain ⟨header, listed, member⟩ := List.mem_flatMap.mp member
    obtain ⟨name, value⟩ := sayable.headers header listed
    simp only [headerPieces, List.mem_cons, List.not_mem_nil, or_false] at member
    rcases member with rfl | rfl | rfl | rfl
    · exact name
    · decide
    · exact value
    · decide
  have tail : ∀ piece ∈ finishPieces reply.body, Sayable piece := by
    unfold finishPieces
    split
    · simp only [List.forall_mem_cons]
      exact ⟨by decide, by simp⟩
    · rename_i present
      simp only [List.forall_mem_cons]
      exact ⟨by decide, by decide, sayable_decimal sayable.body, by decide,
        ⟨List.length_pos_iff.mpr present, sayable.body⟩, by simp⟩
  intro piece member
  rw [Reply.pieces, List.mem_append, List.mem_append] at member
  rcases member with (member | member) | member
  · exact head piece member
  · exact headers piece member
  · exact tail piece member

theorem buildReply_sayable {reply : Reply} (sayable : SayableReply reply) {fault : Fault}
    (failed : buildReply reply = .error fault) : StorageFault fault := by
  rw [buildReply_eq reply sayable.code sayable.body] at failed
  cases added : addAll freshResponse reply.pieces with
  | error other =>
      rw [added] at failed
      cases failed
      exact addAll_sayable _ _ (pieces_sayable sayable) added
  | ok response =>
      rw [added] at failed
      cases failed

/-! ## What the handlers put into a reply -/

/-- The functions of other files keep to their sizes. -/
structure RtspPlatform (δ : Type) extends RtspEnv δ where
  dateSays : Sayable date.chars
  xmlToBinShort : ∀ text, (xmlToBin text).length < 2 ^ 31
  publicKeyLength : crypto.gEdPublicKey.length = 32
  curve25519Length : ∀ secret base, (crypto.curve25519Donna secret base).length = 32
  signatureLength : ∀ message pub pri, (crypto.ed25519Sign message pub pri).length = 64
  ctrLength : ∀ ctr data, (crypto.ctr128Encrypt ctr data).2.length = data.length

def SayableHeaders (headers : List (CString × CString)) : Prop :=
  ∀ header ∈ headers, Sayable header.1.chars ∧ Sayable header.2.chars

instance (headers : List (CString × CString)) : Decidable (SayableHeaders headers) :=
  inferInstanceAs (Decidable (∀ _ ∈ _, _))

def SayableHandling {ρ : Type} (out : Handling ρ) : Prop :=
  SayableHeaders out.headers ∧ out.responseData.length < 2 ^ 31

theorem sayable_ofBytes {text : Bytes} {c : UInt8} (starts : text.head? = some c) (visible : c ≠ 0)
    (short : text.length < 2 ^ 31) : Sayable (CString.ofBytes text).chars := by
  have whole : (CString.ofBytes text).chars.length ≤ text.length :=
    (List.takeWhile_sublist _).length_le
  refine ⟨?_, by omega⟩
  obtain ⟨rest, rfl⟩ := List.head?_eq_some_iff.mp starts
  change 0 < ((c :: rest).takeWhile (fun x => decide (x ≠ 0))).length
  rw [List.takeWhile_cons, if_pos (by simpa using visible)]
  simp

theorem sayable_lit {start rest : String} {c : UInt8} (starts : (bytesOf start).head? = some c)
    (visible : c ≠ 0) (short : (start ++ rest).length < 2 ^ 31) :
    Sayable (CString.lit (start ++ rest)).chars := by
  have text : bytesOf (start ++ rest) = bytesOf start ++ bytesOf rest := by
    simp [bytesOf, String.toList_append]
  have size : (bytesOf (start ++ rest)).length = (start ++ rest).length := by
    rw [bytesOf, List.length_map, String.length_toList]
  refine sayable_ofBytes ?_ visible (size ▸ short)
  rw [text, List.head?_append, starts]
  rfl

theorem port_length (port : BitVec 16) : (toString port.toNat).length ≤ 5 := by
  have bound := port.isLt
  exact (Nat.length_repr_le_iff (by decide)).mpr (by omega)

section Handlers

variable {env : RtspPlatform δ} {server : RaopServer} {conn : RaopConn (RaopRtp δ)}
  {request : HttpRequest}

theorem plain_says (headers : List (CString × CString)) (responseData : Bytes)
    (said : SayableHeaders headers) (short : responseData.length < 2 ^ 31) :
    SayableHandling (.plain server conn headers responseData) :=
  ⟨said, short⟩

theorem silent_says {out : Handling (RaopRtp δ)} (noHeader : out.headers = [])
    (noData : out.responseData = []) : SayableHandling out := by
  rw [SayableHandling, noHeader, noData]
  exact ⟨by simp [SayableHeaders], by decide⟩

theorem pairverify_says {body : Option Bytes} {out : Handling (RaopRtp δ)}
    (handled : requestHandlePairverify env.crypto server conn env.seed body = .ok out) :
    SayableHandling out := by
  cases body with
  | none => cases handled
  | some bytes =>
      cases bytes with
      | nil => cases handled
      | cons step rest =>
          change (if step = 1 then pairverifyFirst env.crypto server conn env.seed (step :: rest)
            else pairverifySecond env.crypto server conn (step :: rest)) = .ok out at handled
          split at handled
          · unfold pairverifyFirst at handled
            obtain ⟨his, -, handled⟩ := bind_ok handled
            obtain ⟨ed, -, handled⟩ := bind_ok handled
            cases Except.ok.inj handled
            have typed : SayableHeaders [octetStream] := by decide
            refine ⟨typed, ?_⟩
            simp only [Handling.plain, firstMessage, List.length_append, env.curve25519Length,
              env.ctrLength, env.signatureLength]
            decide
          · unfold pairverifySecond at handled
            obtain ⟨sig, -, handled⟩ := bind_ok handled
            cases Except.ok.inj handled
            refine ⟨?_, by simp [Handling.plain]⟩
            simp only [Handling.plain]
            split
            · decide
            · decide

theorem fpsetup_says {body : Option Bytes} {out : Handling (RaopRtp δ)}
    (handled : requestHandleFpsetup env.crypto server conn body = .ok out) :
    SayableHandling out := by
  have short : ∀ {data reply : Bytes} {size : ℕ}, fpsetupReply env.crypto data size = .ok reply →
      reply.length ≤ size := by
    intro data reply size sent
    unfold fpsetupReply copyFrom at sent
    split at sent
    · cases sent
      exact Nat.zero_le _
    · split at sent
      · cases sent
        exact List.length_take_le _ _
      · cases sent
  cases body with
  | none => cases handled
  | some data =>
      unfold requestHandleFpsetup at handled
      dsimp only at handled
      split at handled
      · obtain ⟨reply, sent, handled⟩ := bind_ok handled
        cases Except.ok.inj handled
        have bound := short sent
        exact plain_says _ _ (by simp [SayableHeaders]) (by omega)
      · obtain ⟨message3, -, handled⟩ := bind_ok handled
        obtain ⟨reply, sent, handled⟩ := bind_ok handled
        cases Except.ok.inj handled
        have bound := short sent
        exact plain_says _ _ (by simp [SayableHeaders]) (by omega)

theorem announce_says {out : Handling (RaopRtp δ)}
    (handled : requestHandleAnnounce env.toRtspEnv server conn request = .ok out) :
    SayableHandling out := by
  unfold requestHandleAnnounce at handled
  split at handled
  · cases handled
    exact silent_says rfl rfl
  · unfold announceSdp at handled
    dsimp only at handled
    split at handled
    · cases handled
    · obtain ⟨key, -, handled⟩ := bind_ok handled
      obtain ⟨opened, -, handled⟩ := bind_ok handled
      cases Except.ok.inj handled
      exact silent_says rfl rfl

theorem setupReply_says (reply : SetupReply) :
    SayableHeaders reply.headers ∧ (reply.responseData env.toSetupEnv).length < 2 ^ 31 := by
  constructor
  · unfold SetupReply.headers
    split
    · decide
    · decide
  · unfold SetupReply.responseData
    split
    · decide
    · exact env.xmlToBinShort _

theorem setupTransport_says (transport : CString) :
    SayableHandling (setupTransport env.toSetupEnv conn server transport) := by
  refine ⟨?_, by simp [setupTransport, Handling.plain]⟩
  simp only [setupTransport, Handling.plain, SayableHeaders, List.forall_mem_cons]
  refine ⟨⟨by decide, ?_⟩, by decide, by decide, by simp⟩
  generalize ((Option.map _ conn.raopRtp).bind Prod.snd).getD _ = ports
  have timing := port_length ports.timing
  have control := port_length ports.control
  have data := port_length ports.data
  split
  · simp only [String.append_assoc]
    refine sayable_lit (c := 82) (by decide) (by decide) ?_
    simp only [String.length_append]
    have first : "RTP/AVP/UDP;unicast;mode=record;timing_port=".length = 44 := by decide
    have second : ";events;control_port=".length = 21 := by decide
    have third : ";server_port=".length = 13 := by decide
    omega
  · refine sayable_lit (c := 82) (by decide) (by decide) ?_
    simp only [String.length_append]
    have first : "RTP/AVP/TCP;unicast;interleaved=0-1;mode=record;server_port=".length = 60 := by
      decide
    omega

theorem setup_says {out : Handling (RaopRtp δ)}
    (handled : requestHandleSetup env.toSetupEnv server conn request = .ok out) :
    SayableHandling out := by
  unfold requestHandleSetup setupRequest at handled
  obtain ⟨done, set, handled⟩ := bind_ok handled
  cases Except.ok.inj handled
  split at set
  · unfold setupPlist at set
    obtain ⟨dict, -, set⟩ := bind_ok set
    split at set
    · obtain ⟨reached, -, set⟩ := bind_ok set
      cases Except.ok.inj set
      exact setupReply_says reached.2
    · cases Except.ok.inj set
      exact silent_says rfl rfl
  · split at set
    · cases set
    · cases Except.ok.inj set
      exact setupTransport_says _

theorem setparameter_says {index : ℤ} {out : Handling (RaopRtp δ)}
    (handled : requestHandleSetparameter env.toRtspEnv server conn request index = .ok out) :
    SayableHandling out := by
  unfold requestHandleSetparameter at handled
  obtain ⟨range, -, handled⟩ := bind_ok handled
  split at handled
  · cases handled
  · split at handled
    · cases Except.ok.inj handled
      exact silent_says rfl rfl
    · obtain ⟨rtp, -, handled⟩ := bind_ok handled
      cases Except.ok.inj handled
      exact silent_says rfl rfl

theorem teardown_says {out : Handling (RaopRtp δ)}
    (handled : requestHandleTeardown env.toRtspEnv server conn request = .ok out) :
    SayableHandling out := by
  unfold requestHandleTeardown at handled
  obtain ⟨nType, -, handled⟩ := bind_ok handled
  split at handled
  · cases Except.ok.inj handled
    exact silent_says rfl rfl
  · split at handled
    · cases Except.ok.inj handled
      exact silent_says rfl rfl
    · split at handled
      · cases Except.ok.inj handled
        exact silent_says rfl rfl
      · cases Except.ok.inj handled
        exact silent_says rfl rfl

theorem pairsetup_says (body : Option Bytes) :
    SayableHandling (requestHandlePairsetup env.crypto server conn body) := by
  have typed : SayableHeaders [octetStream] := by decide
  refine ⟨typed, ?_⟩
  simp only [requestHandlePairsetup, Handling.plain, env.publicKeyLength]
  decide

/-- A display size of `raop_t` is an `int`. -/
structure IntSized (server : RaopServer) : Prop where
  height : -2 ^ 31 ≤ server.height ∧ server.height < 2 ^ 31
  width : -2 ^ 31 ≤ server.width ∧ server.width < 2 ^ 31

theorem int_length {value : ℤ} (sized : -2 ^ 31 ≤ value ∧ value < 2 ^ 31) :
    (toString value).length ≤ 11 := by
  have digits : ∀ n : ℕ, n ≤ 2 ^ 31 → n.repr.length ≤ 10 := fun n small =>
    (Nat.length_repr_le_iff (by decide)).mpr (by omega)
  cases value with
  | ofNat n =>
      have small := digits n (by have := sized.2; simp only [Int.ofNat_eq_natCast] at this; omega)
      exact le_trans small (by decide)
  | negSucc n =>
      have small := digits (n + 1) (by have := sized.1; rw [Int.negSucc_eq] at this; omega)
      change ("-" ++ (n + 1).repr).length ≤ 11
      rw [String.length_append]
      exact Nat.add_le_add (show "-".length ≤ 1 by decide) small

theorem streamXml_length (height width : ℤ) :
    (streamXml height width).length + 2 =
      (streamXml 0 0).length + (toString height).length + (toString width).length := by
  have zero : (toString (0 : ℤ)).length = 1 := by decide
  simp only [streamXml, bytesOf, List.length_map, String.length_toList, String.length_append, zero]
  omega

theorem streamXml_zero : (streamXml 0 0).length < 1000 := by
  simp only [streamXml, bytesOf, List.length_map, String.length_toList, String.length_append]
  decide

theorem streamXml_short (sized : IntSized server) :
    (streamXml server.height server.width).length < 2 ^ 31 := by
  have height := int_length sized.height
  have width := int_length sized.width
  have around := streamXml_zero
  rw [← Nat.add_lt_add_iff_right (k := 2), streamXml_length]
  generalize (streamXml 0 0).length = base at around ⊢
  omega

theorem streamxml_says (sized : IntSized server) :
    SayableHandling (requestHandleStreamxml server conn) := by
  have typed : SayableHeaders [(.lit "Content-Type", .lit "text/x-apple-plist+xml")] := by
    decide
  unfold requestHandleStreamxml
  exact plain_says _ _ typed (streamXml_short sized)

/-- Whatever a handler puts into its reply can be added to it. -/
theorem runHandler_says {index : ℤ} {handler : RequestHandler} {out : Handling (RaopRtp δ)}
    (sized : IntSized server) (short : (httpRequestGetData request).2 < 2 ^ 31)
    (handled : runHandler env.raopEnv server conn request index handler = .ok out) :
    SayableHandling out := by
  cases handler with
  | pairsetup =>
      cases Except.ok.inj handled
      exact pairsetup_says _
  | pairverify => exact pairverify_says handled
  | fpsetup => exact fpsetup_says handled
  | authsetup =>
      cases Except.ok.inj handled
      exact plain_says _ _ (by simp [SayableHeaders]) short
  | info =>
      cases Except.ok.inj handled
      exact plain_says _ _ (by simp [SayableHeaders]) (env.xmlToBinShort _)
  | streamxml =>
      cases Except.ok.inj handled
      exact streamxml_says sized
  | announce => exact announce_says handled
  | setup => exact setup_says handled
  | setparameter => exact setparameter_says handled
  | flush =>
      cases Except.ok.inj handled
      exact silent_says rfl rfl
  | teardown => exact teardown_says handled
  | options =>
      cases Except.ok.inj handled
      exact plain_says _ _ (by decide +kernel) (by decide)
  | record =>
      cases Except.ok.inj handled
      exact plain_says _ _ (by decide) (by decide)
  | getparameter =>
      cases Except.ok.inj handled
      exact plain_says _ _ (by decide) (by decide)
  | feedback =>
      cases Except.ok.inj handled
      have typed : SayableHeaders [octetStream] := by decide
      exact ⟨typed, by simp [requestHandleFeedback, Handling.plain]⟩

end Handlers

end AirCast.Raop
