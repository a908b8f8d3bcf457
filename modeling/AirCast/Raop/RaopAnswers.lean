import AirCast.Lib.Transducer
import AirCast.Raop.RaopReadiness
import AirCast.Raop.RaopReplies

/-! # Requests that are answered

A request is answered where the comparisons of `conn_request` have a URL to look at, its
handler comes to its end, and no empty string goes into the reply.  Display sizes and
nonce stay as they were made, so that this holds along runs of any number of
connections. -/

set_option autoImplicit false

namespace AirCast.Raop

open AirCast.Http

variable {δ : Type}

/-! ## What no handler changes -/

def settings {ρ : Type} (server : RaopServer) (conn : RaopConn ρ) : ℤ × ℤ × CString :=
  (server.height, server.width, conn.nonce)

section Settings

variable {env : RtspEnv δ} {server : RaopServer} {conn : RaopConn (RaopRtp δ)}
  {request : HttpRequest}

theorem setupIv_nonce {ready : RaopConn (RaopRtp δ)} {eiv : Option Bytes}
    (copied : setupIv conn eiv = .ok ready) : ready.nonce = conn.nonce := by
  cases eiv with
  | none =>
      cases Except.ok.inj copied
      rfl
  | some iv =>
      unfold setupIv at copied
      dsimp only at copied
      split at copied
      · cases Except.ok.inj copied
        rfl
      · cases copied

theorem setupKey_nonce (crypto : RaopCrypto) (ekey : Bytes) :
    (setupKey crypto server conn ekey).nonce = conn.nonce := by
  unfold setupKey
  split
  · split <;> rfl
  · rfl

theorem setStreamKeys_settings {version : ℚ} {out after : SetupOutcome δ} {id : Option Plist}
    (set : setStreamKeys env.toSetupEnv version out id = .ok after) :
    settings after.server after.conn = settings out.server out.conn := by
  unfold setStreamKeys at set
  split at set
  · obtain ⟨value, -, set⟩ := bind_ok set
    cases Except.ok.inj set
    rfl
  · split at set
    · cases Except.ok.inj set
      rfl
    · cases Except.ok.inj set
      rfl

theorem openEventPort_settings (out : SetupOutcome δ) :
    settings (openEventPort env.toSetupEnv out).server (openEventPort env.toSetupEnv out).conn =
      settings out.server out.conn := by
  unfold openEventPort
  split
  · rfl
  · split <;> rfl

theorem openSession_settings {out after : SetupOutcome δ} {controlPort audioFormat : ℕ}
    (opened : openSession env.toSetupEnv out controlPort audioFormat = .ok after) :
    settings after.server after.conn = settings out.server out.conn := by
  unfold openSession at opened
  obtain ⟨rtp, -, opened⟩ := bind_ok opened
  cases rtp with
  | none =>
      cases Except.ok.inj opened
      rfl
  | some rtp =>
      dsimp only at opened
      split at opened
      · cases Except.ok.inj opened
        rfl
      · cases Except.ok.inj opened
        rfl

theorem setupStream_settings {version : ℚ} {out after : SetupOutcome δ} {item : Plist}
    (set : setupStream env.toSetupEnv version out item = .ok after) :
    settings after.server after.conn = settings out.server out.conn := by
  unfold setupStream at set
  obtain ⟨nType, -, set⟩ := bind_ok set
  obtain ⟨keyed, keys, set⟩ := bind_ok set
  have same := setStreamKeys_settings keys
  split at set
  · unfold setupAudio at set
    obtain ⟨controlPort, -, set⟩ := bind_ok set
    obtain ⟨audioFormat, -, set⟩ := bind_ok set
    obtain ⟨spf, -, set⟩ := bind_ok set
    obtain ⟨screen, -, set⟩ := bind_ok set
    obtain ⟨opened, session, set⟩ := bind_ok set
    cases Except.ok.inj set
    exact (openEventPort_settings _).trans ((openSession_settings session).trans same)
  · split at set
    · cases Except.ok.inj set
      exact (openEventPort_settings _).trans same
    · cases Except.ok.inj set
      exact same

theorem setupStreams_settings {version : ℚ} (streams : List Plist) :
    ∀ {out after : SetupOutcome δ},
      streams.foldlM (setupStream env.toSetupEnv version) out = .ok after →
        settings after.server after.conn = settings out.server out.conn := by
  induction streams with
  | nil =>
      intro out after set
      cases Except.ok.inj set
      rfl
  | cons item rest ih =>
      intro out after set
      rw [List.foldlM_cons] at set
      obtain ⟨next, first, set⟩ := bind_ok set
      exact (ih set).trans (setupStream_settings first)

theorem setup_settings {out : Handling (RaopRtp δ)}
    (handled : requestHandleSetup env.toSetupEnv server conn request = .ok out) :
    settings out.server out.conn = settings server conn := by
  unfold requestHandleSetup setupRequest at handled
  obtain ⟨done, set, handled⟩ := bind_ok handled
  cases Except.ok.inj handled
  split at set
  · unfold setupPlist at set
    obtain ⟨dict, -, set⟩ := bind_ok set
    split at set
    · obtain ⟨reached, keyed, set⟩ := bind_ok set
      cases Except.ok.inj set
      unfold setupDict at keyed
      obtain ⟨ready, copied, keyed⟩ := bind_ok keyed
      obtain ⟨last, streams, keyed⟩ := bind_ok keyed
      cases Except.ok.inj keyed
      refine (setupStreams_settings _ streams).trans ?_
      simp only [settings, setupKey_nonce, setupIv_nonce copied]
    · cases Except.ok.inj set
      rfl
  · split at set
    · cases set
    · cases Except.ok.inj set
      rfl

theorem announce_settings {out : Handling (RaopRtp δ)}
    (handled : requestHandleAnnounce env server conn request = .ok out) :
    settings out.server out.conn = settings server conn := by
  unfold requestHandleAnnounce at handled
  split at handled
  · cases handled
    rfl
  · unfold announceSdp at handled
    dsimp only at handled
    split at handled
    · cases handled
    · obtain ⟨key, -, handled⟩ := bind_ok handled
      obtain ⟨opened, -, handled⟩ := bind_ok handled
      cases Except.ok.inj handled
      rfl

theorem setparameter_settings {index : ℤ} {out : Handling (RaopRtp δ)}
    (handled : requestHandleSetparameter env server conn request index = .ok out) :
    settings out.server out.conn = settings server conn := by
  unfold requestHandleSetparameter at handled
  obtain ⟨range, -, handled⟩ := bind_ok handled
  split at handled
  · cases handled
  · split at handled
    · cases Except.ok.inj handled
      rfl
    · obtain ⟨rtp, -, handled⟩ := bind_ok handled
      cases Except.ok.inj handled
      rfl

theorem teardown_settings {out : Handling (RaopRtp δ)}
    (handled : requestHandleTeardown env server conn request = .ok out) :
    settings out.server out.conn = settings server conn := by
  unfold requestHandleTeardown at handled
  obtain ⟨nType, -, handled⟩ := bind_ok handled
  split at handled
  · cases Except.ok.inj handled
    rfl
  · split at handled
    · cases Except.ok.inj handled
      rfl
    · split at handled
      · cases Except.ok.inj handled
        rfl
      · cases Except.ok.inj handled
        rfl

theorem pairverify_settings {body : Option Bytes} {out : Handling (RaopRtp δ)}
    (handled : requestHandlePairverify env.crypto server conn env.seed body = .ok out) :
    settings out.server out.conn = settings server conn := by
  cases body with
  | none => cases handled
  | some bytes =>
      cases bytes with
      | nil => cases handled
      | cons step rest =>
          change (if step = 1 then pairverifyFirst env.crypto server conn env.seed (step :: rest)
            else pairverifySecond env.crypto server conn (step :: rest)) = .ok out at handled
          split at handled
          · unfold pairverifyFirst at handled
            obtain ⟨his, -, handled⟩ := bind_ok handled
            obtain ⟨ed, -, handled⟩ := bind_ok handled
            cases Except.ok.inj handled
            rfl
          · unfold pairverifySecond at handled
            obtain ⟨sig, -, handled⟩ := bind_ok handled
            cases Except.ok.inj handled
            rfl

theorem fpsetup_settings {body : Option Bytes} {out : Handling (RaopRtp δ)}
    (handled : requestHandleFpsetup env.crypto server conn body = .ok out) :
    settings out.server out.conn = settings server conn := by
  cases body with
  | none => cases handled
  | some data =>
      unfold requestHandleFpsetup at handled
      dsimp only at handled
      split at handled
      · obtain ⟨reply, -, handled⟩ := bind_ok handled
        cases Except.ok.inj handled
        rfl
      · obtain ⟨message3, -, handled⟩ := bind_ok handled
        obtain ⟨reply, -, handled⟩ := bind_ok handled
        cases Except.ok.inj handled
        rfl

theorem runHandler_settings {index : ℤ} {handler : RequestHandler} {out : Handling (RaopRtp δ)}
    (handled : runHandler env.raopEnv server conn request index handler = .ok out) :
    settings out.server out.conn = settings server conn := by
  cases handler with
  | pairverify => exact pairverify_settings handled
  | fpsetup => exact fpsetup_settings handled
  | announce => exact announce_settings handled
  | setup => exact setup_settings handled
  | setparameter => exact setparameter_settings handled
  | teardown => exact teardown_settings handled
  | pairsetup | authsetup | info | streamxml | options | flush | record | getparameter
  | feedback =>
      cases Except.ok.inj handled
      rfl

end Settings

/-! ## The password -/

/-- The header has all five fields, and the realm and the nonce are ours. -/
def ClaimsRealm (nonce : CString) (authorization : CString) : Prop :=
  ∃ header username uri response, after "Digest" authorization.chars = some header ∧
    digestFields header =
      ⟨some username, some realm.chars, some nonce.chars, some uri, some response⟩

theorem digestIsValid_succeeds (md5 : Bytes → Bytes) (password method : CString) {nonce : CString}
    {ourUri : Option Bytes} {authorization : Option CString}
    (located : ∀ header ∈ authorization, ClaimsRealm nonce header → ourUri.isSome) :
    ∃ valid, digestIsValid md5 realm password nonce method ourUri authorization = .ok valid := by
  unfold digestIsValid
  split
  · exact ⟨false, rfl⟩
  · rename_i authorization
    split
    · exact ⟨false, rfl⟩
    · rename_i header digest
      split
      · rename_i username theirRealm theirNonce uri response fields
        split
        · exact ⟨false, rfl⟩
        · rename_i ours
          obtain ⟨sameRealm, sameNonce⟩ := not_or.mp ours
          have needed := located authorization rfl ⟨header, username, uri, response, digest, by
            rw [fields, not_not.mp sameRealm, not_not.mp sameNonce]⟩
          obtain ⟨ourUri, rfl⟩ := Option.isSome_iff_exists.mp needed
          dsimp only
          split
          · exact ⟨false, rfl⟩
          · exact ⟨_, rfl⟩
      · exact ⟨false, rfl⟩

section Request

variable (env : RtspPlatform δ) (server : RaopServer) (conn : RaopConn (RaopRtp δ))
  (request : HttpRequest) (index : ℤ)

/-- What a request with a method needs for its reply. -/
structure MethodAnswerable (method : CString) : Prop where
  authorization : method ≠ .lit "OPTIONS" → server.password.strlen ≠ 0 →
    ∀ header ∈ httpRequestGetHeader request (.lit "Authorization") 1,
      ClaimsRealm conn.nonce header → (httpRequestGetUrl request 1).join.isSome
  uri : method = .lit "POST" ∨ method = .lit "GET" → (httpRequestGetUrl request index).join.isSome
  handler : ∀ handler,
    selectHandler method (httpRequestGetUrl request index).join = .ok (some handler) →
      HandlerReady env.toRtspEnv conn request index handler
  cseq : ∀ cseq ∈ httpRequestGetHeader request (.lit "CSeq") index, Sayable cseq.chars
  challenge : requireAuth env.raopEnv server conn request method = .ok false →
    ∀ challenge ∈ httpRequestGetHeader request (.lit "Apple-Challenge") index,
      Sayable (env.rsakeySign challenge conn.localAddress server.hwaddr).chars

/-- What `conn_request` needs: a URL, a body whose length is an `int`, and the needs of the
method, if there is one. -/
structure Answerable : Prop where
  url : request.content.url.isSome
  body : (httpRequestGetData request).2 < 2 ^ 31
  method : ∀ method ∈ httpRequestGetMethod request,
    MethodAnswerable env server conn request index method

/-- A request with a method gets a reply.  No assertion fails, nothing is read where there
is none, and nothing is read that was not written; the reply may be too long for its
buffer. -/
def Completes {ρ : Type} (request : HttpRequest) (out : Except Fault (Exchange ρ)) : Prop :=
  ∃ exchange, out = .ok exchange ∧
    ((httpRequestGetMethod request).isSome → exchange.response.isSome) ∧
      ∀ fault, exchange.response = some (.error fault) → StorageFault fault

/-- The state as it was made: display sizes are `int`s, and the nonce is short. -/
structure Prepared {ρ : Type} (server : RaopServer) (conn : RaopConn ρ) : Prop where
  sized : IntSized server
  nonce : conn.nonce.strlen ≤ 32

theorem Prepared.kept {ρ : Type} {before after : RaopServer} {conn next : RaopConn ρ}
    (prepared : Prepared before conn) (same : settings after next = settings before conn) :
    Prepared after next := by
  simp only [settings, Prod.mk.injEq] at same
  obtain ⟨height, width, nonce⟩ := same
  exact ⟨⟨height ▸ prepared.sized.height, width ▸ prepared.sized.width⟩, nonce ▸ prepared.nonce⟩

variable {env server conn request index}

theorem authString_sayable {nonce : CString} (short : nonce.strlen ≤ 32) :
    Sayable (authString nonce).chars := by
  have size : nonce.chars.length ≤ 32 := short
  refine sayable_ofBytes (c := 68) rfl (by decide) ?_
  have first : (bytesOf "Digest realm=\"").length = 14 := by decide
  have ours : realm.chars.length = 7 := by decide
  have second : (bytesOf "\", nonce=\"").length = 10 := by decide
  have last : (bytesOf "\"").length = 1 := by decide
  simp only [List.length_append, first, ours, second, last]
  omega

theorem requireAuth_succeeds {method : CString} (url : request.content.url.isSome)
    (answerable : MethodAnswerable env server conn request index method) :
    ∃ required, requireAuth env.raopEnv server conn request method = .ok required := by
  unfold requireAuth
  split
  · rename_i gated
    obtain ⟨text, located⟩ := Option.isSome_iff_exists.mp url
    have first : httpRequestGetUrl request 1 = some (strtokNth lf 0 text.chars) := by
      rw [httpRequestGetUrl, located]
      rfl
    have needed := answerable.authorization gated.1 gated.2
    rw [first] at needed
    obtain ⟨valid, checked⟩ := digestIsValid_succeeds env.md5 server.password method needed
    refine ⟨!valid, ?_⟩
    rw [authorizationValid, first]
    exact congrArg (· >>= fun valid => pure (!valid)) checked
  · exact ⟨false, rfl⟩

theorem selectHandler_succeeds {method : CString} {uri : Option Bytes}
    (located : method = .lit "POST" ∨ method = .lit "GET" → uri.isSome) :
    ∃ handler, selectHandler method uri = .ok handler := by
  unfold selectHandler
  split
  · rename_i post
    obtain ⟨token, rfl⟩ := Option.isSome_iff_exists.mp (located (Or.inl post))
    exact ⟨_, rfl⟩
  · split
    · rename_i get
      obtain ⟨token, rfl⟩ := Option.isSome_iff_exists.mp (located (Or.inr get))
      exact ⟨_, rfl⟩
    · exact ⟨_, rfl⟩

theorem runSelected_succeeds (selected : Option RequestHandler) (sized : IntSized server)
    (short : (httpRequestGetData request).2 < 2 ^ 31)
    (ready : ∀ handler ∈ selected, HandlerReady env.toRtspEnv conn request index handler) :
    ∃ out, runSelected env.raopEnv server conn request index selected = .ok out ∧
      SayableHandling out ∧ settings out.server out.conn = settings server conn := by
  cases selected with
  | none => exact ⟨_, rfl, silent_says rfl rfl, rfl⟩
  | some handler =>
      obtain ⟨out, handled⟩ := (runHandler_succeeds index handler).mpr (ready handler rfl)
      exact ⟨out, handled, runHandler_says sized short handled, runHandler_settings handled⟩

theorem closeReply_sayable {method : CString} {required : Bool} {out : Handling (RaopRtp δ)}
    (prepared : Prepared server conn)
    (answerable : MethodAnswerable env server conn request index method)
    (gate : requireAuth env.raopEnv server conn request method = .ok required)
    (said : SayableHandling out) :
    SayableReply (closeReply env.raopEnv request index
      (openReply env.raopEnv server conn request index required) out) := by
  have opening : SayableHeaders
      (openReply env.raopEnv server conn request index required).headers := by
    cases required with
    | true =>
        have named : Sayable (CString.lit "WWW-Authenticate").chars := by decide
        simp only [openReply, if_true, SayableHeaders, List.forall_mem_singleton]
        exact ⟨named, authString_sayable prepared.nonce⟩
    | false =>
        have named : Sayable (CString.lit "Apple-Response").chars := by decide
        intro header member
        simp only [openReply, Bool.false_eq_true, if_false, Option.mem_toList,
          Option.map_eq_some_iff] at member
        obtain ⟨challenge, present, rfl⟩ := member
        exact ⟨named, answerable.challenge gate challenge present⟩
  have closing : SayableHeaders (closingHeaders env.raopEnv request index) := by
    have server : Sayable (CString.lit "Server").chars := by decide
    have software : Sayable (CString.lit "AirTunes/373.8").chars := by decide
    have named : Sayable (CString.lit "CSeq").chars := by decide
    have date : Sayable (CString.lit "Date").chars := by decide
    intro header member
    simp only [closingHeaders, List.cons_append, List.mem_cons, List.mem_append, Option.mem_toList,
      Option.map_eq_some_iff, List.not_mem_nil, or_false] at member
    rcases member with rfl | ⟨cseq, present, rfl⟩ | rfl
    · exact ⟨server, software⟩
    · exact ⟨named, answerable.cseq cseq present⟩
    · exact ⟨date, env.dateSays⟩
  have status : 100 ≤ (openReply env.raopEnv server conn request index required).code ∧
      (openReply env.raopEnv server conn request index required).code < 1000 := by
    cases required <;> simp [openReply]
  have protocol :
      Sayable (openReply env.raopEnv server conn request index required).protocol.chars := by
    have version : Sayable (CString.lit "RTSP/1.0").chars := by decide
    cases required <;> exact version
  have message :
      Sayable (openReply env.raopEnv server conn request index required).message.chars := by
    have ok : Sayable (CString.lit "OK").chars := by decide
    have unauthorized : Sayable (CString.lit "Unauthorized").chars := by decide
    cases required with
    | true => exact unauthorized
    | false => exact ok
  refine ⟨status, protocol, message, ?_, said.2⟩
  · intro header member
    simp only [closeReply, List.mem_append] at member
    rcases member with (member | member) | member
    · exact opening header member
    · exact said.1 header member
    · exact closing header member

/-- An answerable request completes, and leaves its settings as they were. -/
theorem connRequest_completes (prepared : Prepared server conn)
    (answerable : Answerable env server conn request index) :
    Completes request (connRequest env.raopEnv server conn request index) ∧
      ∀ exchange, connRequest env.raopEnv server conn request index = .ok exchange →
        settings exchange.server exchange.conn = settings server conn := by
  obtain ⟨text, located⟩ := Option.isSome_iff_exists.mp answerable.url
  have url : httpRequestGetUrl request index =
      some (strtokNth lf (index - 1).toNat text.chars) := by
    rw [httpRequestGetUrl, located]
    rfl
  cases parsed : httpRequestGetMethod request with
  | none =>
      have done : connRequest env.raopEnv server conn request index =
          .ok ⟨server, conn, none, [], false, none⟩ := by
        simp only [connRequest, url, parsed]
      rw [done]
      refine ⟨⟨_, rfl, by simp [parsed], by simp⟩, ?_⟩
      rintro exchange ⟨⟩
      rfl
  | some method =>
      have needs := answerable.method method parsed
      have token := needs.uri
      have ready := needs.handler
      rw [url, Option.join_some] at token ready
      obtain ⟨required, gate⟩ := requireAuth_succeeds answerable.url needs
      obtain ⟨selected, select⟩ := selectHandler_succeeds token
      obtain ⟨out, ran, said, kept⟩ := runSelected_succeeds selected prepared.sized
        answerable.body fun handler chosen => ready handler (chosen ▸ select)
      have sayable := closeReply_sayable prepared needs gate said
      have done : connRequest env.raopEnv server conn request index =
          .ok ⟨out.server, out.conn, selected, out.callbacks, out.disconnect,
            some (buildReply (closeReply env.raopEnv request index
              (openReply env.raopEnv server conn request index required) out))⟩ := by
        simp only [connRequest, url, parsed, gate, select]
        change (runSelected env.raopEnv server conn request index selected >>= _) = _
        rw [ran]
        rfl
      rw [done]
      refine ⟨⟨_, rfl, fun _ => rfl, fun fault failed => ?_⟩, ?_⟩
      · exact buildReply_sayable sayable (Option.some.inj failed)
      · rintro exchange ⟨⟩
        exact kept

end Request

/-! ## Runs -/

/-- The server and its connections. -/
structure RtspServer (δ : Type) where
  raop : RaopServer
  conns : ℕ → Option (RaopConn (RaopRtp δ))

/-- What httpd asks of raop.c, each time in surroundings of its own. -/
inductive RtspEvent (δ : Type) where
  | connInit (who : ℕ) (localAddress remote md5buf : Bytes)
  | connDestroy (who : ℕ)
  | connRequest (who : ℕ) (env : RtspPlatform δ) (request : HttpRequest) (index : ℤ)

/-- A request and what `conn_request` made of it. -/
structure Answer (δ : Type) where
  request : HttpRequest
  out : Except Fault (Exchange (RaopRtp δ))

namespace RtspServer

def start (password : CString) (hwaddr : Bytes) (height width maxfps : BitVec 32) : RtspServer δ :=
  ⟨raopInit password hwaddr height.toInt width.toInt maxfps.toInt, fun _ => none⟩

/-- A fault ends the process. -/
def leave (s : RtspServer δ) (who : ℕ) (out : Except Fault (Exchange (RaopRtp δ))) :
    Option (RtspServer δ) :=
  match out with
  | .error _ => none
  | .ok exchange =>
      match exchange.response with
      | some (.error _) => none
      | _ => some ⟨exchange.server, Function.update s.conns who (some exchange.conn)⟩

def handle (s : RtspServer δ) : RtspEvent δ → Option (RtspServer δ) × Option (Answer δ)
  | .connInit who localAddress remote md5buf =>
      let conn : RaopConn (RaopRtp δ) :=
        Raop.connInit localAddress remote (digestGenerateNonce md5buf)
      (some { s with conns := Function.update s.conns who (some conn) }, none)
  | .connDestroy who => (some { s with conns := Function.update s.conns who none }, none)
  | .connRequest who env request index =>
      match s.conns who with
      | none => (some s, none)
      | some conn =>
          let out := Raop.connRequest env.raopEnv s.raop conn request index
          (s.leave who out, some ⟨request, out⟩)

end RtspServer

def rtspMachine : Transducer (Option (RtspServer δ)) (RtspEvent δ) (Option (Answer δ)) where
  step state event :=
    match state with
    | none => (none, none)
    | some s => s.handle event

/-- A request on a connection can be answered. -/
def CanAnswer (s : RtspServer δ) : RtspEvent δ → Prop
  | .connRequest who env request index =>
      ∀ conn ∈ s.conns who, Answerable env s.raop conn request index
  | _ => True

/-- Server and connections are as they were made. -/
structure AllPrepared (s : RtspServer δ) : Prop where
  sized : IntSized s.raop
  nonces : ∀ who, ∀ conn ∈ s.conns who, conn.nonce.strlen ≤ 32

theorem AllPrepared.conn {s : RtspServer δ} (prepared : AllPrepared s) {who : ℕ}
    {conn : RaopConn (RaopRtp δ)} (there : s.conns who = some conn) : Prepared s.raop conn :=
  ⟨prepared.sized, prepared.nonces who conn there⟩

theorem AllPrepared.update {s : RtspServer δ} (prepared : AllPrepared s) {raop : RaopServer}
    (who : ℕ) {next : Option (RaopConn (RaopRtp δ))} (sized : IntSized raop)
    (short : ∀ conn ∈ next, conn.nonce.strlen ≤ 32) :
    AllPrepared ⟨raop, Function.update s.conns who next⟩ := by
  refine ⟨sized, fun other conn there => ?_⟩
  change conn ∈ Function.update s.conns who next other at there
  by_cases same : other = who
  · subst same
    rw [Function.update_self] at there
    exact short conn there
  · rw [Function.update_of_ne same] at there
    exact prepared.nonces other conn there

theorem start_prepared (password : CString) (hwaddr : Bytes) (height width maxfps : BitVec 32) :
    AllPrepared (RtspServer.start password hwaddr height width maxfps : RtspServer δ) where
  sized :=
    ⟨⟨BitVec.le_toInt height, BitVec.toInt_lt⟩, ⟨BitVec.le_toInt width, BitVec.toInt_lt⟩⟩
  nonces := by
    rintro who conn ⟨⟩

theorem digestGenerateNonce_strlen (md5buf : Bytes) : (digestGenerateNonce md5buf).strlen ≤ 32 :=
  le_trans (List.takeWhile_sublist _).length_le (List.length_take_le _ _)

/-- One event: an answerable request completes, and the settings stay. -/
theorem handle_completes {s : RtspServer δ} {event : RtspEvent δ} (prepared : AllPrepared s)
    (answerable : CanAnswer s event) :
    (∀ after ∈ (s.handle event).1, AllPrepared after) ∧
      ∀ answer ∈ (s.handle event).2, Completes answer.request answer.out := by
  cases event with
  | connInit who localAddress remote md5buf =>
      refine ⟨?_, by rintro answer ⟨⟩⟩
      rintro after ⟨⟩
      refine prepared.update who prepared.sized ?_
      rintro conn ⟨⟩
      exact digestGenerateNonce_strlen md5buf
  | connDestroy who =>
      refine ⟨?_, by rintro answer ⟨⟩⟩
      rintro after ⟨⟩
      exact prepared.update who prepared.sized (by rintro conn ⟨⟩)
  | connRequest who env request index =>
      cases there : s.conns who with
      | none =>
          simp only [RtspServer.handle, there]
          refine ⟨?_, by rintro answer ⟨⟩⟩
          rintro after ⟨⟩
          exact prepared
      | some conn =>
          obtain ⟨completes, kept⟩ :=
            connRequest_completes (prepared.conn there) (answerable conn there)
          simp only [RtspServer.handle, there]
          refine ⟨?_, by rintro answer ⟨⟩; exact completes⟩
          intro after left
          obtain ⟨exchange, done, -⟩ := completes
          have same := (prepared.conn there).kept (kept exchange done)
          rw [done] at left
          unfold RtspServer.leave at left
          dsimp only at left
          split at left
          · cases left
          · cases left
            exact prepared.update who same.sized (by rintro conn ⟨⟩; exact same.nonce)

/-- In every run whose requests can be answered, all of them are: whatever they were and
whatever came before, `conn_request` completes. -/
theorem requests_answered (password : CString) (hwaddr : Bytes) (height width maxfps : BitVec 32)
    (events : List (RtspEvent δ))
    (answerable : rtspMachine.Admissible (Alive CanAnswer)
      (some (RtspServer.start password hwaddr height width maxfps)) events) :
    ∀ answer ∈ (rtspMachine.run
        (some (RtspServer.start password hwaddr height width maxfps)) events).2.reduceOption,
      Completes answer.request answer.out := by
  have run := rtspMachine.run_guarded (Alive CanAnswer) (fun state => ∀ s ∈ state, AllPrepared s)
    (fun (out : Option (Answer δ)) => ∀ answer ∈ out, Completes answer.request answer.out)
    (by
      intro state event prepared allowed
      cases state with
      | none => exact ⟨prepared, by rintro answer ⟨⟩⟩
      | some s => exact handle_completes (prepared s rfl) allowed)
    events _ (by rintro s ⟨⟩; exact start_prepared password hwaddr height width maxfps) answerable
  intro answer member
  exact run.2 (some answer) (List.reduceOption_mem_iff.mp member) answer rfl

/-- Nothing is encrypted, and no server is out of reach. -/
def plainPlatform : RtspPlatform Unit where
  abi := .arm64V8a
  codec := plainCodec
  malloc := fun _ => some fun _ => 0
  parseAddress := fun _ address => some address
  crypto :=
    { gEdPublicKey := zeros 32
      gEdPrivateKey := zeros 64
      curve25519Donna := fun _ _ => zeros 32
      ed25519Sign := fun _ _ _ => zeros 64
      ed25519Verify := fun _ _ _ => true
      sha512msg := fun salt key => salt ++ key
      ctr128Encrypt := fun ctr data => (ctr, data)
      fairplaySetup := fun _ => none
      fairplayDecrypt := fun _ _ => none }
  sha512msg2 := fun first second _ => (first, second)
  airplayVersion := fun _ => 0
  plistFromBin := fun _ => none
  xmlToBin := fun text => text.take 4096
  initSockets := some ⟨6001, 6002, 6003⟩
  airdataStart := fun _ => none
  md5 := fun text => text.take 16
  rsakeySign := fun challenge _ _ => challenge
  date := .lit "Mon Jan  1 00:00:00 2024"
  seed := zeros 32
  base64Encode := fun _ => ""
  rsakeyBase64Decode := fun _ => none
  rsakeyDecrypt := fun _ array => array
  rsakeyParseiv := fun _ array => array
  fairplayQuery := fun _ => none
  stackArray := zeros 16
  scanVolume := fun _ => 0
  scanProgress := fun _ => (0, 0, 0)
  dateSays := by decide
  xmlToBinShort := fun text => lt_of_le_of_lt (List.length_take_le 4096 text) (by decide)
  publicKeyLength := rfl
  curve25519Length := fun _ _ => rfl
  signatureLength := fun _ _ _ => rfl
  ctrLength := fun _ _ => rfl

def description : Bytes :=
  bytesOf ("c=IN IP4 10.0.0.3\r\na=rtpmap:96 AppleLossless\r\n" ++
    "a=fmtp:96 352 0 16 40 10 14 2 255 0 0 44100\r\n")

def announceRequest : HttpRequest where
  parser := httpParserInit
  content :=
    { method := some (.lit "ANNOUNCE")
      url := some (.lit "rtsp://10.0.0.2/1")
      headers := [some (.lit "CSeq"), some (.lit "1")]
      headersIndex := 1
      data := some description
      complete := true }

def bareSetupRequest : HttpRequest := received "SETUP / RTSP/1.0\r\n\r\n"

theorem announceRequest_ready (conn : RaopConn (RaopRtp Unit)) :
    HandlerReady plainPlatform.toRtspEnv conn announceRequest 1 .announce := by
  rintro data ⟨⟩
  refine ⟨.lit "IN IP4 10.0.0.3", .lit "96 AppleLossless",
    .lit "96 352 0 16 40 10 14 2 255 0 0 44100", by decide, by decide,
    by decide, ?_, fun _ => by decide⟩
  have keyless : fairplayKey (sdpInit description) = none := by decide
  intro key asked
  rw [keyless] at asked
  cases asked

theorem announceRequest_answerable (server : RaopServer) (conn : RaopConn (RaopRtp Unit)) :
    Answerable plainPlatform server conn announceRequest 1 where
  url := rfl
  body := by
    change description.length < 2 ^ 31
    simp only [description, bytesOf, List.length_map, String.length_toList, String.length_append]
    decide
  method := by
    have parsed : httpRequestGetMethod announceRequest = some (.lit "ANNOUNCE") := by
      decide
    have unsigned : httpRequestGetHeader announceRequest (.lit "Authorization") 1 = none := by
      decide
    have numbered : httpRequestGetHeader announceRequest (.lit "CSeq") 1 = some (.lit "1") := by
      decide
    have unchallenged : httpRequestGetHeader announceRequest (.lit "Apple-Challenge") 1 = none := by
      decide
    have selected : ∀ uri, selectHandler (.lit "ANNOUNCE") uri = .ok (some .announce) := by
      intro uri
      have other : CString.lit "ANNOUNCE" ≠ .lit "POST" ∧ CString.lit "ANNOUNCE" ≠ .lit "GET" := by
        decide
      have found : methodHandler (.lit "ANNOUNCE") = some .announce := by decide
      simp only [selectHandler, if_neg other.1, if_neg other.2, found]
    intro method is
    cases Option.some.inj (parsed.symm.trans is)
    refine ⟨?_, ?_, ?_, ?_, ?_⟩
    · rw [unsigned]
      rintro - - header ⟨⟩
    · rintro (wrong | wrong)
      · exact absurd wrong (by decide)
      · exact absurd wrong (by decide)
    · intro handler chosen
      rw [selected] at chosen
      cases chosen
      exact announceRequest_ready conn
    · rw [numbered]
      rintro cseq ⟨⟩
      decide
    · rw [unchallenged]
      rintro - challenge ⟨⟩

def announceRun : List (RtspEvent Unit) :=
  [.connInit 1 [10, 0, 0, 2] [10, 0, 0, 3] (zeros 16),
    .connRequest 1 plainPlatform announceRequest 1,
    .connInit 2 [10, 0, 0, 2] [10, 0, 0, 4] (zeros 16),
    .connRequest 2 plainPlatform announceRequest 1]

def rtspPlainStart : RtspServer Unit := .start (.lit "") [1, 2, 3, 4, 5, 6] 1080 1920 60

theorem announceRun_answered :
    rtspMachine.Admissible (Alive CanAnswer) (some rtspPlainStart) announceRun ∧
      ∀ answer ∈ (rtspMachine.run (some rtspPlainStart) announceRun).2.reduceOption,
        Completes answer.request answer.out := by
  have answerable : ∀ (state : Option (RtspServer Unit)) who,
      Alive CanAnswer state (.connRequest who plainPlatform announceRequest 1) := by
    intro state who
    cases state with
    | none => trivial
    | some s => exact fun conn _ => announceRequest_answerable s.raop conn
  have made : ∀ (state : Option (RtspServer Unit)) who remote,
      Alive CanAnswer state (.connInit who [10, 0, 0, 2] remote (zeros 16)) := by
    intro state who remote
    cases state <;> trivial
  have admissible : rtspMachine.Admissible (Alive CanAnswer) (some rtspPlainStart) announceRun := by
    refine Transducer.admissible_of_forall _ _ _ _ ?_
    simp only [announceRun, List.forall_mem_cons]
    exact ⟨fun t => made t 1 _, fun t => answerable t 1, fun t => made t 2 _,
      fun t => answerable t 2, by simp⟩
  exact ⟨admissible,
    requests_answered (.lit "") [1, 2, 3, 4, 5, 6] 1080 1920 60 announceRun admissible⟩

/-- The first SETUP of a client without `Transport` ends the process. -/
theorem bareSetup_aborts :
    ¬ ∀ (password : CString) (hwaddr : Bytes) (height width maxfps : BitVec 32)
        (events : List (RtspEvent Unit)),
      ∀ answer ∈ (rtspMachine.run
          (some (RtspServer.start password hwaddr height width maxfps)) events).2.reduceOption,
        Completes answer.request answer.out := by
  intro always
  have answers := always (.lit "") [1, 2, 3, 4, 5, 6] 1080 1920 60
    [.connInit 1 [10, 0, 0, 2] [10, 0, 0, 3] (zeros 16),
      .connRequest 1 plainPlatform bareSetupRequest 1]
  have failed : (rtspMachine.run (some rtspPlainStart)
      [.connInit 1 [10, 0, 0, 2] [10, 0, 0, 3] (zeros 16),
        .connRequest 1 plainPlatform bareSetupRequest 1]).2.reduceOption.map
      (fun answer => answer.out.toOption.isNone) = [true] := by
    decide
  obtain ⟨answer, member, silent⟩ := List.mem_map.mp (failed ▸ List.mem_singleton_self true)
  obtain ⟨exchange, done, -⟩ := answers answer member
  rw [done] at silent
  cases silent

end AirCast.Raop
