import AirCast.Raop.RaopFieldSizes
import AirCast.Raop.RaopHandlers

/-! # When a handler comes to its end

For every handler of raop.c that relies on what a client sends, the condition under which
no assertion fails, no NULL is used and nothing is read that was not written. -/

set_option autoImplicit false

namespace AirCast.Raop

open AirCast.Http

variable {δ : Type}

/-! ## Conditions -/

def UintOrAbsent (node : Option Plist) : Prop := node = none ∨ ∃ value, node = some (.uint value)

def IsUint (node : Option Plist) : Prop := ∃ value, node = some (.uint value)

def BoolOrAbsent (node : Option Plist) : Prop :=
  node = none ∨ ∃ value, node = some (.boolean value)

section Conditions

variable (env : RtspEnv δ) (conn : RaopConn (RaopRtp δ)) (request : HttpRequest)

def FairplayAnswers (sdp : Sdp) : Prop :=
  ∀ text ∈ fairplayKey sdp, ∀ buf ∈ env.rsakeyBase64Decode text,
    buf.length = 72 → (env.fairplayQuery buf).isSome

/-- The decoder takes the format. -/
def DecoderOpens (fmtp : CString) : Prop :=
  (raopRtpInit env.abi env.codec env.malloc fmtp [] []).isSome

/-- A body has all three lines, its key can be opened, and its address is not cut off behind
`IN`. -/
def AnnounceReady : Prop :=
  ∀ data ∈ (httpRequestGetData request).1,
    ∃ connection rtpmap fmtp, (sdpInit data).connection = some connection ∧
      (sdpInit data).rtpmap = some rtpmap ∧ (sdpInit data).fmtp = some fmtp ∧
        FairplayAnswers env (sdpInit data) ∧
          (DecoderOpens env fmtp → connection.chars ≠ bytesOf "IN")

/-- The nodes of a stream have their types, after a stream of type `nType`. -/
structure StreamReady (nType : ℕ) (item : Plist) : Prop where
  type : UintOrAbsent (Plist.dictGetItem (.lit "type") (some item))
  screen : nextType nType item = 110 →
    UintOrAbsent (Plist.dictGetItem (.lit "streamConnectionID") (some item))
  controlPort : nextType nType item = 96 →
    IsUint (Plist.dictGetItem (.lit "controlPort") (some item))
  audioFormat : nextType nType item = 96 →
    IsUint (Plist.dictGetItem (.lit "audioFormat") (some item))
  spf : nextType nType item = 96 → IsUint (Plist.dictGetItem (.lit "spf") (some item))
  usingScreen : nextType nType item = 96 →
    BoolOrAbsent (Plist.dictGetItem (.lit "usingScreen") (some item))

def StreamsReady : ℕ → List Plist → Prop
  | _, [] => True
  | nType, item :: rest => StreamReady nType item ∧ StreamsReady (nextType nType item) rest

/-- The initialization vector fits, and the streams are ready. -/
def DictReady (dict : Option Plist) : Prop :=
  (∀ iv ∈ Plist.getDataVal (Plist.dictGetItem (.lit "eiv") dict), iv.length ≤ 16) ∧
    StreamsReady 0 (Plist.arrayItems (Plist.dictGetItem (.lit "streams") dict))

/-- libplist writes a node for the body. -/
def PlistReadable : Prop := ((httpRequestGetData request).1.bind env.plistFromBin).isSome

def SetupReady : Prop :=
  if httpRequestGetHeader request (.lit "Content-Type") 1 = some binaryPlist then
    PlistReadable env request ∧ DictReady (requestedDict env.toSetupEnv request)
  else (httpRequestGetHeader request (.lit "Transport") 1).isSome

def RangeInside (range : ℕ × ℤ) : Prop :=
  0 < range.2 → range.1 + range.2.toNat ≤ ((httpRequestGetData request).1.getD []).length

/-- The copy into `datastr` is left out, or it has room and stays in the body. -/
def TextInside (range : ℕ × ℤ) : Prop :=
  (((httpRequestGetData request).1 = none ∧ range.1 = 0) ∨ range.2 < -1) ∨
    range.2 ≠ -1 ∧ RangeInside request range

/-- Both headers are there; a session reads its part of the body. -/
def SetparameterReady (index : ℤ) : Prop :=
  ∃ range contentType, parameterRange env.abi request index = .ok range ∧
    httpRequestGetIheader request (.lit "Content-Type") index = some contentType ∧
      (conn.raopRtp.isSome →
        (contentType = .lit "text/parameters" → TextInside request range) ∧
          (contentType = .lit "image/jpeg" ∨ contentType = .lit "image/png" ∨
            contentType = .lit "application/x-dmap-tagged" → RangeInside request range))

def FirstTypeReady : List Plist → Prop
  | [] => True
  | item :: rest =>
      match Plist.dictGetItem (.lit "type") (some item) with
      | none => FirstTypeReady rest
      | some type => IsUint (some type)

def TeardownReady : Prop :=
  httpRequestGetHeader request (.lit "Content-Type") 1 = some binaryPlist →
    PlistReadable env request ∧
      FirstTypeReady (Plist.arrayItems (Plist.dictGetItem (.lit "streams")
        (requestedDict env.toSetupEnv request)))

/-- What a handler needs of its request. -/
def HandlerReady (index : ℤ) : RequestHandler → Prop
  | .pairverify => Readable env.crypto (.pairVerify (httpRequestGetData request).1 env.seed)
  | .fpsetup => Readable env.crypto (.fpSetup (httpRequestGetData request).1)
  | .announce => AnnounceReady env request
  | .setup => SetupReady env request
  | .setparameter => SetparameterReady env conn request index
  | .teardown => TeardownReady env request
  | .pairsetup | .authsetup | .info | .streamxml | .options | .flush | .record
  | .getparameter | .feedback => True

end Conditions

/-! ## Nodes -/

theorem bind_succeeds {α β : Type} {x : Except Fault α} {f : α → Except Fault β} :
    (∃ b, x >>= f = .ok b) ↔ ∃ a, x = .ok a ∧ ∃ b, f a = .ok b := by
  constructor
  · rintro ⟨b, success⟩
    obtain ⟨a, first, second⟩ := bind_ok success
    exact ⟨a, first, b, second⟩
  · rintro ⟨a, first, b, second⟩
    exact ⟨b, by rw [first]; exact second⟩

theorem getUintVal_succeeds (node : Option Plist) :
    (∃ value, Plist.getUintVal node = .ok value) ↔ IsUint node := by
  constructor
  · rintro ⟨value, read⟩
    cases node with
    | none => cases read
    | some node =>
        cases node with
        | uint intval => exact ⟨intval, rfl⟩
        | boolean _ | data _ | array _ | dict _ | other => cases read
  · rintro ⟨value, rfl⟩
    exact ⟨value, rfl⟩

theorem readUsingScreen_succeeds (node : Option Plist) :
    (∃ value, readUsingScreen node = .ok value) ↔ BoolOrAbsent node := by
  constructor
  · rintro ⟨value, read⟩
    cases node with
    | none => exact Or.inl rfl
    | some node =>
        cases node with
        | boolean boolval => exact Or.inr ⟨boolval, rfl⟩
        | uint _ | data _ | array _ | dict _ | other => cases read
  · rintro (rfl | ⟨value, rfl⟩)
    · exact ⟨false, rfl⟩
    · exact ⟨value, rfl⟩

theorem streamType_succeeds (nType : ℕ) (item : Plist) :
    (∃ type, streamType nType item = .ok type) ↔
      UintOrAbsent (Plist.dictGetItem (.lit "type") (some item)) := by
  unfold streamType UintOrAbsent
  cases Plist.dictGetItem (.lit "type") (some item) with
  | none => exact iff_of_true ⟨nType, rfl⟩ (Or.inl rfl)
  | some type =>
      rw [getUintVal_succeeds]
      simp [IsUint]

section Announce

variable {env : RtspEnv δ} {server : RaopServer} {conn : RaopConn (RaopRtp δ)}
  {request : HttpRequest}

theorem announcedKey_succeeds (sdp : Sdp) :
    (∃ key, announcedKey env sdp = .ok key) ↔ FairplayAnswers env sdp := by
  unfold announcedKey FairplayAnswers
  cases fairplayKey sdp with
  | none => exact iff_of_true ⟨_, rfl⟩ (by simp)
  | some text =>
      dsimp only
      cases decoded : env.rsakeyBase64Decode text with
      | none => exact iff_of_true ⟨_, rfl⟩ (by simp [decoded])
      | some buf =>
          by_cases long : buf.length = 72
          · cases answer : env.fairplayQuery buf with
            | none => simp [decoded, long, answer]
            | some key => simp [decoded, long, answer]
          · simp [decoded, long]

theorem raopRtpInit_isSome (abi : Abi) (codec : AudioCodec δ) (malloc : Malloc) (fmtp : CString)
    (aeskey aesiv : Bytes) :
    (raopRtpInit abi codec malloc fmtp aeskey aesiv).isSome =
      (raopRtpInit abi codec malloc fmtp [] []).isSome := by
  unfold raopRtpInit raopBufferInit
  cases getFmtpInfo abi fmtp (codecNumber fmtp) with
  | none => rfl
  | some config =>
      dsimp only
      split
      · split <;> rfl
      · rfl

theorem strstr_space_none {text rest : Bytes}
    (found : strstr [32] (bytesOf "IN") = some (text, rest)) :
    False := by
  have none : strstr [32] (bytesOf "IN") = none := by decide
  rw [none] at found
  cases found

theorem raopRtpParseRemote_succeeds (parseAddress : AddressFamily → Bytes → Option Bytes)
    (remote : Bytes) :
    (∃ address, raopRtpParseRemote parseAddress remote = .ok address) ↔
      remote ≠ bytesOf "IN" := by
  unfold raopRtpParseRemote
  cases cut : strstr [32] remote with
  | none =>
      simp only [utilsStrsep, cut]
      by_cases network : remote = bytesOf "IN"
      · simp [network]
      · simp [network]
  | some parts =>
      have other : remote ≠ bytesOf "IN" := by
        rintro rfl
        exact strstr_space_none cut
      refine iff_of_true ?_ other
      simp only [utilsStrsep, cut]
      split
      · exact ⟨_, rfl⟩
      · cases strstr [32] parts.2 with
        | none => exact ⟨_, rfl⟩
        | some kind => exact ⟨_, rfl⟩

theorem raopRtpOpen_succeeds (opening : RtpEnv δ) (remote rtpmap fmtp : Option CString)
    (aeskey aesiv : Bytes) :
    (∃ opened, raopRtpOpen opening remote rtpmap fmtp aeskey aesiv = .ok opened) ↔
      ∃ connection map format, remote = some connection ∧ rtpmap = some map ∧
        fmtp = some format ∧
          ((raopRtpInit opening.abi opening.codec opening.malloc format [] []).isSome →
            connection.chars ≠ bytesOf "IN") := by
  unfold raopRtpOpen
  cases remote with
  | none => simp
  | some connection =>
      cases rtpmap with
      | none => simp
      | some map =>
          cases fmtp with
          | none => simp
          | some format =>
              have same := raopRtpInit_isSome opening.abi opening.codec opening.malloc format aeskey
                aesiv
              cases opens : raopRtpInit opening.abi opening.codec opening.malloc format aeskey aesiv with
              | none =>
                  rw [opens] at same
                  simp [opens, ← same]
              | some buffer =>
                  rw [opens] at same
                  simp only [opens, ← same, Option.some.injEq, exists_and_left, exists_eq_left',
                    Option.isSome_some, forall_true_left]
                  rw [bind_succeeds, ← raopRtpParseRemote_succeeds opening.parseAddress]
                  constructor
                  · rintro ⟨address, parsed, -⟩
                    exact ⟨address, parsed⟩
                  · rintro ⟨address, parsed⟩
                    exact ⟨address, parsed, _, rfl⟩

theorem requestHandleAnnounce_succeeds :
    (∃ out, requestHandleAnnounce env server conn request = .ok out) ↔
      AnnounceReady env request := by
  unfold requestHandleAnnounce AnnounceReady
  cases (httpRequestGetData request).1 with
  | none => exact iff_of_true ⟨_, rfl⟩ (by simp)
  | some data =>
      simp only [announceSdp, Option.mem_some_iff, forall_eq']
      cases (sdpInit data).fmtp with
      | none => simp
      | some fmtp =>
          dsimp only
          rw [bind_succeeds]
          constructor
          · rintro ⟨key, opensKey, out, opened⟩
            obtain ⟨session, opens, -⟩ := bind_ok opened
            obtain ⟨connection, map, format, isConnection, isMap, isFormat, named⟩ :=
              (raopRtpOpen_succeeds _ _ _ _ _ _).mp ⟨session, opens⟩
            cases Option.some.inj isFormat
            exact ⟨connection, map, fmtp, isConnection, isMap, rfl,
              (announcedKey_succeeds _).mp ⟨key, opensKey⟩, named⟩
          · rintro ⟨connection, map, format, isConnection, isMap, isFormat, answers, named⟩
            cases Option.some.inj isFormat
            obtain ⟨key, opensKey⟩ := (announcedKey_succeeds (sdpInit data)).mpr answers
            obtain ⟨session, opens⟩ := (raopRtpOpen_succeeds env.toRtpEnv
              (sdpInit data).connection (sdpInit data).rtpmap (some fmtp) key
              (env.rsakeyParseiv (sdpInit data).aesiv env.stackArray)).mpr
                ⟨connection, map, fmtp, isConnection, isMap, rfl, named⟩
            refine ⟨key, opensKey, ?_⟩
            rw [bind_succeeds]
            exact ⟨session, opens, _, rfl⟩

end Announce

section Setup

variable {env : RtspEnv δ} {server : RaopServer} {conn : RaopConn (RaopRtp δ)}
  {request : HttpRequest} {version : ℚ} {out : SetupOutcome δ}

theorem setStreamKeys_succeeds (id : Option Plist) :
    (∃ after, setStreamKeys env.toSetupEnv version out id = .ok after) ↔
      (out.nType = 110 → UintOrAbsent id) := by
  unfold setStreamKeys
  by_cases screen : out.nType = 110
  · cases id with
    | none =>
        refine iff_of_true ?_ (fun _ => Or.inl rfl)
        rw [if_neg (by simp), if_neg (by rw [screen]; decide)]
        exact ⟨_, rfl⟩
    | some node =>
        rw [if_pos ⟨screen, rfl⟩, bind_succeeds]
        constructor
        · rintro ⟨value, read, -⟩ _
          exact Or.inr ((getUintVal_succeeds _).mp ⟨value, read⟩)
        · intro typed
          obtain absent | number := typed screen
          · cases absent
          · obtain ⟨value, read⟩ := (getUintVal_succeeds _).mpr number
            exact ⟨value, read, _, rfl⟩
  · rw [if_neg (fun both => screen both.1)]
    refine iff_of_true ?_ (fun wrong => absurd wrong screen)
    split
    · exact ⟨_, rfl⟩
    · exact ⟨_, rfl⟩

theorem remoteText_named (conn : RaopConn (RaopRtp δ)) :
    (CString.ofBytes (remoteText conn)).chars ≠ bytesOf "IN" := by
  have long : ∀ rest : Bytes,
      (CString.ofBytes (bytesOf "IN IP4 " ++ rest)).chars ≠ bytesOf "IN" := by
    intro rest
    have text : bytesOf "IN IP4 " = [73, 78, 32, 73, 80, 52, 32] := by decide
    have network : bytesOf "IN" = [73, 78] := by decide
    rw [text, network]
    simp [CString.ofBytes]
  unfold remoteText
  split
  · simp only [bytesOf, String.toList_append, List.map_append, List.append_assoc] at long ⊢
    exact long _
  · decide

theorem openSession_succeeds (controlPort audioFormat : ℕ) :
    ∃ after, openSession env.toSetupEnv out controlPort audioFormat = .ok after := by
  have opens : ∃ opened, raopRtpOpen env.toRtpEnv (some (.ofBytes (remoteText out.conn)))
      (some (formatStrings audioFormat).1) (some (formatStrings audioFormat).2)
      out.conn.rsaCbcKey out.conn.rsaCbcIv = .ok opened :=
    (raopRtpOpen_succeeds _ _ _ _ _ _).mpr
      ⟨_, _, _, rfl, rfl, rfl, fun _ => remoteText_named out.conn⟩
  obtain ⟨opened, opens⟩ := opens
  unfold openSession
  rw [bind_succeeds]
  refine ⟨opened, opens, ?_⟩
  cases opened with
  | none => exact ⟨_, rfl⟩
  | some rtp =>
      dsimp only
      split
      · exact ⟨_, rfl⟩
      · exact ⟨_, rfl⟩

theorem setupAudio_succeeds (item : Plist) :
    (∃ after, setupAudio env.toSetupEnv out item = .ok after) ↔
      IsUint (Plist.dictGetItem (.lit "controlPort") (some item)) ∧
        IsUint (Plist.dictGetItem (.lit "audioFormat") (some item)) ∧
          IsUint (Plist.dictGetItem (.lit "spf") (some item)) ∧
            BoolOrAbsent (Plist.dictGetItem (.lit "usingScreen") (some item)) := by
  unfold setupAudio
  constructor
  · rintro ⟨after, set⟩
    obtain ⟨controlPort, isPort, set⟩ := bind_ok set
    obtain ⟨audioFormat, isFormat, set⟩ := bind_ok set
    obtain ⟨spf, isSpf, set⟩ := bind_ok set
    obtain ⟨screen, isScreen, -⟩ := bind_ok set
    exact ⟨(getUintVal_succeeds _).mp ⟨_, isPort⟩, (getUintVal_succeeds _).mp ⟨_, isFormat⟩,
      (getUintVal_succeeds _).mp ⟨_, isSpf⟩, (readUsingScreen_succeeds _).mp ⟨_, isScreen⟩⟩
  · rintro ⟨isPort, isFormat, isSpf, isScreen⟩
    obtain ⟨controlPort, isPort⟩ := (getUintVal_succeeds _).mpr isPort
    obtain ⟨audioFormat, isFormat⟩ := (getUintVal_succeeds _).mpr isFormat
    obtain ⟨spf, isSpf⟩ := (getUintVal_succeeds _).mpr isSpf
    obtain ⟨screen, isScreen⟩ := (readUsingScreen_succeeds _).mpr isScreen
    obtain ⟨after, opens⟩ : ∃ after,
        openSession env.toSetupEnv out controlPort audioFormat = .ok after :=
      openSession_succeeds controlPort audioFormat
    rw [isPort, isFormat, isSpf, isScreen]
    refine ⟨openEventPort env.toSetupEnv after, ?_⟩
    change openSession env.toSetupEnv out controlPort audioFormat >>= _ = _
    rw [opens]
    rfl

theorem setupStream_succeeds (item : Plist) :
    (∃ after, setupStream env.toSetupEnv version out item = .ok after) ↔
      StreamReady out.nType item := by
  unfold setupStream
  constructor
  · rintro ⟨after, set⟩
    obtain ⟨nType, typed, set⟩ := bind_ok set
    cases streamType_ok typed
    obtain ⟨keyed, keys, set⟩ := bind_ok set
    have type := (streamType_succeeds _ _).mp ⟨_, typed⟩
    have screen := (setStreamKeys_succeeds _).mp ⟨_, keys⟩
    by_cases sound : nextType out.nType item = 96
    · rw [if_pos sound] at set
      obtain ⟨port, format, spf, usingScreen⟩ := (setupAudio_succeeds item).mp ⟨_, set⟩
      exact ⟨type, screen, fun _ => port, fun _ => format, fun _ => spf, fun _ => usingScreen⟩
    · exact ⟨type, screen, fun wrong => absurd wrong sound, fun wrong => absurd wrong sound,
        fun wrong => absurd wrong sound, fun wrong => absurd wrong sound⟩
  · intro ready
    obtain ⟨nType, typed⟩ := (streamType_succeeds out.nType item).mpr ready.type
    have is := streamType_ok typed
    rw [bind_succeeds]
    refine ⟨nType, typed, ?_⟩
    rw [bind_succeeds]
    obtain ⟨keyed, keys⟩ : ∃ keyed,
        setStreamKeys env.toSetupEnv version { out with nType := nType }
          (Plist.dictGetItem (.lit "streamConnectionID") (some item)) = .ok keyed :=
      (setStreamKeys_succeeds _).mpr (is ▸ ready.screen)
    refine ⟨keyed, keys, ?_⟩
    by_cases sound : nType = 96
    · rw [if_pos sound]
      have next : nextType out.nType item = 96 := is ▸ sound
      exact (setupAudio_succeeds item).mpr ⟨ready.controlPort next, ready.audioFormat next,
        ready.spf next, ready.usingScreen next⟩
    · rw [if_neg sound]
      split
      · exact ⟨_, rfl⟩
      · exact ⟨_, rfl⟩

theorem openEventPort_nType (env : SetupEnv δ) (out : SetupOutcome δ) :
    (openEventPort env out).nType = out.nType := by
  unfold openEventPort
  split
  · rfl
  · split <;> rfl

theorem setupAudio_nType {item : Plist} {after : SetupOutcome δ}
    (set : setupAudio env.toSetupEnv out item = .ok after) : after.nType = out.nType := by
  unfold setupAudio at set
  obtain ⟨controlPort, -, set⟩ := bind_ok set
  obtain ⟨audioFormat, -, set⟩ := bind_ok set
  obtain ⟨spf, -, set⟩ := bind_ok set
  obtain ⟨screen, -, set⟩ := bind_ok set
  obtain ⟨opened, session, set⟩ := bind_ok set
  cases Except.ok.inj set
  rw [openEventPort_nType]
  exact (openSession_ok session).1

theorem setupStream_nType {item : Plist} {after : SetupOutcome δ}
    (set : setupStream env.toSetupEnv version out item = .ok after) :
    after.nType = nextType out.nType item := by
  unfold setupStream at set
  obtain ⟨nType, typed, set⟩ := bind_ok set
  cases streamType_ok typed
  obtain ⟨keyed, keys, set⟩ := bind_ok set
  have keyedType := (setStreamKeys_ok keys).1
  split at set
  · exact (setupAudio_nType set).trans keyedType
  · split at set
    · cases Except.ok.inj set
      rw [openEventPort_nType]
      exact keyedType
    · cases Except.ok.inj set
      exact keyedType

theorem setupStreams_succeed (streams : List Plist) :
    ∀ out : SetupOutcome δ,
      (∃ after, streams.foldlM (setupStream env.toSetupEnv version) out = .ok after) ↔
        StreamsReady out.nType streams := by
  induction streams with
  | nil => intro out; exact iff_of_true ⟨out, rfl⟩ trivial
  | cons item rest ih =>
      intro out
      simp only [List.foldlM_cons]
      rw [bind_succeeds]
      constructor
      · rintro ⟨next, first, later⟩
        have typed := setupStream_nType first
        exact ⟨(setupStream_succeeds item).mp ⟨next, first⟩, typed ▸ (ih next).mp later⟩
      · rintro ⟨first, later⟩
        obtain ⟨next, set⟩ : ∃ next, setupStream env.toSetupEnv version out item = .ok next :=
          (setupStream_succeeds item).mpr first
        have typed := setupStream_nType set
        exact ⟨next, set, (ih next).mpr (typed ▸ later)⟩

theorem setupDict_succeeds (dict : Plist) :
    (∃ done, setupDict env.toSetupEnv server conn version dict = .ok done) ↔
      DictReady (some dict) := by
  unfold setupDict DictReady
  have iv : (∃ ready, setupIv conn
        (Plist.getDataVal (Plist.dictGetItem (.lit "eiv") (some dict))) = .ok ready) ↔
      ∀ iv ∈ Plist.getDataVal (Plist.dictGetItem (.lit "eiv") (some dict)), iv.length ≤ 16 := by
    cases Plist.getDataVal (Plist.dictGetItem (.lit "eiv") (some dict)) with
    | none => exact iff_of_true ⟨conn, rfl⟩ (by simp)
    | some value =>
        rw [setupIv_succeeds]
        simp [eivCopies, Copy.Inside]
  rw [bind_succeeds, ← iv]
  constructor
  · rintro ⟨ready, copied, done, set⟩
    obtain ⟨after, streams, -⟩ := bind_ok set
    exact ⟨⟨ready, copied⟩, (setupStreams_succeed _ _).mp ⟨after, streams⟩⟩
  · rintro ⟨⟨ready, copied⟩, streams⟩
    refine ⟨ready, copied, ?_⟩
    rw [bind_succeeds]
    obtain ⟨after, set⟩ : ∃ after, (Plist.arrayItems (Plist.dictGetItem (.lit "streams")
        (some dict))).foldlM (setupStream env.toSetupEnv version)
        ⟨server, setupKey env.crypto server ready
          ((Plist.getDataVal (Plist.dictGetItem (.lit "ekey") (some dict))).getD []), 0, false⟩ =
          .ok after :=
      (setupStreams_succeed _ _).mpr streams
    exact ⟨after, set, _, rfl⟩

theorem readPlist_succeeds :
    (∃ dict, readPlist env.plistFromBin (httpRequestGetData request).1 = .ok dict) ↔
      PlistReadable env request := by
  unfold readPlist PlistReadable
  cases (httpRequestGetData request).1.bind env.plistFromBin with
  | none => simp
  | some dict => simp

theorem requestedDict_eq {dict : Option Plist}
    (plist : httpRequestGetHeader request (.lit "Content-Type") 1 = some binaryPlist)
    (read : readPlist env.plistFromBin (httpRequestGetData request).1 = .ok dict) :
    requestedDict env.toSetupEnv request = dict := by
  rw [requestedDict, if_pos plist]
  unfold readPlist at read
  cases found : (httpRequestGetData request).1.bind env.plistFromBin with
  | none =>
      rw [found] at read
      cases read
  | some node =>
      rw [found] at read
      exact Except.ok.inj read

theorem dictReady_small {dict : Option Plist} (small : Plist.dictGetSize dict = 0) :
    DictReady dict := by
  have absent (key : CString) : Plist.dictGetItem key dict = none := dictGetItem_small small key
  rw [DictReady, absent, absent]
  exact ⟨by simp [Plist.getDataVal], trivial⟩

theorem requestHandleSetup_succeeds :
    (∃ out, requestHandleSetup env.toSetupEnv server conn request = .ok out) ↔
      SetupReady env request := by
  unfold requestHandleSetup setupRequest SetupReady
  by_cases plist : httpRequestGetHeader request (.lit "Content-Type") 1 = some binaryPlist
  · rw [if_pos plist, if_pos plist, bind_succeeds]
    unfold setupPlist
    constructor
    · rintro ⟨done, set, -⟩
      obtain ⟨dict, read, set⟩ := bind_ok set
      rw [requestedDict_eq plist read]
      refine ⟨readPlist_succeeds.mp ⟨dict, read⟩, ?_⟩
      split at set
      · obtain ⟨out, handled, -⟩ := bind_ok set
        exact (setupDict_succeeds _).mp ⟨out, handled⟩
      · rename_i other
        exact dictReady_small (dictGetSize_other other)
    · rintro ⟨readable, ready⟩
      obtain ⟨dict, read⟩ := readPlist_succeeds.mpr readable
      rw [requestedDict_eq plist read] at ready
      have handled : ∃ done, setupPlist env.toSetupEnv server conn request = .ok done := by
        unfold setupPlist
        rw [bind_succeeds]
        refine ⟨dict, read, ?_⟩
        split
        · rw [bind_succeeds]
          obtain ⟨out, handled⟩ := (setupDict_succeeds _).mpr ready
          exact ⟨out, handled, _, rfl⟩
        · exact ⟨_, rfl⟩
      obtain ⟨done, handled⟩ := handled
      exact ⟨done, handled, _, rfl⟩
  · rw [if_neg plist, if_neg plist, bind_succeeds]
    cases httpRequestGetHeader request (.lit "Transport") 1 with
    | none => simp
    | some transport => exact iff_of_true ⟨_, rfl, _, rfl⟩ rfl

end Setup

section Parameters

variable {env : RtspEnv δ} {server : RaopServer} {conn : RaopConn (RaopRtp δ)}
  {request : HttpRequest}

theorem readRange_succeeds (range : ℕ × ℤ) :
    (∃ bytes, readRange request range = .ok bytes) ↔ RangeInside request range := by
  unfold readRange RangeInside
  by_cases empty : range.2 ≤ 0
  · rw [if_pos empty]
    exact iff_of_true ⟨[], rfl⟩ (fun positive => absurd positive (not_lt.mpr empty))
  · rw [if_neg empty, copyFrom_succeeds]
    exact ⟨fun inside _ => inside, fun inside => inside (not_le.mp empty)⟩

theorem setText_succeeds (rtp : RaopRtp δ) (range : ℕ × ℤ) :
    (∃ after, setText env request rtp range = .ok after) ↔ TextInside request range := by
  unfold setText TextInside
  by_cases skipped : ((httpRequestGetData request).1 = none ∧ range.1 = 0) ∨ range.2 < -1
  · rw [if_pos skipped]
    exact iff_of_true ⟨rtp, rfl⟩ (Or.inl skipped)
  · rw [if_neg skipped, or_iff_right skipped]
    by_cases minus : range.2 = -1
    · rw [if_pos minus]
      exact iff_of_false (by simp) (fun both => both.1 minus)
    · rw [if_neg minus, bind_succeeds, ← readRange_succeeds]
      constructor
      · rintro ⟨text, read, -⟩
        exact ⟨minus, text, read⟩
      · rintro ⟨-, text, read⟩
        exact ⟨text, read, _, rfl⟩

theorem setBlob_succeeds (old : Option Bytes) (range : ℕ × ℤ) :
    (∃ after, setBlob request old range = .ok after) ↔ RangeInside request range := by
  unfold setBlob
  by_cases empty : range.2 ≤ 0
  · rw [if_pos empty]
    exact iff_of_true ⟨old, rfl⟩ (fun positive => absurd positive (not_lt.mpr empty))
  · rw [if_neg empty, bind_succeeds, ← readRange_succeeds]
    constructor
    · rintro ⟨data, read, -⟩
      exact ⟨data, read⟩
    · rintro ⟨data, read⟩
      exact ⟨data, read, _, rfl⟩

theorem setParameter_succeeds (contentType : CString) (range : ℕ × ℤ) (rtp : RaopRtp δ) :
    (∃ after, setParameter env request contentType range rtp = .ok after) ↔
      (contentType = .lit "text/parameters" → TextInside request range) ∧
        (contentType = .lit "image/jpeg" ∨ contentType = .lit "image/png" ∨
          contentType = .lit "application/x-dmap-tagged" → RangeInside request range) := by
  unfold setParameter
  by_cases text : contentType = .lit "text/parameters"
  · have others : ¬ (contentType = .lit "image/jpeg" ∨ contentType = .lit "image/png" ∨
        contentType = .lit "application/x-dmap-tagged") := by
      rw [text]
      decide
    rw [if_pos text, setText_succeeds]
    exact ⟨fun inside => ⟨fun _ => inside, fun wrong => absurd wrong others⟩,
      fun both => both.1 text⟩
  · rw [if_neg text]
    by_cases image : contentType = .lit "image/jpeg" ∨ contentType = .lit "image/png"
    · rw [if_pos image, bind_succeeds]
      have blob := @setBlob_succeeds request rtp.coverart range
      constructor
      · rintro ⟨coverart, set, -⟩
        exact ⟨fun wrong => absurd wrong text, fun _ => blob.mp ⟨coverart, set⟩⟩
      · rintro ⟨-, inside⟩
        obtain ⟨coverart, set⟩ := blob.mpr (inside (by rcases image with is | is <;> simp [is]))
        exact ⟨coverart, set, _, rfl⟩
    · rw [if_neg image]
      by_cases tagged : contentType = .lit "application/x-dmap-tagged"
      · rw [if_pos tagged, bind_succeeds]
        have blob := @setBlob_succeeds request rtp.metadata range
        constructor
        · rintro ⟨metadata, set, -⟩
          exact ⟨fun wrong => absurd wrong text, fun _ => blob.mp ⟨metadata, set⟩⟩
        · rintro ⟨-, inside⟩
          obtain ⟨metadata, set⟩ := blob.mpr (inside (Or.inr (Or.inr tagged)))
          exact ⟨metadata, set, _, rfl⟩
      · rw [if_neg tagged]
        refine iff_of_true ⟨rtp, rfl⟩ ⟨fun wrong => absurd wrong text, ?_⟩
        rintro (wrong | wrong | wrong)
        · exact absurd (Or.inl wrong) image
        · exact absurd (Or.inr wrong) image
        · exact absurd wrong tagged

theorem requestHandleSetparameter_succeeds (index : ℤ) :
    (∃ out, requestHandleSetparameter env server conn request index = .ok out) ↔
      SetparameterReady env conn request index := by
  unfold requestHandleSetparameter SetparameterReady
  rw [bind_succeeds]
  constructor
  · rintro ⟨range, ranged, out, set⟩
    cases typed : httpRequestGetIheader request (.lit "Content-Type") index with
    | none =>
        rw [typed] at set
        cases set
    | some contentType =>
        rw [typed] at set
        refine ⟨range, contentType, ranged, rfl, ?_⟩
        cases session : conn.raopRtp with
        | none => exact fun wrong => absurd wrong (by simp)
        | some rtp =>
            dsimp only at set
            rw [session] at set
            obtain ⟨after, parameter, -⟩ := bind_ok set
            exact fun _ => (setParameter_succeeds _ _ rtp).mp ⟨after, parameter⟩
  · rintro ⟨range, contentType, ranged, typed, inside⟩
    refine ⟨range, ranged, ?_⟩
    rw [typed]
    cases session : conn.raopRtp with
    | none => exact ⟨_, rfl⟩
    | some rtp =>
        rw [session] at inside
        obtain ⟨after, parameter⟩ : ∃ after,
            setParameter env request contentType range rtp = .ok after :=
          (setParameter_succeeds contentType range rtp).mpr (inside rfl)
        dsimp only
        rw [bind_succeeds]
        exact ⟨after, parameter, _, rfl⟩

theorem firstType_succeeds (streams : List Plist) :
    (∃ nType, firstType streams = .ok nType) ↔ FirstTypeReady streams := by
  induction streams with
  | nil => exact iff_of_true ⟨0, rfl⟩ trivial
  | cons item rest ih =>
      unfold firstType FirstTypeReady
      cases Plist.dictGetItem (.lit "type") (some item) with
      | none => exact ih
      | some type => exact getUintVal_succeeds (some type)

theorem requestHandleTeardown_succeeds :
    (∃ out, requestHandleTeardown env server conn request = .ok out) ↔
      TeardownReady env request := by
  have after : (∃ out, requestHandleTeardown env server conn request = .ok out) ↔
      ∃ nType, teardownType env request = .ok nType := by
    unfold requestHandleTeardown
    rw [bind_succeeds]
    constructor
    · rintro ⟨nType, typed, -⟩
      exact ⟨nType, typed⟩
    · rintro ⟨nType, typed⟩
      refine ⟨nType, typed, ?_⟩
      split
      · exact ⟨_, rfl⟩
      · split
        · exact ⟨_, rfl⟩
        · split
          · exact ⟨_, rfl⟩
          · exact ⟨_, rfl⟩
  rw [after, teardownType, TeardownReady]
  by_cases plist : httpRequestGetHeader request (.lit "Content-Type") 1 = some binaryPlist
  · rw [if_pos plist, bind_succeeds, forall_prop_of_true plist]
    constructor
    · rintro ⟨dict, read, nType, typed⟩
      rw [requestedDict_eq plist read]
      exact ⟨readPlist_succeeds.mp ⟨dict, read⟩, (firstType_succeeds _).mp ⟨nType, typed⟩⟩
    · rintro ⟨readable, ready⟩
      obtain ⟨dict, read⟩ := readPlist_succeeds.mpr readable
      rw [requestedDict_eq plist read] at ready
      exact ⟨dict, read, (firstType_succeeds _).mpr ready⟩
  · rw [if_neg plist]
    exact iff_of_true ⟨0, rfl⟩ (fun wrong => absurd wrong plist)

end Parameters

section Every

variable {env : RtspEnv δ} {server : RaopServer} {conn : RaopConn (RaopRtp δ)}
  {request : HttpRequest}

theorem pairverify_succeeds (body : Option Bytes) :
    (∃ out, requestHandlePairverify env.crypto server conn env.seed body = .ok out) ↔
      Readable env.crypto (.pairVerify body env.seed) := by
  cases body with
  | none => exact iff_of_false (by rintro ⟨_, wrong⟩; cases wrong) (by simp [Readable])
  | some bytes =>
      by_cases empty : bytes = []
      · subst empty
        exact iff_of_false (by rintro ⟨_, wrong⟩; cases wrong) (by simp [Readable])
      · rw [requestHandlePairverify_succeeds env.seed empty]
        unfold pairverifyCopies
        split
        · constructor
          · intro inside
            have long := (inside ⟨36, 32, 32⟩ (by simp)).2.1
            exact ⟨bytes, rfl, by push_cast at long; omega⟩
          · rintro ⟨other, same, long⟩ c member
            cases Option.some.inj same
            rcases List.mem_pair.mp member with rfl | rfl
            · exact ⟨by decide, by push_cast; omega, by decide⟩
            · exact ⟨by decide, by push_cast; omega, by decide⟩
        · constructor
          · intro inside
            have long := (inside ⟨4, 64, 64⟩ (by simp)).2.1
            exact ⟨bytes, rfl, by push_cast at long; omega⟩
          · rintro ⟨other, same, long⟩ c member
            cases Option.some.inj same
            cases List.mem_singleton.mp member
            exact ⟨by decide, by push_cast; omega, by decide⟩

theorem fpsetupReply_succeeds (data : Bytes) (size : ℕ) :
    (∃ reply, fpsetupReply env.crypto data size = .ok reply) ↔
      ∀ buf ∈ env.crypto.fairplaySetup data, size ≤ buf.length := by
  unfold fpsetupReply
  cases env.crypto.fairplaySetup data with
  | none => exact iff_of_true ⟨[], rfl⟩ (by simp)
  | some buf =>
      simp only [Option.mem_some_iff, forall_eq']
      rw [copyFrom_succeeds, Nat.zero_add]

theorem fpsetup_succeeds (body : Option Bytes) :
    (∃ out, requestHandleFpsetup env.crypto server conn body = .ok out) ↔
      Readable env.crypto (.fpSetup body) := by
  cases body with
  | none => exact iff_of_false (by rintro ⟨_, wrong⟩; cases wrong) (by simp [Readable])
  | some data =>
      constructor
      · rintro ⟨out, handled⟩
        refine ⟨data, rfl, ?_⟩
        unfold requestHandleFpsetup at handled
        dsimp only at handled
        by_cases short : data.length = 16
        · rw [if_pos short] at handled
          obtain ⟨reply, sent, -⟩ := bind_ok handled
          rw [fpsetupSize, if_pos short]
          exact ⟨Or.inl short, (fpsetupReply_succeeds data 142).mp ⟨reply, sent⟩⟩
        · rw [if_neg short] at handled
          obtain ⟨message3, read, handled⟩ := bind_ok handled
          obtain ⟨reply, sent, -⟩ := bind_ok handled
          rw [fpsetupSize, if_neg short]
          have long := (copyFrom_succeeds _ _ _).mp ⟨message3, read⟩
          exact ⟨Or.inr (by omega), (fpsetupReply_succeeds data 32).mp ⟨reply, sent⟩⟩
      · rintro ⟨bytes, same, long, inside⟩
        cases Option.some.inj same
        exact ⟨_, requestHandleFpsetup_eq env.crypto long inside⟩

theorem runHandler_succeeds (index : ℤ) (handler : RequestHandler) :
    (∃ out, runHandler env.raopEnv server conn request index handler = .ok out) ↔
      HandlerReady env conn request index handler := by
  cases handler with
  | pairverify => exact pairverify_succeeds _
  | fpsetup => exact fpsetup_succeeds _
  | announce => exact requestHandleAnnounce_succeeds
  | setup => exact requestHandleSetup_succeeds
  | setparameter => exact requestHandleSetparameter_succeeds index
  | teardown => exact requestHandleTeardown_succeeds
  | pairsetup | authsetup | info | streamxml | options | flush | record | getparameter
  | feedback => exact iff_of_true ⟨_, rfl⟩ trivial

end Every

end AirCast.Raop
