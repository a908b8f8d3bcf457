import AirCast.Raop.RaopHandshake

/-! # When a handshake is isolated

The shared server and the server of the lonely run agree on what the connection wrote
last.  Its own requests read nothing else, and those of the others write the rest. -/

set_option autoImplicit false

namespace AirCast.Raop

open AirCast.Http

variable {ρ : Type} (crypto : RaopCrypto)

@[simp] theorem mine_some {party who : ℕ} : Mine (some party) who ↔ party = who := by
  simp [Mine]

def Paired (pairData : AirPair) : Prop :=
  pairData.edPub = crypto.gEdPublicKey ∧ pairData.edPri = crypto.gEdPrivateKey

/-- What `who` reads without mixing is the same in both. -/
structure Agrees (who : ℕ) (h : WriterHistory) (shared alone : RaopServer) : Prop where
  paired : who ∈ h.pairedBy → Paired crypto shared.pairData ∧ Paired crypto alone.pairData
  unpaired : h.pairedBy = [] → shared.pairData.edPub = alone.pairData.edPub ∧
    shared.pairData.edPri = alone.pairData.edPri
  his : Mine h.hisBy who → shared.pairData.edHis = alone.pairData.edHis
  session : Mine h.sessionBy who → shared.pairData.cvPub = alone.pairData.cvPub ∧
    shared.pairData.cvHis = alone.pairData.cvHis ∧ shared.pairData.ctr = alone.pairData.ctr
  message : Mine h.messageBy who → shared.message3 = alone.message3

theorem agrees_start (who : ℕ) (server : RaopServer) : Agrees crypto who .start server server :=
  ⟨fun member => by simp [WriterHistory.start] at member, fun _ => ⟨rfl, rfl⟩, fun _ => rfl,
    fun _ => ⟨rfl, rfl, rfl⟩, fun _ => rfl⟩

section Own

variable {who : ℕ} {h : WriterHistory} {shared alone : RaopServer}

/-- Two runs of a handler give the same connection and answer, and servers that agree. -/
def SameHandling (who : ℕ) (h : WriterHistory) (x y : Except Fault (Handling ρ)) : Prop :=
  ∃ first second, x = .ok first ∧ y = .ok second ∧ first.conn = second.conn ∧
    first.answer = second.answer ∧ Agrees crypto who h first.server second.server

variable {crypto}

theorem pairSetup_own (agrees : Agrees crypto who h shared alone) (conn : RaopConn ρ)
    (body : Option Bytes) :
    SameHandling crypto who (h.record who (.pairSetup body))
      (handle crypto shared conn (.pairSetup body)) (handle crypto alone conn (.pairSetup body)) := by
  refine ⟨_, _, rfl, rfl, rfl, rfl, fun _ => ⟨⟨rfl, rfl⟩, rfl, rfl⟩, fun _ => ⟨rfl, rfl⟩, ?_,
    agrees.session, agrees.message⟩
  intro mine
  by_cases long : (body.getD []).length = 32
  · simp [requestHandlePairsetup, Handling.plain, long]
  · simp only [WriterHistory.record, if_neg long] at mine
    simpa [requestHandlePairsetup, Handling.plain, long] using agrees.his mine

theorem keys_agree (agrees : Agrees crypto who h shared alone)
    (unmixed : h.pairedBy = [] ∨ who ∈ h.pairedBy) :
    shared.pairData.edPub = alone.pairData.edPub ∧
      shared.pairData.edPri = alone.pairData.edPri := by
  rcases unmixed with nobody | member
  · exact agrees.unpaired nobody
  · obtain ⟨⟨pub, pri⟩, pub', pri'⟩ := agrees.paired member
    exact ⟨pub.trans pub'.symm, pri.trans pri'.symm⟩

theorem verifyFirst_own (agrees : Agrees crypto who h shared alone) (conn : RaopConn ρ)
    {body : Bytes} (first : body.head? = some 1) (long : 68 ≤ body.length) (seed : Bytes)
    (unmixed : h.pairedBy = [] ∨ who ∈ h.pairedBy) :
    SameHandling crypto who (h.record who (.pairVerify (some body) seed))
      (requestHandlePairverify crypto shared conn seed (some body))
      (requestHandlePairverify crypto alone conn seed (some body)) := by
  rw [pairverifyFirst_eq crypto first long, pairverifyFirst_eq crypto first long]
  obtain ⟨pub, pri⟩ := keys_agree agrees unmixed
  have same : firstMessage crypto shared.pairData seed ((body.drop 4).take 32)
      ((body.drop 36).take 32) = firstMessage crypto alone.pairData seed ((body.drop 4).take 32)
      ((body.drop 36).take 32) := by
    simp only [firstMessage, pub, pri]
  simp only [same]
  refine ⟨_, _, rfl, rfl, rfl, rfl, fun member => ?_, fun _ => ⟨rfl, rfl⟩, fun _ => rfl,
    fun _ => ⟨rfl, rfl, rfl⟩, agrees.message⟩
  exact ⟨(agrees.paired member).2, (agrees.paired member).2⟩

theorem verifySecond_own (agrees : Agrees crypto who h shared alone) (conn : RaopConn ρ)
    {body : Bytes} (second : body.head? ≠ some 1) (long : 68 ≤ body.length) (seed : Bytes)
    (mine : Mine h.sessionBy who ∧ Mine h.hisBy who) :
    SameHandling crypto who (h.record who (.pairVerify (some body) seed))
      (requestHandlePairverify crypto shared conn seed (some body))
      (requestHandlePairverify crypto alone conn seed (some body)) := by
  rw [pairverifySecond_eq crypto second long, pairverifySecond_eq crypto second long]
  obtain ⟨cvPub, cvHis, ctr⟩ := agrees.session mine.1
  have same : secondMessage crypto shared.pairData ((body.drop 4).take 64) =
      secondMessage crypto alone.pairData ((body.drop 4).take 64) := by
    simp only [secondMessage, cvPub, cvHis, ctr, agrees.his mine.2]
  simp only [same]
  exact ⟨_, _, rfl, rfl, rfl, rfl, agrees.paired, agrees.unpaired, fun _ => agrees.his mine.2,
    fun _ => ⟨cvPub, cvHis, rfl⟩, agrees.message⟩

theorem pairVerify_own (agrees : Agrees crypto who h shared alone) (conn : RaopConn ρ)
    {body : Option Bytes} (seed : Bytes) (readable : Readable crypto (.pairVerify body seed))
    (unmixed : Unmixed h who (.pairVerify body seed)) :
    SameHandling crypto who (h.record who (.pairVerify body seed))
      (handle crypto shared conn (.pairVerify body seed))
      (handle crypto alone conn (.pairVerify body seed)) := by
  obtain ⟨bytes, ⟨rfl⟩, long⟩ := readable
  by_cases first : bytes.head? = some 1
  · have step : isFirst (some bytes) = true := by simpa [isFirst] using first
    simp only [Unmixed, step, if_true] at unmixed
    exact verifyFirst_own agrees conn first long seed unmixed
  · have step : isFirst (some bytes) = false := by simpa [isFirst] using first
    simp only [Unmixed, step, Bool.false_eq_true, if_false] at unmixed
    exact verifySecond_own agrees conn first long seed unmixed

theorem fpSetup_own (agrees : Agrees crypto who h shared alone) (conn : RaopConn ρ)
    {body : Option Bytes} (readable : Readable crypto (.fpSetup body)) :
    SameHandling crypto who (h.record who (.fpSetup body))
      (handle crypto shared conn (.fpSetup body)) (handle crypto alone conn (.fpSetup body)) := by
  obtain ⟨data, ⟨rfl⟩, long, inside⟩ := readable
  simp only [handle, requestHandleFpsetup_eq crypto long inside]
  refine ⟨_, _, rfl, rfl, rfl, rfl, agrees.paired, agrees.unpaired, agrees.his, agrees.session, ?_⟩
  intro mine
  by_cases short : data.length = 16
  · simp only [WriterHistory.record, Option.getD_some, if_pos short] at mine
    simpa [Handling.plain, short] using agrees.message mine
  · simp [Handling.plain, short]

theorem setup_own (agrees : Agrees crypto who h shared alone) (conn : RaopConn ρ)
    {eiv : Option Bytes} (ekey : Bytes) (readable : Readable crypto (.setup eiv ekey))
    (unmixed : Unmixed h who (.setup eiv ekey)) :
    SameHandling crypto who (h.record who (.setup eiv ekey))
      (handle crypto shared conn (.setup eiv ekey)) (handle crypto alone conn (.setup eiv ekey)) := by
  obtain ⟨ready, copied, eq⟩ := requestHandleSetupKeys_eq crypto shared conn readable ekey
  obtain ⟨ready', copied', eq'⟩ := requestHandleSetupKeys_eq crypto alone conn readable ekey
  obtain rfl : ready = ready' := Except.ok.inj (copied.symm.trans copied')
  have key : setupKey crypto shared ready ekey = setupKey crypto alone ready ekey := by
    unfold setupKey
    split
    · rename_i size
      rw [agrees.message (unmixed size)]
    · rfl
  simp only [handle, eq, eq', key]
  exact ⟨_, _, rfl, rfl, rfl, rfl, agrees.paired, agrees.unpaired, agrees.his, agrees.session,
    agrees.message⟩

theorem request_own (agrees : Agrees crypto who h shared alone) (conn : RaopConn ρ)
    (request : HandshakeRequest) (readable : Readable crypto request)
    (unmixed : Unmixed h who request) :
    SameHandling crypto who (h.record who request) (handle crypto shared conn request)
      (handle crypto alone conn request) := by
  cases request with
  | pairSetup body => exact pairSetup_own agrees conn body
  | pairVerify body seed => exact pairVerify_own agrees conn seed readable unmixed
  | fpSetup body => exact fpSetup_own agrees conn readable
  | setup eiv ekey => exact setup_own agrees conn ekey readable unmixed

end Own

section Other

variable {crypto} {who party : ℕ} {h : WriterHistory} {shared alone : RaopServer}

theorem pairVerify_other (agrees : Agrees crypto who h shared alone) (different : party ≠ who)
    (conn : RaopConn ρ) {body : Option Bytes} (seed : Bytes)
    (readable : Readable crypto (.pairVerify body seed)) :
    ∃ out, handle crypto shared conn (.pairVerify body seed) = .ok out ∧
      Agrees crypto who (h.record party (.pairVerify body seed)) out.server alone := by
  obtain ⟨bytes, ⟨rfl⟩, long⟩ := readable
  by_cases first : bytes.head? = some 1
  · have step : isFirst (some bytes) = true := by simpa [isFirst] using first
    refine ⟨_, pairverifyFirst_eq crypto first long seed, agrees.paired, agrees.unpaired,
      fun mine => ?_, fun mine => absurd (mine_some.mp mine) different, agrees.message⟩
    simp only [WriterHistory.record, step, if_true, mine_some] at mine
    exact absurd mine different
  · have step : isFirst (some bytes) = false := by simpa [isFirst] using first
    refine ⟨_, pairverifySecond_eq crypto first long seed, agrees.paired, agrees.unpaired,
      fun mine => ?_, fun mine => absurd (mine_some.mp mine) different, agrees.message⟩
    simp only [WriterHistory.record, step, Bool.false_eq_true, if_false] at mine
    exact agrees.his mine

theorem request_other (agrees : Agrees crypto who h shared alone) (different : party ≠ who)
    (conn : RaopConn ρ) (request : HandshakeRequest) (readable : Readable crypto request) :
    ∃ out, handle crypto shared conn request = .ok out ∧
      Agrees crypto who (h.record party request) out.server alone := by
  cases request with
  | pairSetup body =>
      refine ⟨_, rfl, fun member => ⟨⟨rfl, rfl⟩, ?_⟩, fun nobody => by simp
        [WriterHistory.record] at nobody, fun mine => ?_, agrees.session, agrees.message⟩
      · exact (agrees.paired ((List.mem_cons.mp member).resolve_left different.symm)).2
      · by_cases long : (body.getD []).length = 32
        · simp only [WriterHistory.record, if_pos long, mine_some] at mine
          exact absurd mine different
        · simp only [WriterHistory.record, if_neg long] at mine
          simpa [requestHandlePairsetup, Handling.plain, long] using agrees.his mine
  | pairVerify body seed => exact pairVerify_other agrees different conn seed readable
  | fpSetup body =>
      obtain ⟨data, ⟨rfl⟩, long, inside⟩ := readable
      refine ⟨_, requestHandleFpsetup_eq crypto long inside, agrees.paired, agrees.unpaired,
        agrees.his, agrees.session, fun mine => ?_⟩
      by_cases short : data.length = 16
      · simp only [WriterHistory.record, Option.getD_some, if_pos short] at mine
        simpa [Handling.plain, short] using agrees.message mine
      · simp only [WriterHistory.record, Option.getD_some, if_neg short, mine_some] at mine
        exact absurd mine different
  | setup eiv ekey =>
      obtain ⟨_, -, eq⟩ := requestHandleSetupKeys_eq crypto shared conn readable ekey
      exact ⟨_, eq, agrees.paired, agrees.unpaired, agrees.his, agrees.session, agrees.message⟩

end Other

def writerMachine :
    Transducer (Option (Handshakes ρ) × WriterHistory) (ℕ × HandshakeRequest)
      (WriterHistory × Option HandshakeAnswer) :=
  (handshakeMachine crypto).observe fun _ event h => h.record event.1 event.2

/-- No request leaves its buffers, and those of `who` read what is its own. -/
def Separate (who : ℕ) (state : Option (Handshakes ρ) × WriterHistory)
    (event : ℕ × HandshakeRequest) : Prop :=
  Readable crypto event.2 ∧ (event.1 = who → Unmixed state.2 who event.2)

instance (who : ℕ) (state : Option (Handshakes ρ) × WriterHistory)
    (event : ℕ × HandshakeRequest) : Decidable (Separate crypto who state event) :=
  inferInstanceAs (Decidable (_ ∧ (_ → _)))

def Related (who : ℕ) (shared : Option (Handshakes ρ) × WriterHistory)
    (alone : Option (Handshakes ρ)) : Prop :=
  ∃ s t, shared.1 = some s ∧ alone = some t ∧ s.conns who = t.conns who ∧
    Agrees crypto who shared.2 s.server t.server

theorem step_own {who : ℕ} {shared : Option (Handshakes ρ) × WriterHistory}
    {alone : Option (Handshakes ρ)} (related : Related crypto who shared alone)
    (request : HandshakeRequest) (separate : Separate crypto who shared (who, request)) :
    Related crypto who ((writerMachine crypto).step shared (who, request)).1
        ((handshakeMachine crypto).step alone (who, request)).1 ∧
      ((writerMachine crypto).step shared (who, request)).2.2 =
        ((handshakeMachine crypto).step alone (who, request)).2 := by
  obtain ⟨_, h⟩ := shared
  obtain ⟨s, t, rfl, rfl, conn, agrees⟩ := related
  obtain ⟨first, second, handled, handled', sameConn, answer, next⟩ :=
    request_own agrees (s.conns who) request separate.1 (separate.2 rfl)
  simp only [writerMachine, Transducer.observe, handshakeMachine, ← conn, handled, handled']
  exact ⟨⟨_, _, rfl, rfl, by simp [sameConn], next⟩, congrArg some answer⟩

theorem step_other {who party : ℕ} {shared : Option (Handshakes ρ) × WriterHistory}
    {alone : Option (Handshakes ρ)} (different : party ≠ who)
    (related : Related crypto who shared alone) (request : HandshakeRequest)
    (separate : Separate crypto who shared (party, request)) :
    Related crypto who ((writerMachine crypto).step shared (party, request)).1 alone := by
  obtain ⟨_, h⟩ := shared
  obtain ⟨s, t, rfl, rfl, conn, agrees⟩ := related
  obtain ⟨out, handled, next⟩ := request_other agrees different (s.conns party) request separate.1
  simp only [writerMachine, Transducer.observe, handshakeMachine, handled]
  exact ⟨_, _, rfl, rfl, (Function.update_of_ne different.symm _ _).trans conn, next⟩

/-- In every interleaving that keeps them separate, the replies and keys of a connection
are those of the run in which it is alone. -/
theorem handshakes_isolated (start : Handshakes ρ) (who : ℕ)
    (events : List (ℕ × HandshakeRequest))
    (separate : (writerMachine crypto).Admissible (Separate crypto who) (some start, .start) events) :
    answersOf who events ((handshakeMachine crypto).run (some start) events).2 =
        ((handshakeMachine crypto).run (some start) (inputsOf who events)).2 ∧
      ∃ shared alone, ((handshakeMachine crypto).run (some start) events).1 = some shared ∧
        ((handshakeMachine crypto).run (some start) (inputsOf who events)).1 = some alone ∧
        shared.conns who = alone.conns who := by
  have related : Related crypto who (some start, .start) (some start) :=
    ⟨start, start, rfl, rfl, rfl, agrees_start crypto who start.server⟩
  obtain ⟨⟨s, t, shared, alone, conn, -⟩, answers⟩ := (writerMachine crypto).run_isolated
    (handshakeMachine crypto) Prod.snd (Separate crypto who) who (Related crypto who)
    (fun _ _ request related separate => step_own crypto related request separate)
    (fun _ _ _ request different related separate =>
      step_other crypto different related request separate)
    events _ _ related separate
  obtain ⟨state, same⟩ := (handshakeMachine crypto).observe_run
    (fun _ event h => WriterHistory.record h event.1 event.2) events (some start) .start
  constructor
  · rw [← answers, ← answersOf_map, ← same]
    rfl
  · exact ⟨s, t, state.symm.trans shared, alone, conn⟩

/-- Toy cryptography; FairPlay checks its messages as playfair.c does, and the key is the
end of the message. -/
def plainCrypto : RaopCrypto where
  gEdPublicKey := List.replicate 32 1
  gEdPrivateKey := List.replicate 64 2
  curve25519Donna secret point := List.replicate 32 (secret.headD 0 + (point.getD []).headD 9)
  ed25519Sign message _ _ := message
  ed25519Verify signature message _ := signature = message
  sha512msg salt key := salt ++ key
  ctr128Encrypt ctr data := ({ ctr with ctrNum := ctr.ctrNum + 1 }, data)
  fairplaySetup data :=
    if data.getD 5 0 = 1 ∧ data.getD 6 0 = 3 then
      some ([0x46, 0x50, 0x4c, 0x59, 3, 1, 4, 0, 0, 0, 0, 20] ++ data.drop (data.length - 20))
    else none
  fairplayDecrypt message ekey :=
    if message.getD 5 0 = 1 ∧ message.getD 6 0 = 3 ∧ ekey.getD 5 0 = 2 then
      some (message.drop 148)
    else none

def plainStart : Handshakes Unit :=
  ⟨raopInit (.lit "") [] 1080 1920 60, fun _ => connInit [] [] (.lit "0")⟩

def verifyFirst (client seed : UInt8) : HandshakeRequest :=
  .pairVerify (some (1 :: 0 :: 0 :: 0 :: List.replicate 64 client)) (List.replicate 32 seed)

def verifySecond (client seed : UInt8) : HandshakeRequest :=
  .pairVerify (some (0 :: 0 :: 0 :: 0 :: (List.replicate 32 client ++ List.replicate 32 (seed + 9))))
    []

def fairplayMessage (client : UInt8) : HandshakeRequest :=
  .fpSetup (some ([0x46, 0x50, 0x4c, 0x59, 3, 1, 3, 0, 0, 0, 0, 152] ++ List.replicate 152 client))

def keySetup : HandshakeRequest :=
  .setup none ([0x46, 0x50, 0x4c, 0x59, 1, 2, 1, 0] ++ List.replicate 64 0)

def inTurn : List (ℕ × HandshakeRequest) :=
  [(1, verifyFirst 1 40), (1, verifySecond 1 40), (2, verifyFirst 2 50), (2, verifySecond 2 50),
    (1, fairplayMessage 1), (1, keySetup), (2, fairplayMessage 2), (2, keySetup)]

theorem handshakes_isolated_inTurn :
    answersOf 1 inTurn ((handshakeMachine plainCrypto).run (some plainStart) inTurn).2 =
        ((handshakeMachine plainCrypto).run (some plainStart) (inputsOf 1 inTurn)).2 ∧
      ∃ shared alone, ((handshakeMachine plainCrypto).run (some plainStart) inTurn).1 =
          some shared ∧
        ((handshakeMachine plainCrypto).run (some plainStart) (inputsOf 1 inTurn)).1 = some alone ∧
        shared.conns 1 = alone.conns 1 :=
  handshakes_isolated plainCrypto plainStart 1 inTurn (by decide +kernel)

def crossed : List (ℕ × HandshakeRequest) :=
  [(1, fairplayMessage 1), (2, fairplayMessage 2), (1, keySetup)]

theorem crossed_fairplayMessages_mix :
    answersOf 1 crossed ((handshakeMachine plainCrypto).run (some plainStart) crossed).2 ≠
      ((handshakeMachine plainCrypto).run (some plainStart) (inputsOf 1 crossed)).2 := by
  decide +kernel

end AirCast.Raop
