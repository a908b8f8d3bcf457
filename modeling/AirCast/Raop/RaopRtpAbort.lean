import AirCast.Raop.RaopJitter
import AirCast.Raop.RaopRtp

/-! # Which packets abort the receiving threads

The assertion behind `raop_buffer_queue` fails exactly on a length the buffer does
not admit.  The UDP thread passes one on for a short retransmitted packet and for
an error of `recvfrom`, the TCP thread for a frame shorter than an RTP header. -/

set_option autoImplicit false

namespace AirCast.Raop

variable {δ : Type} (codec : AudioCodec δ)

/-- `raop_buffer_queue` gets a length it accepts, so the assertion holds. -/
def RtpCall.Accepted : RtpCall → Prop
  | .queue _ datalen ret => (12 ≤ datalen.toNat ∧ datalen.toNat ≤ raopPacketLen) ∧ 0 ≤ ret
  | _ => True

theorem queueAsserted_accepted {b : RaopBuffer δ} (known : KnownCn b.cn) (memory : Bytes)
    (datalen : BitVec 16) (useSeqnum : Bool) :
    (queueAsserted codec b memory datalen useSeqnum).2.Accepted ↔
      12 ≤ datalen.toNat ∧ datalen.toNat ≤ raopPacketLen := by
  simp only [queueAsserted, RtpCall.Accepted, queue_accepts_iff codec known, and_self]

theorem queueAsserted_cn {b after : RaopBuffer δ} {memory : Bytes} {datalen : BitVec 16}
    {useSeqnum : Bool} (queued : (queueAsserted codec b memory datalen useSeqnum).1 = some after) :
    after.cn = b.cn := by
  simp only [queueAsserted] at queued
  split at queued
  · cases Option.some.inj queued
    exact queue_cn _ _ _ _ _
  · simp at queued

@[simp] theorem processEvents_cn (b : RaopBuffer δ) (flush : ℤ) : (processEvents b flush).cn = b.cn := by
  unfold processEvents
  split
  · exact flush_cn b flush
  · rfl

theorem dequeueAll_spec (b : RaopBuffer δ) (noResend : Bool) :
    (dequeueAll b noResend).1.cn = b.cn ∧ ∀ call ∈ (dequeueAll b noResend).2, call.Accepted := by
  fun_induction dequeueAll b noResend with
  | case1 b same dequeued => simp
  | case2 b after audio dequeued rest ih =>
      have same := dequeue_cn b noResend
      rw [dequeued] at same
      refine ⟨ih.1.trans same, ?_⟩
      rw [List.forall_mem_cons]
      exact ⟨trivial, ih.2⟩

/-- The lengths and results of `recvfrom` that the UDP thread survives. -/
def UdpSafe (t : UdpThread δ) (round : UdpRound) : Prop :=
  match round.ready with
  | .control (.datagram bytes) =>
      12 ≤ bytes.length → packetType bytes = 0x56 → 16 ≤ bytes.length
  | .control .error => packetType t.packet ≠ 0x56
  | .data .error => False
  | _ => True

theorem packetType_fill (packet bytes : Bytes) (long : 12 ≤ bytes.length) :
    packetType ((Received.datagram bytes).fill packet) = packetType bytes := by
  obtain ⟨a, b, rest, rfl⟩ : ∃ a b rest, bytes = a :: b :: rest := by
    match bytes, long with
    | a :: b :: rest, _ => exact ⟨a, b, rest, rfl⟩
  rfl

section Datagrams

variable {t : UdpThread δ} (known : KnownCn t.buffer.cn)

include known

theorem controlPacket_accepted (received : Received) (flush : ℤ) :
    (∀ call ∈ (controlPacket codec t received).2, call.Accepted) ↔
      UdpSafe t ⟨flush, .control received⟩ := by
  unfold controlPacket
  dsimp only
  split
  · rename_i selected
    obtain ⟨long, retransmitted⟩ := selected
    simp only [List.forall_mem_singleton, queueAsserted_accepted codec known, BitVec.toNat_ofNat]
    cases received with
    | datagram bytes =>
        simp only [Received.packetlen, raopPacketLen] at long
        rw [packetType_fill t.packet bytes (by omega)] at retransmitted
        simp only [UdpSafe, retransmitted, Received.packetlen, raopPacketLen, true_imp_iff]
        omega
    | error =>
        have stale : packetType t.packet = 0x56 := retransmitted
        simp only [UdpSafe, stale, Received.packetlen, raopPacketLen, ne_eq, not_true_eq_false,
          iff_false]
        omega
  · rename_i other
    refine iff_of_true (by simp) ?_
    cases received with
    | datagram bytes =>
        intro long retransmitted
        refine absurd ⟨?_, ?_⟩ other
        · simp only [Received.packetlen, raopPacketLen]
          omega
        · rw [packetType_fill t.packet bytes long]
          exact retransmitted
    | error => exact fun stale => other ⟨by simp [Received.packetlen], stale⟩

theorem controlPacket_known {received : Received} {after : UdpThread δ}
    (next : (controlPacket codec t received).1 = some after) : KnownCn after.buffer.cn := by
  unfold controlPacket at next
  dsimp only at next
  split at next
  · obtain ⟨b, queued, rfl⟩ := Option.map_eq_some_iff.mp next
    exact (queueAsserted_cn codec queued) ▸ known
  · cases Option.some.inj next
    exact known

theorem dataPacket_accepted (received : Received) (flush : ℤ) :
    (∀ call ∈ (dataPacket codec t received).2, call.Accepted) ↔
      UdpSafe t ⟨flush, .data received⟩ := by
  have queuedFirst : 12 ≤ received.packetlen →
      ((∀ call ∈ (dataPacket codec t received).2, call.Accepted) ↔
        12 ≤ (BitVec.ofNat 16 received.packetlen).toNat ∧
          (BitVec.ofNat 16 received.packetlen).toNat ≤ raopPacketLen) := by
    intro long
    have first := queueAsserted_accepted codec known (received.fill t.packet)
      (BitVec.ofNat 16 received.packetlen) true
    unfold dataPacket
    simp only [if_pos long]
    split
    · rw [List.forall_mem_singleton, first]
    · split
      · rw [List.forall_mem_cons, first]
        exact and_iff_left (dequeueAll_spec _ _).2
      · rw [List.cons_append, List.forall_mem_cons, first]
        refine and_iff_left fun call member => ?_
        rcases List.mem_append.mp member with member | member
        · exact (dequeueAll_spec _ _).2 call member
        · rw [Option.mem_toList, Option.map_eq_some_iff] at member
          obtain ⟨request, -, rfl⟩ := member
          trivial
  cases received with
  | datagram bytes =>
      refine iff_of_true ?_ trivial
      by_cases long : 12 ≤ (Received.datagram bytes).packetlen
      · rw [queuedFirst long, BitVec.toNat_ofNat]
        simp only [Received.packetlen, raopPacketLen] at long ⊢
        omega
      · simp [dataPacket, long]
  | error =>
      rw [queuedFirst (by simp [Received.packetlen]), BitVec.toNat_ofNat]
      simp only [UdpSafe, Received.packetlen, raopPacketLen, iff_false]
      omega

theorem dataPacket_known {received : Received} {after : UdpThread δ}
    (next : (dataPacket codec t received).1 = some after) : KnownCn after.buffer.cn := by
  unfold dataPacket at next
  dsimp only at next
  split at next
  · split at next
    · simp at next
    · rename_i b queued
      have same : b.cn = t.buffer.cn := queueAsserted_cn codec queued
      have drained := (dequeueAll_spec b (decide (t.controlRport = 0))).1
      split at next <;> cases Option.some.inj next
      · exact (drained.trans same) ▸ known
      · exact ((handleResends_cn _).trans (drained.trans same)) ▸ known
  · cases Option.some.inj next
    exact known

end Datagrams

def UdpKnown (thread : Option (UdpThread δ)) : Prop := ∀ t, thread = some t → KnownCn t.buffer.cn

theorem udp_known (thread : Option (UdpThread δ)) (round : UdpRound) (known : UdpKnown thread) :
    UdpKnown ((udpMachine codec).step thread round).1 := by
  cases thread with
  | none => exact known
  | some t =>
      have knownHere : KnownCn (processEvents t.buffer round.flush).cn := by
        rw [processEvents_cn]
        exact known t rfl
      intro after next
      simp only [udpMachine, udpRound] at next
      cases ready : round.ready with
      | timeout =>
          simp only [ready, Option.some.injEq] at next
          exact next ▸ knownHere
      | timing =>
          simp only [ready, Option.some.injEq] at next
          exact next ▸ knownHere
      | control received =>
          simp only [ready] at next
          exact controlPacket_known codec knownHere next
      | data received =>
          simp only [ready] at next
          exact dataPacket_known codec knownHere next

theorem udp_accepted (thread : Option (UdpThread δ)) (round : UdpRound) (known : UdpKnown thread) :
    (∀ call ∈ ((udpMachine codec).step thread round).2, call.Accepted) ↔
      Alive UdpSafe thread round := by
  cases thread with
  | none => exact iff_of_true (by simp [udpMachine]) trivial
  | some t =>
      have knownHere : KnownCn (processEvents t.buffer round.flush).cn := by
        rw [processEvents_cn]
        exact known t rfl
      obtain ⟨flush, ready⟩ := round
      cases ready with
      | timeout => exact iff_of_true (by simp [udpMachine, udpRound]) trivial
      | timing => exact iff_of_true (by simp [udpMachine, udpRound]) trivial
      | control received =>
          exact controlPacket_accepted codec
            (t := { t with buffer := processEvents t.buffer flush }) knownHere received flush
      | data received =>
          exact dataPacket_accepted codec
            (t := { t with buffer := processEvents t.buffer flush }) knownHere received flush

/-- The bytes received in this round do not complete a frame shorter than an RTP header. -/
def TcpSafe (t : TcpThread δ) (_ : ℤ) : Prop :=
  t.received.1 ≠ [] → ∀ rtplen < 12, frontFrame t.refill.packet t.refill.packetlen ≠ .frame rtplen

def TcpKnown (thread : Option (TcpThread δ)) : Prop := ∀ t, thread = some t → KnownCn t.buffer.cn

theorem frontFrame_bounded {packet : Bytes} {packetlen rtplen : ℕ}
    (front : frontFrame packet packetlen = .frame rtplen) :
    rtplen ≤ raopPacketLen ∧ 4 + rtplen ≤ packetlen := by
  unfold frontFrame at front
  split at front
  · simp at front
  · split at front
    · simp at front
    · dsimp only at front
      split at front
      · simp at front
      · split at front
        · simp at front
        · cases front
          omega

theorem tcpFrame_accepted {t : TcpThread δ} (known : KnownCn t.buffer.cn) {rtplen : ℕ}
    (short : rtplen ≤ raopPacketLen) :
    (∀ call ∈ (tcpFrame codec t rtplen).2, call.Accepted) ↔ 12 ≤ rtplen := by
  have first := queueAsserted_accepted codec known (t.packet.drop 4) (BitVec.ofNat 16 rtplen) false
  have fits : (BitVec.ofNat 16 rtplen).toNat = rtplen := by
    simp only [BitVec.toNat_ofNat]
    simp only [raopPacketLen] at short
    omega
  rw [fits, and_iff_left short] at first
  unfold tcpFrame
  dsimp only
  split
  · rw [List.forall_mem_singleton, first]
  · rw [List.forall_mem_cons, first]
    refine and_iff_left fun call member => ?_
    rcases List.mem_cons.mp member with rfl | member
    · trivial
    · rw [Option.mem_toList, Option.map_eq_some_iff] at member
      obtain ⟨audio, -, rfl⟩ := member
      trivial

theorem tcpFrame_known {t : TcpThread δ} (known : KnownCn t.buffer.cn) {rtplen : ℕ}
    {after : TcpThread δ} (next : (tcpFrame codec t rtplen).1 = some after) :
    KnownCn after.buffer.cn := by
  unfold tcpFrame at next
  dsimp only at next
  split at next
  · simp at next
  · rename_i b queued
    have same : b.cn = t.buffer.cn := queueAsserted_cn codec queued
    cases Option.some.inj next
    exact ((dequeue_cn b true).trans same) ▸ known

theorem tcp_known (thread : Option (TcpThread δ)) (flush : ℤ) (known : TcpKnown thread) :
    TcpKnown ((tcpMachine codec).step thread flush).1 := by
  cases thread with
  | none => exact known
  | some t =>
      have knownHere : KnownCn (processEvents t.buffer flush).cn := by
        rw [processEvents_cn]
        exact known t rfl
      intro after next
      simp only [tcpMachine, tcpRound] at next
      split at next
      · simp at next
      · split at next
        · cases Option.some.inj next
          exact knownHere
        · simp at next
        · exact tcpFrame_known codec knownHere next

theorem tcp_accepted (thread : Option (TcpThread δ)) (flush : ℤ) (known : TcpKnown thread) :
    (∀ call ∈ ((tcpMachine codec).step thread flush).2, call.Accepted) ↔
      Alive TcpSafe thread flush := by
  cases thread with
  | none => exact iff_of_true (by simp [tcpMachine]) trivial
  | some t =>
      -- the flush changes neither the stream nor the packet buffer
      change (∀ call ∈ (tcpRound codec t flush).2, call.Accepted) ↔
        TcpSafe { t with buffer := processEvents t.buffer flush } flush
      have knownReady : KnownCn
          ({ t with buffer := processEvents t.buffer flush } : TcpThread δ).buffer.cn :=
        (processEvents_cn t.buffer flush).symm ▸ known t rfl
      unfold tcpRound TcpSafe
      generalize ({ t with buffer := processEvents t.buffer flush } : TcpThread δ) = ready
        at knownReady ⊢
      dsimp only
      split
      · rename_i closed
        exact iff_of_true (by simp) (fun opened => absurd closed opened)
      · rename_i received
        rw [imp_iff_right received]
        cases front : frontFrame ready.refill.packet ready.refill.packetlen with
        | incomplete => exact iff_of_true (by simp) fun n _ => by simp
        | invalid => exact iff_of_true (by simp) fun n _ => by simp
        | frame rtplen =>
            have long : (∀ n < 12, FrontFrame.frame rtplen ≠ .frame n) ↔ 12 ≤ rtplen := by
              simp only [ne_eq, FrontFrame.frame.injEq]
              constructor
              · intro other
                by_contra short
                exact other rtplen (by omega) rfl
              · rintro long n short rfl
                omega
            rw [long]
            exact tcpFrame_accepted codec (t := ready.refill) knownReady
              (frontFrame_bounded front).1

theorem raopRtpInit_known {abi : Abi} {malloc : Malloc} {fmtp : CString} {aeskey aesiv : Bytes}
    {b : RaopBuffer δ} (success : raopRtpInit abi codec malloc fmtp aeskey aesiv = some b) :
    KnownCn b.cn :=
  (init_spec abi codec malloc fmtp aeskey aesiv 1 (codecNumber fmtp) b success).1

/-- In every run of either thread all lengths are accepted exactly if every round is safe. -/
theorem threads_accept_iff_safe (abi : Abi) (malloc : Malloc) (fmtp : CString) (aeskey aesiv : Bytes)
    (base : RaopBuffer δ) (success : raopRtpInit abi codec malloc fmtp aeskey aesiv = some base) :
    (∀ (u : UdpThread δ) (rounds : List UdpRound), u.buffer.cn = base.cn →
      ((∀ calls ∈ ((udpMachine codec).run (some u) rounds).2, ∀ call ∈ calls, call.Accepted) ↔
        (udpMachine codec).Admissible (Alive UdpSafe) (some u) rounds)) ∧
    (∀ (t : TcpThread δ) (flushes : List ℤ), t.buffer.cn = base.cn →
      ((∀ calls ∈ ((tcpMachine codec).run (some t) flushes).2, ∀ call ∈ calls, call.Accepted) ↔
        (tcpMachine codec).Admissible (Alive TcpSafe) (some t) flushes)) := by
  have known := raopRtpInit_known codec success
  constructor
  · intro u rounds same
    refine (udpMachine codec).run_answers_iff (Alive UdpSafe) UdpKnown _ (udp_known codec)
      (udp_accepted codec) rounds (some u) ?_
    rintro _ ⟨rfl⟩
    exact same ▸ known
  · intro t flushes same
    refine (tcpMachine codec).run_answers_iff (Alive TcpSafe) TcpKnown _ (tcp_known codec)
      (tcp_accepted codec) flushes (some t) ?_
    rintro _ ⟨rfl⟩
    exact same ▸ known

instance : (call : RtpCall) → Decidable call.Accepted
  | .queue _ datalen ret =>
      inferInstanceAs
        (Decidable ((12 ≤ datalen.toNat ∧ datalen.toNat ≤ raopPacketLen) ∧ 0 ≤ ret))
  | .process _ | .resend _ _ | .shift _ _ _ => isTrue trivial

instance (t : UdpThread δ) : (round : UdpRound) → Decidable (UdpSafe t round)
  | ⟨_, .control (.datagram bytes)⟩ =>
      inferInstanceAs (Decidable (12 ≤ bytes.length → packetType bytes = 0x56 → 16 ≤ bytes.length))
  | ⟨_, .control .error⟩ => inferInstanceAs (Decidable (packetType t.packet ≠ 0x56))
  | ⟨_, .data .error⟩ => isFalse id
  | ⟨_, .data (.datagram _)⟩ | ⟨_, .timeout⟩ | ⟨_, .timing⟩ => isTrue trivial

def plainFmtp : CString := .lit "96 1 0 16 40 10 14 2 255 0 0 44100"

def plainBuffer : RaopBuffer Unit :=
  (raopRtpInit .arm64V8a plainCodec (fun _ => some fun _ => 0) plainFmtp [] []).get (by decide)

theorem plainBuffer_init :
    raopRtpInit .arm64V8a plainCodec (fun _ => some fun _ => 0) plainFmtp [] [] = some plainBuffer :=
  (Option.some_get _).symm

def retransmission (length : ℕ) : UdpRound :=
  ⟨noFlush, .control (.datagram ([0x80, 0xd6, 0, 0] ++ List.replicate (length - 4) 0))⟩

def plainRounds : List UdpRound :=
  [retransmission 16, ⟨noFlush, .data (.datagram (plainPacket 0 1 7))⟩, ⟨noFlush, .control .error⟩]

theorem threads_accept_iff_safe_plain :
    (∀ calls ∈ ((udpMachine plainCodec).run (some ⟨plainBuffer, [], 0⟩) plainRounds).2,
      ∀ call ∈ calls, call.Accepted) ↔
      (udpMachine plainCodec).Admissible (Alive UdpSafe) (some ⟨plainBuffer, [], 0⟩) plainRounds :=
  (threads_accept_iff_safe plainCodec _ _ plainFmtp [] [] _ plainBuffer_init).1 _ _ rfl

/-- A retransmitted packet of 12 bytes leaves 8 for the buffer. -/
theorem shortRetransmission_aborts :
    ¬ ∀ calls ∈ ((udpMachine plainCodec).run (some ⟨plainBuffer, [], 0⟩) [retransmission 12]).2,
      ∀ call ∈ calls, call.Accepted := by
  decide

end AirCast.Raop
