import AirCast.Lib.Segmentation
import AirCast.Lib.Transducer
import AirCast.Raop.RaopBuffer

/-! # The receiving threads of raop_rtp.c

`raop_rtp_thread_udp` takes what `recvfrom` returns on its sockets,
`raop_rtp_thread_tcp` cuts frames out of one stream.  A thread is a machine: one
input is one round of its loop, the answer is the calls the round makes, in order.
A failed assertion ends the thread. -/

set_option autoImplicit false

namespace AirCast.Raop

variable {δ : Type}

def noFlush : ℤ := -42

def codecNumber (fmtp : CString) : ℤ :=
  if (strstr (bytesOf "AAC-eld") fmtp.chars).isSome then 3 else 1

def raopRtpInit (abi : Abi) (codec : AudioCodec δ) (malloc : Malloc) (fmtp : CString)
    (aeskey aesiv : Bytes) : Option (RaopBuffer δ) :=
  raopBufferInit abi codec malloc fmtp aeskey aesiv 1 (codecNumber fmtp)

/-- The flush request taken over by `raop_rtp_process_events`. -/
def processEvents (b : RaopBuffer δ) (flush : ℤ) : RaopBuffer δ :=
  if flush ≠ noFlush then raopBufferFlush b flush else b

/-- A call that leaves the thread, or that touches its packet buffer. -/
inductive RtpCall where
  | queue (data : Bytes) (datalen : BitVec 16) (ret : ℤ)
  /-- `audio_process` -/
  | process (audio : Dequeued)
  /-- `raop_rtp_resend_callback` -/
  | resend (seqnum : BitVec 16) (count : ℤ)
  /-- `memmove` from `packet + offset`, with `packetlen` bytes in the buffer -/
  | shift (offset length packetlen : ℕ)
  deriving DecidableEq

/-- `raop_buffer_queue` on `datalen` bytes of `memory`, and the assertion behind it. -/
def queueAsserted (codec : AudioCodec δ) (b : RaopBuffer δ) (memory : Bytes) (datalen : BitVec 16)
    (useSeqnum : Bool) : Option (RaopBuffer δ) × RtpCall :=
  let data := memory.take datalen.toNat
  let queued := raopBufferQueue codec b data datalen useSeqnum
  (if 0 ≤ queued.2 then some queued.1 else none, .queue data datalen queued.2)

/-- What `recvfrom` finds: a datagram, or the error -1. -/
inductive Received where
  | datagram (bytes : Bytes)
  | error
  deriving DecidableEq

namespace Received

/-- The result as the `unsigned int` in which it is kept. -/
def packetlen : Received → ℕ
  | .datagram bytes => min bytes.length raopPacketLen
  | .error => 2 ^ 32 - 1

/-- The packet buffer afterwards; an error leaves it as it was. -/
def fill (packet : Bytes) : Received → Bytes
  | .datagram bytes => bytes.take raopPacketLen ++ packet.drop bytes.length
  | .error => packet

end Received

/-- The socket `select` reports first: control before timing before data. -/
inductive Selected where
  | timeout
  | control (received : Received)
  | timing
  | data (received : Received)
  deriving DecidableEq

structure UdpRound where
  flush : ℤ
  ready : Selected
  deriving DecidableEq

structure UdpThread (δ : Type) where
  buffer : RaopBuffer δ
  packet : Bytes
  controlRport : BitVec 16

/-- `packet[1] & ~0x80`. -/
def packetType (packet : Bytes) : UInt8 := packet.getD 1 0 &&& 0x7f

def bufLen (b : RaopBuffer δ) : ℤ := (seqnumCmp b.lastSeqnum b.firstSeqnum + 1).bmod (2 ^ 16)

theorem dequeue_empty {b : RaopBuffer δ} (short : bufLen b ≤ 0) (noResend : Bool) :
    raopBufferDequeue b noResend = (b, none) := by
  have stops : b.isEmpty = true ∨
      (seqnumCmp b.lastSeqnum b.firstSeqnum + 1).bmod (2 ^ 16) ≤ 0 := Or.inr short
  simp only [raopBufferDequeue, if_pos stops]

theorem dequeue_advances {b after : RaopBuffer δ} {noResend : Bool} {audio : Dequeued}
    (dequeued : raopBufferDequeue b noResend = (after, some audio)) :
    0 < bufLen b ∧ after.firstSeqnum = b.firstSeqnum + 1 ∧ after.lastSeqnum = b.lastSeqnum := by
  have positive : 0 < bufLen b := by
    by_contra short
    rw [dequeue_empty (not_lt.mp short)] at dequeued
    simp at dequeued
  refine ⟨positive, ?_⟩
  unfold raopBufferDequeue at dequeued
  dsimp only at dequeued
  split at dequeued
  · simp at dequeued
  · split at dequeued
    · simp at dequeued
    · split at dequeued <;> cases dequeued <;> exact ⟨rfl, rfl⟩

theorem dequeue_shortens {b after : RaopBuffer δ} {noResend : Bool} {audio : Dequeued}
    (dequeued : raopBufferDequeue b noResend = (after, some audio)) :
    (bufLen after).toNat < (bufLen b).toNat := by
  obtain ⟨positive, first, last⟩ := dequeue_advances dequeued
  have lastBound := b.lastSeqnum.isLt
  have firstBound := b.firstSeqnum.isLt
  have next : (b.firstSeqnum + 1).toNat = (b.firstSeqnum.toNat + 1) % 65536 := by
    rw [BitVec.toNat_add]
    rfl
  simp only [bufLen, seqnumCmp, first, last, next, Int.bmod_def] at positive ⊢
  split at positive <;> split at positive <;> omega

/-- `raop_buffer_dequeue` until it returns NULL. -/
def dequeueAll (b : RaopBuffer δ) (noResend : Bool) : RaopBuffer δ × List RtpCall :=
  match _ : raopBufferDequeue b noResend with
  | (_, none) => (b, [])
  | (after, some audio) =>
      let rest := dequeueAll after noResend
      (rest.1, .process audio :: rest.2)
termination_by (bufLen b).toNat
decreasing_by exact dequeue_shortens ‹_›

def controlPacket (codec : AudioCodec δ) (t : UdpThread δ) (received : Received) :
    Option (UdpThread δ) × List RtpCall :=
  let packet := received.fill t.packet
  let len := received.packetlen
  let t := { t with packet := packet }
  if 12 ≤ len ∧ packetType packet = 0x56 then
    let queued := queueAsserted codec t.buffer (packet.drop 4) (BitVec.ofNat 16 (len - 4)) true
    (queued.1.map fun b => { t with buffer := b }, [queued.2])
  else (some t, [])

/-- Behind a packet all audio that is ready is processed, then missing packets are asked for. -/
def dataPacket (codec : AudioCodec δ) (t : UdpThread δ) (received : Received) :
    Option (UdpThread δ) × List RtpCall :=
  let packet := received.fill t.packet
  let len := received.packetlen
  let noResend : Bool := t.controlRport = 0
  let t := { t with packet := packet }
  if 12 ≤ len then
    let queued := queueAsserted codec t.buffer packet (BitVec.ofNat 16 len) true
    match queued.1 with
    | none => (none, [queued.2])
    | some b =>
        let drained := dequeueAll b noResend
        if noResend then (some { t with buffer := drained.1 }, queued.2 :: drained.2)
        else
          let asked := raopBufferHandleResends drained.1
          (some { t with buffer := asked.1 },
            queued.2 :: drained.2 ++ (asked.2.map fun r => RtpCall.resend r.1 r.2).toList)
  else (some t, [])

def udpRound (codec : AudioCodec δ) (t : UdpThread δ) (round : UdpRound) :
    Option (UdpThread δ) × List RtpCall :=
  let t := { t with buffer := processEvents t.buffer round.flush }
  match round.ready with
  | .timeout => (some t, [])
  | .control received => controlPacket codec t received
  | .timing => (some t, [])
  | .data received => dataPacket codec t received

/-- `raop_rtp_thread_udp`. -/
def udpMachine (codec : AudioCodec δ) :
    Transducer (Option (UdpThread δ)) UdpRound (List RtpCall) where
  step thread round :=
    match thread with
    | none => (none, [])
    | some t => udpRound codec t round

/-- `packet` holds `packetlen` bytes of the stream, `stream` what the socket has yet to hand out. -/
structure TcpThread (δ : Type) where
  buffer : RaopBuffer δ
  packet : Bytes
  packetlen : ℕ
  stream : Arrivals UInt8

/-- `memmove (packet, packet + offset, length)`; what lies behind the array is not
known, and is never read before it is overwritten. -/
def shiftPacket (packet : Bytes) (offset length : ℕ) : Bytes :=
  (packet.drop offset).take length ++
    packet.drop ((packet.drop offset).take length).length

/-- The frame at the front of the packet buffer. -/
inductive FrontFrame where
  | incomplete
  | invalid
  | frame (rtplen : ℕ)
  deriving DecidableEq

def frontFrame (packet : Bytes) (packetlen : ℕ) : FrontFrame :=
  if packetlen < 4 then .incomplete
  else if packet.getD 0 0 ≠ 36 ∨ packet.getD 1 0 ≠ 0 then .invalid
  else
    let rtplen := (be16 packet 2).toNat
    if raopPacketLen < rtplen then .invalid
    else if packetlen < 4 + rtplen then .incomplete
    else .frame rtplen

/-- A complete frame is queued and taken out of the packet buffer, and one slot dequeued. -/
def tcpFrame (codec : AudioCodec δ) (t : TcpThread δ) (rtplen : ℕ) :
    Option (TcpThread δ) × List RtpCall :=
  let queued := queueAsserted codec t.buffer (t.packet.drop 4) (BitVec.ofNat 16 rtplen) false
  match queued.1 with
  | none => (none, [queued.2])
  | some b =>
      let dequeued := raopBufferDequeue b true
      (some
        { t with
          buffer := dequeued.1
          packet := shiftPacket t.packet (4 + rtplen) (t.packetlen - rtplen)
          packetlen := t.packetlen - (4 + rtplen) },
        queued.2 :: .shift (4 + rtplen) (t.packetlen - rtplen) t.packetlen ::
          (dequeued.2.map RtpCall.process).toList)

def TcpThread.received (t : TcpThread δ) : Bytes × Arrivals UInt8 :=
  t.stream.receive (raopPacketLen - t.packetlen)

def TcpThread.refill (t : TcpThread δ) : TcpThread δ :=
  let got := t.received
  { t with
    packet := t.packet.take t.packetlen ++ got.1 ++ t.packet.drop (t.packetlen + got.1.length)
    packetlen := t.packetlen + got.1.length
    stream := got.2 }

def tcpRound (codec : AudioCodec δ) (t : TcpThread δ) (flush : ℤ) :
    Option (TcpThread δ) × List RtpCall :=
  let t := { t with buffer := processEvents t.buffer flush }
  if t.received.1 = [] then (none, [])
  else
    let t := t.refill
    match frontFrame t.packet t.packetlen with
    | .incomplete => (some t, [])
    | .invalid => (none, [])
    | .frame rtplen => tcpFrame codec t rtplen

/-- `raop_rtp_thread_tcp`, from the accepted connection on; one input is the flush
request found in that round. -/
def tcpMachine (codec : AudioCodec δ) :
    Transducer (Option (TcpThread δ)) ℤ (List RtpCall) where
  step thread flush :=
    match thread with
    | none => (none, [])
    | some t => tcpRound codec t flush

end AirCast.Raop
