import AirCast.Mirror.RingBuffer
import AirCast.CString
import AirCast.Lib.Transducer

/-! # The hand-over of the video stream

`HwDecoder`: the native side writes access units into the ring, the player reads
bytes out of it.  A write ignores how much the ring took, and a read where the
player wants its bytes. -/

set_option autoImplicit false

namespace AirCast.Mirror

abbrev JavaArrays := ℕ → Bytes

/-- What `GetByteArrayElements` gives: the elements of an array, or a copy of them. -/
structure ArrayElements where
  array : ℕ
  isCopy : Bool
  deriving DecidableEq

/-- The arrays after bytes went to the start of the elements; `none` where these end before. -/
def ArrayElements.store (elements : ArrayElements) (arrays : JavaArrays) (bytes : Bytes) :
    Option JavaArrays :=
  if bytes.length ≤ (arrays elements.array).length then
    some (if elements.isCopy then arrays
      else Function.update arrays elements.array (overwrite (arrays elements.array) 0 bytes))
  else none

theorem ArrayElements.store_own {arrays : JavaArrays} {buf : ℕ} {bytes : Bytes}
    (room : bytes.length ≤ (arrays buf).length) :
    ∃ stored, ArrayElements.store ⟨buf, false⟩ arrays bytes = some stored ∧
      window (stored buf) 0 bytes.length = bytes ∧
        ∀ i, (stored i).length = (arrays i).length := by
  refine ⟨Function.update arrays buf (overwrite (arrays buf) 0 bytes), if_pos room, ?_, fun i => ?_⟩
  · rw [Function.update_self, overwrite, List.take_zero, List.nil_append, window, List.drop_zero,
      List.take_left]
  · by_cases same : i = buf
    · subst same
      rw [Function.update_self, overwrite, List.length_append, List.length_append, List.length_take,
        List.length_drop]
      omega
    · rw [Function.update_of_ne same]

structure HwDecoder where
  rbuf : Option RingBuffer
  pBuffer : Option ArrayElements

namespace HwDecoder

/-- The ring is created at the first `start` and after a `stop`. -/
def start (decoder : HwDecoder) : HwDecoder :=
  ⟨some ((decoder.rbuf.getD (ringbufferCreate (1 <<< 23))).ringbufferReset), none⟩

def stop (decoder : HwDecoder) : HwDecoder := { decoder with rbuf := none }

def write264Stream (decoder : HwDecoder) (data : Bytes) : HwDecoder :=
  { decoder with rbuf := decoder.rbuf.map fun rb => (rb.ringbufferPut data).1 }

/-- The elements that a read into an array goes to: those of the first read since the `start`. -/
def elements (copies : ℕ → Bool) (decoder : HwDecoder) (buf : ℕ) : ArrayElements :=
  decoder.pBuffer.getD ⟨buf, copies buf⟩

/-- The result, and the bytes that went to the start of some elements; a `jint` becomes a
`size_t`.  `copies` tells of which arrays the virtual machine gives a copy. -/
def read264Stream (copies : ℕ → Bool) (decoder : HwDecoder) (buf : ℕ) (_offset size : ℤ) :
    HwDecoder × ℤ × Option (ArrayElements × Bytes) :=
  match decoder.rbuf with
  | none => (decoder, -1, none)
  | some rb =>
      if rb.ringbufferIsEmpty then (decoder, 0, none)
      else
        let elements := decoder.elements copies buf
        let got := rb.ringbufferGet (toSizeT size)
        (⟨some got.1, some elements⟩, toInt got.2.length, some (elements, got.2))

/-- The decoders that `start` and `stop` lead to. -/
inductive Reachable (copies : ℕ → Bool) : HwDecoder → Prop
  | initial : Reachable copies ⟨none, none⟩
  | start {decoder : HwDecoder} : Reachable copies decoder → Reachable copies decoder.start
  | stop {decoder : HwDecoder} : Reachable copies decoder → Reachable copies decoder.stop
  | write264Stream {decoder : HwDecoder} (data : Bytes) :
      Reachable copies decoder → Reachable copies (decoder.write264Stream data)
  | read264Stream {decoder : HwDecoder} (buf : ℕ) (offset size : ℤ) :
      Reachable copies decoder →
        Reachable copies (decoder.read264Stream copies buf offset size).1

end HwDecoder

inductive StreamCall where
  | write264Stream (data : Bytes)
  | read264Stream (buf : ℕ) (offset size : ℤ)
  deriving DecidableEq

/-- The decoder and the player's arrays with a record of the session: the units written, those of
them that fit into the ring when they were written, and the bytes the player got. -/
structure StreamSession where
  decoder : HwDecoder
  arrays : JavaArrays
  written : List Bytes
  fitting : List Bytes
  delivered : Bytes

namespace StreamSession

def freeSpace (session : StreamSession) : ℕ :=
  (session.decoder.rbuf.map RingBuffer.ringbufferWriteSpace).getD 0

def pending (session : StreamSession) : Bytes :=
  (session.decoder.rbuf.map fun rb => (rb.ringbufferGet rb.size).2).getD []

def write (session : StreamSession) (data : Bytes) : StreamSession :=
  { session with
    decoder := session.decoder.write264Stream data
    written := session.written ++ [data]
    fitting := session.fitting ++ if data.length ≤ session.freeSpace then [data] else [] }

/-- The player takes as many bytes as it was told out of its array, from its offset on; `none`
where the elements were too small. -/
def read (copies : ℕ → Bool) (session : StreamSession) (buf : ℕ) (offset size : ℤ) :
    Option StreamSession :=
  let answer := session.decoder.read264Stream copies buf offset size
  match answer.2.2 with
  | none => some { session with decoder := answer.1 }
  | some (elements, bytes) =>
      (elements.store session.arrays bytes).map fun arrays =>
        { session with
          decoder := answer.1
          arrays := arrays
          delivered := session.delivered ++ window (arrays buf) offset.toNat bytes.length }

def call (copies : ℕ → Bool) (session : StreamSession) : StreamCall → Option StreamSession × ℤ
  | .write264Stream data => (some (session.write data), 0)
  | .read264Stream buf offset size => (session.read copies buf offset size,
      (session.decoder.read264Stream copies buf offset size).2.1)

def machine (copies : ℕ → Bool) : Transducer (Option StreamSession) StreamCall ℤ where
  step
    | none, _ => (none, 0)
    | some session, made => session.call copies made

def opened (before : HwDecoder) (arrays : JavaArrays) : StreamSession :=
  ⟨before.start, arrays, [], [], []⟩

def after (copies : ℕ → Bool) (before : HwDecoder) (arrays : JavaArrays)
    (calls : List StreamCall) : Option StreamSession :=
  ((machine copies).run (some (opened before arrays)) calls).1

/-- A read that finds bytes is from the beginning of the array of the first one, of which the
player has the elements themselves, and which they fit in. -/
def Placed (copies : ℕ → Bool) (session : StreamSession) : StreamCall → Prop
  | .write264Stream _ => True
  | .read264Stream buf offset size =>
      ∀ rb ∈ session.decoder.rbuf, rb.ringbufferIsEmpty = false →
        offset = 0 ∧ session.decoder.elements copies buf = ⟨buf, false⟩ ∧
          min (toSizeT size) rb.ringbufferReadSpace ≤ (session.arrays buf).length

instance (copies : ℕ → Bool) (session : StreamSession) :
    ∀ made, Decidable (session.Placed copies made)
  | .write264Stream _ => isTrue trivial
  | .read264Stream buf offset size =>
      inferInstanceAs (Decidable (∀ rb ∈ session.decoder.rbuf, rb.ringbufferIsEmpty = false →
        offset = 0 ∧ session.decoder.elements copies buf = ⟨buf, false⟩ ∧
          min (toSizeT size) rb.ringbufferReadSpace ≤ (session.arrays buf).length))

def Keeps (session : StreamSession) (content : Bytes) : Prop :=
  ∃ rb, session.decoder.rbuf = some rb ∧ rb.size = 2 ^ 23 ∧ rb.Holds content

variable {session : StreamSession} {content : Bytes}

theorem Keeps.freeSpace (keeps : session.Keeps content) :
    session.freeSpace = 2 ^ 23 - 1 - content.length := by
  obtain ⟨rb, ring, size, holds⟩ := keeps
  rw [StreamSession.freeSpace, ring, Option.map_some, Option.getD_some, holds.writeSpace, size]

theorem Keeps.pending (keeps : session.Keeps content) : session.pending = content := by
  obtain ⟨rb, ring, size, holds⟩ := keeps
  rw [StreamSession.pending, ring, Option.map_some, Option.getD_some, (holds.get rb.size).1]
  exact List.take_of_length_le holds.length_lt.le

theorem Keeps.write (keeps : session.Keeps content) (data : Bytes) :
    (session.write data).Keeps (content ++ data.take (2 ^ 23 - 1 - content.length)) := by
  obtain ⟨rb, ring, size, holds⟩ := keeps
  refine ⟨(rb.ringbufferPut data).1, ?_, by rw [RingBuffer.ringbufferPut_size, size], ?_⟩
  · simp only [StreamSession.write, HwDecoder.write264Stream, ring, Option.map_some]
  · rw [← size]
    exact holds.put data

/-- What a session has after a read that went where the player looks. -/
structure Got (session : StreamSession) (content : Bytes) (buf count : ℕ) (next : StreamSession) :
    Prop where
  keeps : next.Keeps (content.drop count)
  delivered : next.delivered = session.delivered ++ content.take count
  written : next.written = session.written
  fitting : next.fitting = session.fitting
  arrays : ∀ i, (next.arrays i).length = (session.arrays i).length
  elements : content ≠ [] → next.decoder.pBuffer = some ⟨buf, false⟩

theorem Keeps.read {copies : ℕ → Bool} {buf : ℕ} {offset size : ℤ}
    (keeps : session.Keeps content)
    (placed : session.Placed copies (.read264Stream buf offset size)) :
    ∃ next, session.read copies buf offset size = some next ∧
      session.Got content buf (toSizeT size) next := by
  obtain ⟨rb, ring, ringSize, holds⟩ := keeps
  simp only [StreamSession.read, HwDecoder.read264Stream, ring, holds.isEmpty]
  by_cases empty : content = []
  · subst empty
    rw [if_pos (decide_eq_true rfl)]
    refine ⟨_, rfl, ⟨⟨rb, ring, ringSize, ?_⟩, ?_, rfl, rfl, fun _ => rfl,
      fun some_ => absurd rfl some_⟩⟩
    · rw [List.drop_nil]
      exact holds
    · rw [List.take_nil, List.append_nil]
  · obtain ⟨taken, left⟩ := holds.get (toSizeT size)
    obtain ⟨rfl, here, room⟩ := placed rb ring (by rw [holds.isEmpty]; simpa using empty)
    rw [holds.readSpace, ← List.length_take, ← taken] at room
    obtain ⟨stored, done, found, lengths⟩ := ArrayElements.store_own room
    rw [if_neg (by simpa using empty), here]
    simp only [done, Option.map_some]
    refine ⟨_, rfl, ⟨⟨_, rfl, by rw [RingBuffer.ringbufferGet_size, ringSize], left⟩, ?_, rfl, rfl,
      lengths, fun _ => rfl⟩⟩
    rw [Int.toNat_zero, found, taken]

end StreamSession

namespace HwDecoder

/-- A ring, where there is one, has the size of the first `start` and holds something. -/
def Sound (decoder : HwDecoder) : Prop :=
  ∀ rb, decoder.rbuf = some rb → rb.size = 2 ^ 23 ∧ ∃ content, rb.Holds content

theorem Sound.start {decoder : HwDecoder} (sound : decoder.Sound) (arrays : JavaArrays) :
    (StreamSession.opened decoder arrays).Keeps [] := by
  have created : (ringbufferCreate (1 <<< 23)).size = 2 ^ 23 ∧
      (ringbufferCreate (1 <<< 23)).Holds [] := create_holds (by decide) (by decide)
  refine ⟨_, rfl, ?_⟩
  cases before : decoder.rbuf with
  | none =>
      rw [Option.getD_none, RingBuffer.ringbufferReset_size]
      exact ⟨created.1, created.2.reset⟩
  | some old =>
      obtain ⟨size, content, holds⟩ := sound old before
      rw [Option.getD_some, RingBuffer.ringbufferReset_size]
      exact ⟨size, holds.reset⟩

theorem Reachable.sound {copies : ℕ → Bool} {decoder : HwDecoder}
    (reachable : decoder.Reachable copies) : decoder.Sound := by
  induction reachable with
  | initial => intro rb ring; cases ring
  | start reachable sound =>
      intro rb ring
      obtain ⟨started, here, size, holds⟩ := sound.start fun _ => []
      obtain rfl := Option.some.inj (ring.symm.trans here)
      exact ⟨size, [], holds⟩
  | stop reachable sound => intro rb ring; cases ring
  | write264Stream data reachable sound =>
      intro rb ring
      obtain ⟨old, before, rfl⟩ := Option.map_eq_some_iff.mp ring
      obtain ⟨size, content, holds⟩ := sound old before
      exact ⟨by rw [RingBuffer.ringbufferPut_size, size], _, holds.put data⟩
  | read264Stream buf offset size reachable sound =>
      intro rb ring
      unfold HwDecoder.read264Stream at ring
      split at ring
      · exact sound rb ring
      · rename_i old before
        obtain ⟨ringSize, content, holds⟩ := sound old before
        split_ifs at ring
        · exact sound rb ring
        · obtain rfl := Option.some.inj ring
          exact ⟨by rw [RingBuffer.ringbufferGet_size, ringSize], _, (holds.get _).2⟩

end HwDecoder

end AirCast.Mirror
