import AirCast.CString
import AirCast.Lib.Segmentation

/-! # The frames of a mirror connection

The mirror branch of `httpd_thread` reads a 128-byte header, then as many payload
bytes as the header says, unless there are none or more than `MAX_BUF_SIZE`.  What
it does with the frame is the matter of `MirrorServer`. -/

set_option autoImplicit false

namespace AirCast.Mirror

def maxBufSize : ℕ := 4 * 1024 * 1024

def headerSize : ℕ := 128

def recvLimit : ℕ := 0x8000

def littleEndian : Bytes → ℕ
  | [] => 0
  | b :: rest => b.toNat + 256 * littleEndian rest

/-- `d_size`. -/
def sizeOf (headdata : Bytes) : ℕ := littleEndian (headdata.take 4)

/-- `d_type`. -/
def typeOf (headdata : Bytes) : UInt8 := headdata.getD 4 0

/-- `bytes_to_little_long (headdata, 8)`. -/
def timestampOf (headdata : Bytes) : ℕ := littleEndian ((headdata.drop 8).take 8)

/-- A frame as the loop has it when it looks at the type; `none` is a payload that
was not read. -/
structure Visit where
  dSize : ℕ
  dType : UInt8
  timestamp : ℕ
  payload : Option Bytes
  deriving DecidableEq

def Visit.of (headdata : Bytes) (payload : Option Bytes) : Visit :=
  ⟨sizeOf headdata, typeOf headdata, timestampOf headdata, payload⟩

/-- The sizes for which a payload is read. -/
def Buffered (size : ℕ) : Prop := 0 < size ∧ size ≤ maxBufSize

instance (size : ℕ) : Decidable (Buffered size) := inferInstanceAs (Decidable (_ ∧ _))

/-- The loop on one connection, at most `fuel` headers.  Where `recv_wait` reports the
close the connection is removed. -/
def mirrorLoop : ℕ → Arrivals UInt8 → List Visit
  | 0, _ => []
  | fuel + 1, stream =>
      match stream.receiveExactly recvLimit headerSize with
      | none => []
      | some (headdata, stream) =>
          if Buffered (sizeOf headdata) then
            match stream.receiveExactly recvLimit (sizeOf headdata) with
            | none => [Visit.of headdata none]
            | some (payload, stream) => Visit.of headdata (some payload) :: mirrorLoop fuel stream
          else Visit.of headdata none :: mirrorLoop fuel stream

/-- Every round takes a header, so the loop has seen the end of the stream. -/
def mirrorVisits (stream : Arrivals UInt8) : List Visit := mirrorLoop (stream.text.length + 1) stream

/-- A frame of the stream: the header says how long the payload is. -/
structure MirrorFrame where
  header : Bytes
  payload : Bytes
  headerLength : header.length = headerSize
  size : sizeOf header = payload.length

namespace MirrorFrame

def encode (f : MirrorFrame) : Bytes := f.header ++ f.payload

@[simp] theorem length_encode (f : MirrorFrame) :
    f.encode.length = headerSize + f.payload.length := by
  rw [encode, List.length_append, f.headerLength]

/-- The frame as the loop should have it: delivered with its payload, or passed over. -/
def visit (f : MirrorFrame) : Visit :=
  Visit.of f.header (if Buffered f.payload.length then some f.payload else none)

def Delivered (f : MirrorFrame) : Prop :=
  Buffered f.payload.length ∧ typeOf f.header ∈ ([0, 1, 9, 102] : List UInt8)

end MirrorFrame

def streamOf (frames : List MirrorFrame) : Bytes := frames.flatMap MirrorFrame.encode

/-- The loop visits the frames in order, all of them or up to one it does not deliver,
and nothing else. -/
def KeepsFraming (frames : List MirrorFrame) (visits : List Visit) : Prop :=
  ∃ handled left, frames = handled ++ left ∧ visits = handled.map MirrorFrame.visit ∧
    (left = [] ∨ ∃ f ∈ handled.getLast?, ¬ f.Delivered)

def Visit.cost (v : Visit) : ℕ := headerSize + (v.payload.getD []).length

def Visit.Broken (v : Visit) : Prop := Buffered v.dSize ∧ v.payload = none

theorem recvLimit_positive : 0 < recvLimit := by decide

/-- The loop stops when less than a header is left, or inside a payload. -/
theorem mirrorLoop_cost (fuel : ℕ) :
    ∀ stream : Arrivals UInt8, stream.text.length < fuel →
      (∃ v ∈ mirrorLoop fuel stream, v.Broken) ∨
        stream.text.length < ((mirrorLoop fuel stream).map Visit.cost).sum + headerSize := by
  induction fuel with
  | zero => intro stream short; simp at short
  | succ fuel ih =>
      intro stream short
      simp only [mirrorLoop]
      by_cases whole : headerSize ≤ stream.text.length
      · obtain ⟨behind, reads, left⟩ := Arrivals.receiveExactly_enough recvLimit_positive whole
        have headerPositive : 0 < headerSize := by decide
        have less : behind.text.length + headerSize = stream.text.length := by
          rw [left, List.length_drop]
          omega
        rw [reads]
        dsimp only
        generalize stream.text.take headerSize = headdata
        split
        · rename_i buffered
          by_cases enough : sizeOf headdata ≤ behind.text.length
          · obtain ⟨rest, payloadReads, payloadLeft⟩ :=
              Arrivals.receiveExactly_enough recvLimit_positive enough
            have lessAgain : rest.text.length + sizeOf headdata = behind.text.length := by
              rw [payloadLeft, List.length_drop]
              omega
            rw [payloadReads]
            dsimp only
            rcases ih rest (by omega) with ⟨v, member, broken⟩ | short'
            · exact Or.inl ⟨v, List.mem_cons_of_mem _ member, broken⟩
            · refine Or.inr ?_
              simp only [List.map_cons, List.sum_cons, Visit.cost, Visit.of, Option.getD_some,
                List.length_take, Nat.min_eq_left enough] at short' ⊢
              omega
          · rw [Arrivals.receiveExactly_closed (not_le.mp enough)]
            exact Or.inl ⟨_, List.mem_singleton_self _, buffered, rfl⟩
        · rcases ih behind (by omega) with ⟨v, member, broken⟩ | short'
          · exact Or.inl ⟨v, List.mem_cons_of_mem _ member, broken⟩
          · refine Or.inr ?_
            simp only [List.map_cons, List.sum_cons, Visit.cost, Visit.of, Option.getD_none,
              List.length_nil] at short' ⊢
            omega
      · rw [Arrivals.receiveExactly_closed (not_le.mp whole)]
        exact Or.inr (by simpa using whole)

theorem length_le_streamOf (frames : List MirrorFrame) :
    frames.length ≤ (streamOf frames).length := by
  induction frames with
  | nil => exact le_rfl
  | cons f rest ih =>
      have encoded : 0 < f.encode.length := by
        rw [f.length_encode, headerSize]
        omega
      simp only [streamOf, List.flatMap_cons, List.length_append, List.length_cons] at ih ⊢
      omega

theorem mirrorLoop_frames (frames : List MirrorFrame) :
    ∀ (fuel : ℕ) (stream : Arrivals UInt8), (∀ f ∈ frames, f.payload.length ≤ maxBufSize) →
      stream.text = streamOf frames → frames.length < fuel →
        mirrorLoop fuel stream = frames.map MirrorFrame.visit := by
  induction frames with
  | nil =>
      intro fuel stream _ text enough
      obtain ⟨fuel, rfl⟩ : ∃ n, fuel = n + 1 := ⟨fuel - 1, by omega⟩
      have closed : stream.text.length < headerSize := by
        rw [text]
        decide
      simp only [mirrorLoop, Arrivals.receiveExactly_closed closed, List.map_nil]
  | cons f rest ih =>
      intro fuel stream small text enough
      obtain ⟨fuel, rfl⟩ : ∃ n, fuel = n + 1 := ⟨fuel - 1, by omega⟩
      have smallRest : ∀ g ∈ rest, g.payload.length ≤ maxBufSize :=
        fun g member => small g (List.mem_cons_of_mem _ member)
      have whole : stream.text = f.header ++ (f.payload ++ streamOf rest) := by
        rw [text, streamOf, List.flatMap_cons, MirrorFrame.encode, List.append_assoc]
        rfl
      have headerThere : headerSize ≤ stream.text.length := by
        rw [whole, List.length_append, f.headerLength]
        omega
      obtain ⟨behind, reads, left⟩ := Arrivals.receiveExactly_enough recvLimit_positive headerThere
      rw [whole, List.take_left' f.headerLength] at reads
      rw [whole, List.drop_left' f.headerLength] at left
      simp only [mirrorLoop, reads, f.size, List.map_cons, MirrorFrame.visit]
      by_cases buffered : Buffered f.payload.length
      · have payloadThere : f.payload.length ≤ behind.text.length := by
          rw [left, List.length_append]
          omega
        obtain ⟨next, payloadReads, payloadLeft⟩ :=
          Arrivals.receiveExactly_enough recvLimit_positive payloadThere
        rw [left, List.take_left] at payloadReads
        rw [left, List.drop_left] at payloadLeft
        rw [if_pos buffered, if_pos buffered, payloadReads]
        dsimp only
        rw [ih fuel next smallRest payloadLeft (by simpa using enough)]
      · have empty : f.payload = [] := by
          have := small f List.mem_cons_self
          rw [Buffered, not_and] at buffered
          exact List.eq_nil_of_length_eq_zero (by omega)
        rw [empty, List.nil_append] at left
        rw [if_neg buffered, if_neg buffered, ih fuel behind smallRest left (by simpa using enough)]

theorem cost_visits (handled : List MirrorFrame) :
    ((handled.map MirrorFrame.visit).map Visit.cost).sum ≤ (streamOf handled).length ∧
      ∀ f ∈ handled, maxBufSize < f.payload.length →
        ((handled.map MirrorFrame.visit).map Visit.cost).sum + f.payload.length ≤
          (streamOf handled).length := by
  have each : ∀ f : MirrorFrame, f.visit.cost ≤ f.encode.length ∧
      (maxBufSize < f.payload.length → f.visit.cost + f.payload.length ≤ f.encode.length) := by
    intro f
    simp only [MirrorFrame.visit, Visit.of, Visit.cost, f.length_encode]
    by_cases buffered : Buffered f.payload.length
    · rw [if_pos buffered, Option.getD_some]
      exact ⟨le_rfl, fun large => absurd buffered.2 (not_le.mpr large)⟩
    · rw [if_neg buffered, Option.getD_none, List.length_nil]
      omega
  induction handled with
  | nil => simp [streamOf]
  | cons g rest ih =>
      obtain ⟨below, large⟩ := ih
      obtain ⟨gBelow, gLarge⟩ := each g
      simp only [List.map_cons, List.sum_cons, streamOf, List.flatMap_cons,
        List.length_append] at below large ⊢
      refine ⟨by omega, fun f member oversized => ?_⟩
      rcases List.mem_cons.mp member with rfl | member
      · have := gLarge oversized
        omega
      · have := large f member oversized
        omega

theorem keepsFraming_small {frames : List MirrorFrame} {stream : Arrivals UInt8}
    (text : stream.text = streamOf frames) (keeps : KeepsFraming frames (mirrorVisits stream)) :
    ∀ f ∈ frames, f.payload.length ≤ maxBufSize := by
  obtain ⟨handled, left, rfl, visits, -⟩ := keeps
  have cost := mirrorLoop_cost _ stream (Nat.lt_succ_self _)
  rw [← mirrorVisits, visits] at cost
  obtain ⟨below, large⟩ := cost_visits handled
  have split : stream.text.length = (streamOf handled).length + (streamOf left).length := by
    rw [text, streamOf, List.flatMap_append, List.length_append]
    rfl
  rcases cost with ⟨v, member, buffered, missing⟩ | short
  · obtain ⟨f, -, rfl⟩ := List.mem_map.mp member
    have sized : (f.visit).dSize = f.payload.length := f.size
    rw [sized] at buffered
    simp [MirrorFrame.visit, Visit.of, buffered] at missing
  · have nothingLeft : left = [] := by
      cases left with
      | nil => rfl
      | cons f rest =>
          simp only [streamOf, List.flatMap_cons, List.length_append, f.length_encode] at split short below
          omega
    intro f member
    by_contra oversized
    rw [nothingLeft, List.append_nil] at member
    have := large f member (not_le.mp oversized)
    have headerShort : headerSize ≤ maxBufSize := by decide
    omega

/-- However the stream is cut, the loop keeps to its frames exactly if none is larger
than the buffer. -/
theorem keepsFraming_iff (frames : List MirrorFrame) (segments : Segmentation (streamOf frames)) :
    KeepsFraming frames (mirrorVisits segments.toArrivals) ↔
      ∀ f ∈ frames, f.payload.length ≤ maxBufSize := by
  have text : segments.toArrivals.text = streamOf frames := segments.whole
  constructor
  · exact keepsFraming_small text
  · intro small
    refine ⟨frames, [], (List.append_nil _).symm, ?_, Or.inl rfl⟩
    refine mirrorLoop_frames frames _ _ small text ?_
    rw [text]
    have := length_le_streamOf frames
    omega

theorem hugeSize : sizeOf ([1, 0, 64, 0] ++ List.replicate 124 0) = maxBufSize + 1 := by
  simp [sizeOf, littleEndian, maxBufSize]

def hugeFrame : MirrorFrame where
  header := [1, 0, 64, 0] ++ List.replicate 124 0
  payload := List.replicate (maxBufSize + 1) 0
  headerLength := by simp [headerSize]
  size := hugeSize.trans List.length_replicate.symm

def hugeSegment : Segmentation (streamOf [hugeFrame]) where
  parts := [streamOf [hugeFrame]]
  nonempty := by
    intro s member
    rw [List.mem_singleton.mp member, ← List.length_pos_iff]
    exact Nat.lt_of_lt_of_le Nat.zero_lt_one (length_le_streamOf [hugeFrame])
  whole := by rw [List.flatten_singleton]

theorem hugeFrame_desyncs :
    ¬ KeepsFraming [hugeFrame] (mirrorVisits hugeSegment.toArrivals) := by
  intro keeps
  have small := keepsFraming_small hugeSegment.whole keeps hugeFrame List.mem_cons_self
  have large : hugeFrame.payload.length = maxBufSize + 1 := List.length_replicate
  omega

end AirCast.Mirror
