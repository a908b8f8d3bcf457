import AirCast.CString
import AirCast.Lib.Transducer
import AirCast.Raop.RaopRtp

/-! # The values that wait for the RTP thread

The setters of `raop_rtp.c` leave a value in `raop_rtp_t`, and
`raop_rtp_process_events` takes all of them at once.  Each of them is one section
under the mutex.  A heap buffer is known by the number of its allocation. -/

set_option autoImplicit false

namespace AirCast.Raop

/-- What a `float` stands for. -/
inductive FloatValue where
  | nan
  | negInf
  | finite (value : ℚ)
  | posInf
  deriving DecidableEq

namespace FloatValue

/-- The comparison of the language: a NaN is below nothing and above nothing. -/
def lt : FloatValue → FloatValue → Bool
  | .nan, _ => false
  | _, .nan => false
  | .negInf, .negInf => false
  | .negInf, _ => true
  | _, .negInf => false
  | .posInf, _ => false
  | .finite _, .posInf => true
  | .finite value, .finite other => value < other

/-- `ceil`, passed on as an `int`.  What becomes of a value that has no integer is left to
the platform. -/
def ceilToInt (noInteger : FloatValue → ℤ) : FloatValue → ℤ
  | .finite value => ⌈value⌉
  | value => noInteger value

/-- The nearest value from -30 to 0; a NaN has none. -/
def clamped : FloatValue → FloatValue
  | .nan => .nan
  | .negInf => .finite (-30)
  | .posInf => .finite 0
  | .finite value => .finite (max (-30) (min 0 value))

end FloatValue

structure HeapBuffer where
  allocation : ℕ
  data : Bytes
  deriving DecidableEq

structure RaopMailbox where
  volume : FloatValue
  volumeChanged : Bool
  flush : ℤ
  metadata : Option HeapBuffer
  coverart : Option HeapBuffer
  dacpId : Option HeapBuffer
  activeRemoteHeader : Option HeapBuffer
  progress : ℕ × ℕ × ℕ
  progressChanged : Bool
  /-- The allocations made so far. -/
  allocated : ℕ
  /-- The allocations given to `free`, one entry for each call. -/
  freed : List ℕ
  deriving DecidableEq

/-- What `raop_rtp_process_events` calls. -/
inductive MailboxCall where
  | audioSetVolume (volume : ℤ)
  | raopBufferFlush (nextSeq : ℤ)
  | audioFlush
  | audioSetMetadata (metadata : Bytes)
  | audioSetCoverart (coverart : Bytes)
  | audioRemoteControlId (dacpId activeRemoteHeader : Bytes)
  | audioSetProgress (start curr fin : ℕ)
  deriving DecidableEq

/-- The optional callbacks that are registered, and the conversions of the platform they are
compiled for. -/
structure AudioCallbacks where
  noInteger : FloatValue → ℤ
  audioSetVolume : Bool
  audioFlush : Bool
  audioSetMetadata : Bool
  audioSetCoverart : Bool
  audioRemoteControlId : Bool
  audioSetProgress : Bool

/-- The setters with the values they get, and a poll of the RTP thread.  A null pointer among
the ids is `none`. -/
inductive MailboxEvent where
  | setVolume (volume : FloatValue)
  | setMetadata (data : Bytes)
  | setCoverart (data : Bytes)
  | remoteControlId (dacpId activeRemoteHeader : Option Bytes)
  | setProgress (start curr fin : ℕ)
  | flush (nextSeq : ℤ)
  | processEvents

namespace RaopMailbox

/-- What `raop_rtp_init` leaves. -/
def init : RaopMailbox where
  volume := .finite 0
  volumeChanged := false
  flush := noFlush
  metadata := none
  coverart := none
  dacpId := none
  activeRemoteHeader := none
  progress := (0, 0, 0)
  progressChanged := false
  allocated := 0
  freed := []

def setVolume (rtp : RaopMailbox) (volume : FloatValue) : RaopMailbox :=
  { rtp with
    volume :=
      if FloatValue.lt (.finite 0) volume then .finite 0
      else if volume.lt (.finite (-30)) then .finite (-30)
      else volume
    volumeChanged := true }

def setMetadata (rtp : RaopMailbox) (data : Bytes) : RaopMailbox :=
  if data.length ≤ 0 then rtp
  else
    { rtp with metadata := some ⟨rtp.allocated, data⟩, allocated := rtp.allocated + 1 }

def setCoverart (rtp : RaopMailbox) (data : Bytes) : RaopMailbox :=
  if data.length ≤ 0 then rtp
  else
    { rtp with coverart := some ⟨rtp.allocated, data⟩, allocated := rtp.allocated + 1 }

def remoteControlId (rtp : RaopMailbox) (dacpId activeRemoteHeader : Option Bytes) :
    RaopMailbox :=
  match dacpId, activeRemoteHeader with
  | some dacpId, some activeRemoteHeader =>
      { rtp with
        dacpId := some ⟨rtp.allocated, dacpId⟩
        activeRemoteHeader := some ⟨rtp.allocated + 1, activeRemoteHeader⟩
        allocated := rtp.allocated + 2 }
  | _, _ => rtp

def setProgress (rtp : RaopMailbox) (start curr fin : ℕ) : RaopMailbox :=
  { rtp with progress := (start, curr, fin), progressChanged := true }

def raopRtpFlush (rtp : RaopMailbox) (nextSeq : ℤ) : RaopMailbox := { rtp with flush := nextSeq }

def free (rtp : RaopMailbox) (buffer : Option HeapBuffer) : RaopMailbox :=
  { rtp with freed := rtp.freed ++ (buffer.map HeapBuffer.allocation).toList }

section poll

variable (callbacks : AudioCallbacks)

/-- `raop_rtp_process_events` of a running thread. -/
def processEvents (rtp : RaopMailbox) : RaopMailbox × List MailboxCall :=
  let taken := { rtp with
    volumeChanged := false
    flush := noFlush
    metadata := none
    coverart := none
    dacpId := none
    activeRemoteHeader := none
    progressChanged := false }
  let volumeCalls : List MailboxCall :=
    if rtp.volumeChanged ∧ callbacks.audioSetVolume then
      [.audioSetVolume (rtp.volume.ceilToInt callbacks.noInteger)]
    else []
  let flushCalls : List MailboxCall :=
    if rtp.flush ≠ noFlush then
      .raopBufferFlush rtp.flush :: if callbacks.audioFlush then [.audioFlush] else []
    else []
  let metadataCalls : List MailboxCall :=
    match rtp.metadata with
    | some metadata =>
        if callbacks.audioSetMetadata then [.audioSetMetadata metadata.data] else []
    | none => []
  let coverartCalls : List MailboxCall :=
    match rtp.coverart with
    | some coverart =>
        if callbacks.audioSetCoverart then [.audioSetCoverart coverart.data] else []
    | none => []
  let remoteCalls : List MailboxCall :=
    match rtp.dacpId, rtp.activeRemoteHeader with
    | some dacpId, some activeRemoteHeader =>
        if callbacks.audioRemoteControlId then
          [.audioRemoteControlId dacpId.data activeRemoteHeader.data]
        else []
    | _, _ => []
  let progressCalls : List MailboxCall :=
    if rtp.progressChanged ∧ callbacks.audioSetProgress then
      [.audioSetProgress rtp.progress.1 rtp.progress.2.1 rtp.progress.2.2]
    else []
  let freed :=
    if rtp.dacpId.isSome ∧ rtp.activeRemoteHeader.isSome then
      (((taken.free rtp.metadata).free rtp.coverart).free rtp.dacpId).free rtp.activeRemoteHeader
    else (taken.free rtp.metadata).free rtp.coverart
  (freed, volumeCalls ++ flushCalls ++ metadataCalls ++ coverartCalls ++ remoteCalls ++
    progressCalls)

def step (rtp : RaopMailbox) : MailboxEvent → RaopMailbox × List MailboxCall
  | .setVolume volume => (rtp.setVolume volume, [])
  | .setMetadata data => (rtp.setMetadata data, [])
  | .setCoverart data => (rtp.setCoverart data, [])
  | .remoteControlId dacpId activeRemoteHeader =>
      (rtp.remoteControlId dacpId activeRemoteHeader, [])
  | .setProgress start curr fin => (rtp.setProgress start curr fin, [])
  | .flush nextSeq => (rtp.raopRtpFlush nextSeq, [])
  | .processEvents => rtp.processEvents callbacks

end poll

/-- All calls of `free` after `raop_rtp_destroy`. -/
def raopRtpDestroy (rtp : RaopMailbox) : List ℕ :=
  ((((rtp.free rtp.metadata).free rtp.coverart).free rtp.dacpId).free
    rtp.activeRemoteHeader).freed

end RaopMailbox

/-! ## What a mailbox is for -/

/-- The values that wait: of each setter the last one since the last poll. -/
structure PendingValues where
  volume : Option FloatValue
  flush : Option ℤ
  metadata : Option Bytes
  coverart : Option Bytes
  remoteIds : Option (Bytes × Bytes)
  progress : Option (ℕ × ℕ × ℕ)
  deriving DecidableEq

namespace PendingValues

def none : PendingValues := ⟨.none, .none, .none, .none, .none, .none⟩

/-- A value that is set takes the place of an earlier one; a poll leaves none.  Empty data
and null pointers are no values. -/
def step (pending : PendingValues) : MailboxEvent → PendingValues
  | .setVolume volume => { pending with volume := some volume.clamped }
  | .setMetadata data => if data = [] then pending else { pending with metadata := some data }
  | .setCoverart data => if data = [] then pending else { pending with coverart := some data }
  | .remoteControlId (some dacpId) (some activeRemoteHeader) =>
      { pending with remoteIds := some (dacpId, activeRemoteHeader) }
  | .remoteControlId _ _ => pending
  | .setProgress start curr fin => { pending with progress := some (start, curr, fin) }
  | .flush nextSeq => { pending with flush := some nextSeq }
  | .processEvents => none

def heard (waiting : PendingValues) : PendingValues :=
  { waiting with flush := waiting.flush.filter fun nextSeq => nextSeq ≠ noFlush }

/-- The calls that hand every waiting value over, once. -/
def handOver (callbacks : AudioCallbacks) (pending : PendingValues) : List MailboxCall :=
  let volumeCalls : List MailboxCall :=
    if callbacks.audioSetVolume then
      pending.volume.toList.map fun volume =>
        .audioSetVolume (volume.ceilToInt callbacks.noInteger)
    else []
  let flushCalls : List MailboxCall :=
    pending.flush.toList.flatMap fun nextSeq =>
      .raopBufferFlush nextSeq :: if callbacks.audioFlush then [.audioFlush] else []
  let metadataCalls : List MailboxCall :=
    if callbacks.audioSetMetadata then pending.metadata.toList.map .audioSetMetadata else []
  let coverartCalls : List MailboxCall :=
    if callbacks.audioSetCoverart then pending.coverart.toList.map .audioSetCoverart else []
  let remoteCalls : List MailboxCall :=
    if callbacks.audioRemoteControlId then
      pending.remoteIds.toList.map fun ids => .audioRemoteControlId ids.1 ids.2
    else []
  let progressCalls : List MailboxCall :=
    if callbacks.audioSetProgress then
      pending.progress.toList.map fun progress =>
        .audioSetProgress progress.1 progress.2.1 progress.2.2
    else []
  volumeCalls ++ flushCalls ++ metadataCalls ++ coverartCalls ++ remoteCalls ++ progressCalls

def due (callbacks : AudioCallbacks) (waiting : PendingValues) : MailboxEvent → List MailboxCall
  | .processEvents => waiting.handOver callbacks
  | _ => []

theorem heard_step (waiting : PendingValues) (event : MailboxEvent)
    (other : ∀ nextSeq, event ≠ .flush nextSeq) :
    (waiting.step event).heard = waiting.heard.step event := by
  cases event with
  | setVolume => rfl
  | setMetadata data =>
      simp only [step]
      split <;> rfl
  | setCoverart data =>
      simp only [step]
      split <;> rfl
  | remoteControlId dacpId activeRemoteHeader =>
      cases dacpId <;> cases activeRemoteHeader <;> rfl
  | setProgress => rfl
  | flush nextSeq => exact absurd rfl (other nextSeq)
  | processEvents => rfl

theorem heard_handOver (callbacks : AudioCallbacks) (waiting : PendingValues) :
    waiting.heard.handOver callbacks = waiting.handOver callbacks ↔
      waiting.flush ≠ some noFlush := by
  constructor
  · intro same sentinel
    have wanted : MailboxCall.raopBufferFlush noFlush ∈ waiting.handOver callbacks := by
      simp [handOver, sentinel]
    rw [← same] at wanted
    simp only [heard, sentinel, handOver, Option.filter_some, ne_eq, not_true_eq_false,
      decide_false, Bool.false_eq_true, if_false, Option.toList_none, List.flatMap_nil,
      List.append_nil, List.mem_append] at wanted
    split_ifs at wanted <;> simp at wanted
  · intro told
    have whole : waiting.flush.filter (fun nextSeq => decide (nextSeq ≠ noFlush)) =
        waiting.flush := by
      cases waits : waiting.flush with
      | none => rfl
      | some nextSeq =>
          rw [waits, ne_eq, Option.some.injEq] at told
          simp [Option.filter_some, told]
    simp only [heard, whole]

end PendingValues

namespace RaopMailbox

def held (rtp : RaopMailbox) : List ℕ :=
  (rtp.metadata.map HeapBuffer.allocation).toList ++
    (rtp.coverart.map HeapBuffer.allocation).toList ++
    (rtp.dacpId.map HeapBuffer.allocation).toList ++
    (rtp.activeRemoteHeader.map HeapBuffer.allocation).toList

theorem raopRtpDestroy_eq (rtp : RaopMailbox) : rtp.raopRtpDestroy = rtp.freed ++ rtp.held := by
  simp [raopRtpDestroy, free, held]

/-- Each of the first `allocated` numbers stands in the list once. -/
def Balanced (allocated : ℕ) (entries : List ℕ) : Prop :=
  ∀ allocation, entries.count allocation = if allocation < allocated then 1 else 0

def Ledger (rtp : RaopMailbox) : Prop := Balanced rtp.allocated rtp.raopRtpDestroy

/-- What the three encodings of a waiting value stand for. -/
def pending (rtp : RaopMailbox) : PendingValues where
  volume := if rtp.volumeChanged then some rtp.volume else none
  flush := if rtp.flush = noFlush then none else some rtp.flush
  metadata := rtp.metadata.map HeapBuffer.data
  coverart := rtp.coverart.map HeapBuffer.data
  remoteIds :=
    match rtp.dacpId, rtp.activeRemoteHeader with
    | some dacpId, some activeRemoteHeader => some (dacpId.data, activeRemoteHeader.data)
    | _, _ => none
  progress := if rtp.progressChanged then some rtp.progress else none

theorem processEvents_calls (callbacks : AudioCallbacks) (rtp : RaopMailbox) :
    (rtp.processEvents callbacks).2 = rtp.pending.handOver callbacks := by
  have volume : (if rtp.volumeChanged ∧ callbacks.audioSetVolume then
      [MailboxCall.audioSetVolume (rtp.volume.ceilToInt callbacks.noInteger)] else []) =
      if callbacks.audioSetVolume then
        (if rtp.volumeChanged then some rtp.volume else none).toList.map fun volume =>
          .audioSetVolume (volume.ceilToInt callbacks.noInteger)
      else [] := by
    cases rtp.volumeChanged <;> cases callbacks.audioSetVolume <;> rfl
  have progress : (if rtp.progressChanged ∧ callbacks.audioSetProgress then
      [MailboxCall.audioSetProgress rtp.progress.1 rtp.progress.2.1 rtp.progress.2.2] else []) =
      if callbacks.audioSetProgress then
        (if rtp.progressChanged then some rtp.progress else none).toList.map fun progress =>
          .audioSetProgress progress.1 progress.2.1 progress.2.2
      else [] := by
    cases rtp.progressChanged <;> cases callbacks.audioSetProgress <;> rfl
  have flush : (if rtp.flush ≠ noFlush then
      MailboxCall.raopBufferFlush rtp.flush :: if callbacks.audioFlush then [.audioFlush] else []
      else []) =
      (if rtp.flush = noFlush then none else some rtp.flush).toList.flatMap fun nextSeq =>
        .raopBufferFlush nextSeq :: if callbacks.audioFlush then [.audioFlush] else [] := by
    by_cases waits : rtp.flush = noFlush <;> simp [waits]
  simp only [processEvents, PendingValues.handOver, pending, volume, flush, progress]
  rcases rtp.metadata with _ | metadata <;> rcases rtp.coverart with _ | coverart <;>
    rcases rtp.dacpId with _ | dacpId <;>
    rcases rtp.activeRemoteHeader with _ | activeRemoteHeader <;> simp

theorem clamped_eq (volume : FloatValue) :
    (if FloatValue.lt (.finite 0) volume then .finite 0
      else if volume.lt (.finite (-30)) then .finite (-30)
      else volume) = volume.clamped := by
  cases volume with
  | nan => rfl
  | negInf => rfl
  | posInf => rfl
  | finite value =>
      simp only [FloatValue.lt, FloatValue.clamped, decide_eq_true_eq]
      split
      next loud =>
        rw [min_eq_left loud.le, max_eq_right (by norm_num)]
      next quiet =>
        rw [min_eq_right (not_lt.mp quiet)]
        split
        next low => rw [max_eq_left low.le]
        next => rw [max_eq_right (not_lt.mp ‹_›)]

def IdsPaired (rtp : RaopMailbox) : Prop :=
  rtp.dacpId.isSome = rtp.activeRemoteHeader.isSome

theorem IdsPaired.none_iff {rtp : RaopMailbox} (paired : rtp.IdsPaired) :
    rtp.dacpId = none ↔ rtp.activeRemoteHeader = none := by
  rw [← Option.not_isSome_iff_eq_none, paired, Option.not_isSome_iff_eq_none]

/-- A setter finds no heap buffer in its field, and no poll comes while the sentinel is the
sequence number of the last flush. -/
def Unobstructed (rtp : RaopMailbox) (waiting : PendingValues) : MailboxEvent → Prop
  | .setMetadata data => data = [] ∨ rtp.metadata = none
  | .setCoverart data => data = [] ∨ rtp.coverart = none
  | .remoteControlId (some _) (some _) => rtp.dacpId = none
  | .processEvents => waiting.flush ≠ some noFlush
  | _ => True

structure Inv (rtp : RaopMailbox) (waiting : PendingValues) : Prop where
  values : rtp.pending = waiting.heard
  ledger : rtp.Ledger
  paired : rtp.IdsPaired

/-! ### The ledger -/

theorem balanced_perm {entries others : List ℕ} (same : entries.Perm others) (allocated : ℕ) :
    Balanced allocated entries ↔ Balanced allocated others := by
  simp only [Balanced, same.count_eq]

theorem balanced_replace (allocated number : ℕ) (others old : List ℕ)
    (balanced : Balanced allocated (others ++ old)) :
    Balanced (allocated + number) (others ++ List.range' allocated number) ↔ old = [] := by
  have fresh (allocation : ℕ) : (List.range' allocated number).count allocation =
      if allocated ≤ allocation ∧ allocation < allocated + number then 1 else 0 := by
    rw [List.Nodup.count List.nodup_range']
    simp [List.mem_range'_1]
  constructor
  · intro kept
    by_contra present
    obtain ⟨lost, owned⟩ := List.exists_mem_of_ne_nil old present
    have before := balanced lost
    have after := kept lost
    have once := List.count_pos_iff.mpr owned
    rw [List.count_append] at before
    rw [List.count_append, fresh] at after
    split_ifs at before after <;> omega
  · rintro rfl allocation
    have before := balanced allocation
    rw [List.append_nil] at before
    rw [List.count_append, fresh, before]
    split_ifs <;> omega

def inField (field : Option HeapBuffer) : List ℕ := (field.map HeapBuffer.allocation).toList

theorem inField_eq_nil (field : Option HeapBuffer) : inField field = [] ↔ field = none := by
  cases field <;> simp [inField]

theorem destroy_perm_metadata (rtp : RaopMailbox) :
    rtp.raopRtpDestroy.Perm (rtp.freed ++ inField rtp.coverart ++ inField rtp.dacpId ++
      inField rtp.activeRemoteHeader ++ inField rtp.metadata) := by
  rw [raopRtpDestroy_eq, List.perm_iff_count]
  intro allocation
  simp only [held, inField, List.count_append]
  omega

theorem destroy_perm_coverart (rtp : RaopMailbox) :
    rtp.raopRtpDestroy.Perm (rtp.freed ++ inField rtp.metadata ++ inField rtp.dacpId ++
      inField rtp.activeRemoteHeader ++ inField rtp.coverart) := by
  rw [raopRtpDestroy_eq, List.perm_iff_count]
  intro allocation
  simp only [held, inField, List.count_append]
  omega

theorem destroy_perm_ids (rtp : RaopMailbox) :
    rtp.raopRtpDestroy.Perm (rtp.freed ++ inField rtp.metadata ++ inField rtp.coverart ++
      (inField rtp.dacpId ++ inField rtp.activeRemoteHeader)) := by
  rw [raopRtpDestroy_eq]
  simp [held, inField]

theorem ledger_setMetadata (rtp : RaopMailbox) (data : Bytes) (holds : rtp.Ledger) :
    (rtp.setMetadata data).Ledger ↔ data = [] ∨ rtp.metadata = none := by
  by_cases empty : data = []
  · simpa [setMetadata, empty] using holds
  have stored : rtp.setMetadata data =
      { rtp with metadata := some ⟨rtp.allocated, data⟩, allocated := rtp.allocated + 1 } := by
    simp [setMetadata, empty]
  simp only [empty, false_or, ← inField_eq_nil rtp.metadata]
  rw [Ledger, (balanced_perm (destroy_perm_metadata _) _), stored]
  exact balanced_replace rtp.allocated 1 _ _ ((balanced_perm (destroy_perm_metadata rtp) _).mp holds)

theorem ledger_setCoverart (rtp : RaopMailbox) (data : Bytes) (holds : rtp.Ledger) :
    (rtp.setCoverart data).Ledger ↔ data = [] ∨ rtp.coverart = none := by
  by_cases empty : data = []
  · simpa [setCoverart, empty] using holds
  have stored : rtp.setCoverart data =
      { rtp with coverart := some ⟨rtp.allocated, data⟩, allocated := rtp.allocated + 1 } := by
    simp [setCoverart, empty]
  simp only [empty, false_or, ← inField_eq_nil rtp.coverart]
  rw [Ledger, (balanced_perm (destroy_perm_coverart _) _), stored]
  exact balanced_replace rtp.allocated 1 _ _ ((balanced_perm (destroy_perm_coverart rtp) _).mp holds)

theorem ledger_remoteControlId (rtp : RaopMailbox) (dacpId activeRemoteHeader : Bytes)
    (holds : rtp.Ledger) (paired : rtp.IdsPaired) :
    (rtp.remoteControlId (some dacpId) (some activeRemoteHeader)).Ledger ↔
      rtp.dacpId = none := by
  have noIds : rtp.dacpId = none ↔
      inField rtp.dacpId ++ inField rtp.activeRemoteHeader = [] := by
    rw [List.append_eq_nil_iff, inField_eq_nil, inField_eq_nil]
    exact ⟨fun absent => ⟨absent, paired.none_iff.mp absent⟩, fun absent => absent.1⟩
  rw [noIds, Ledger, (balanced_perm (destroy_perm_ids _) _)]
  exact balanced_replace rtp.allocated 2 _ _ ((balanced_perm (destroy_perm_ids rtp) _).mp holds)

theorem ledger_processEvents (callbacks : AudioCallbacks) (rtp : RaopMailbox)
    (holds : rtp.Ledger) (paired : rtp.IdsPaired) :
    (rtp.processEvents callbacks).1.Ledger := by
  have moved : (rtp.processEvents callbacks).1.raopRtpDestroy = rtp.raopRtpDestroy := by
    rcases Option.eq_none_or_eq_some rtp.dacpId with absent | ⟨dacpId, present⟩
    · have both : rtp.activeRemoteHeader = none := paired.none_iff.mp absent
      simp [processEvents, raopRtpDestroy, free, absent, both]
    · have both : rtp.activeRemoteHeader.isSome := by
        rw [← paired, present, Option.isSome_some]
      simp [processEvents, raopRtpDestroy, free, present, both]
  have made : (rtp.processEvents callbacks).1.allocated = rtp.allocated := by
    simp only [processEvents, free]
    split <;> rfl
  rw [Ledger, moved, made]
  exact holds

/-! ### A step of the mailbox -/

theorem pending_processEvents (callbacks : AudioCallbacks) (rtp : RaopMailbox) :
    (rtp.processEvents callbacks).1.pending = .none := by
  simp only [processEvents, free]
  split <;> rfl

theorem pending_setVolume (rtp : RaopMailbox) (volume : FloatValue) :
    (rtp.setVolume volume).pending = rtp.pending.step (.setVolume volume) := by
  simp [pending, setVolume, PendingValues.step, clamped_eq]

theorem pending_setMetadata (rtp : RaopMailbox) (data : Bytes) :
    (rtp.setMetadata data).pending = rtp.pending.step (.setMetadata data) := by
  by_cases empty : data = [] <;> simp [pending, setMetadata, PendingValues.step, empty]

theorem pending_setCoverart (rtp : RaopMailbox) (data : Bytes) :
    (rtp.setCoverart data).pending = rtp.pending.step (.setCoverart data) := by
  by_cases empty : data = [] <;> simp [pending, setCoverart, PendingValues.step, empty]

theorem pending_remoteControlId (rtp : RaopMailbox) (dacpId activeRemoteHeader : Option Bytes) :
    (rtp.remoteControlId dacpId activeRemoteHeader).pending =
      rtp.pending.step (.remoteControlId dacpId activeRemoteHeader) := by
  cases dacpId <;> cases activeRemoteHeader <;> rfl

theorem pending_flush (rtp : RaopMailbox) (waiting : PendingValues) (nextSeq : ℤ)
    (values : rtp.pending = waiting.heard) :
    (rtp.raopRtpFlush nextSeq).pending = (waiting.step (.flush nextSeq)).heard := by
  have flush : (if nextSeq = noFlush then none else some nextSeq) =
      (some nextSeq).filter fun nextSeq => decide (nextSeq ≠ noFlush) := by
    by_cases sentinel : nextSeq = noFlush <;> simp [Option.filter_some, sentinel]
  calc (rtp.raopRtpFlush nextSeq).pending
      = { rtp.pending with flush := if nextSeq = noFlush then none else some nextSeq } := rfl
    _ = (waiting.step (.flush nextSeq)).heard := by rw [values, flush]; rfl

theorem pending_step (callbacks : AudioCallbacks) (rtp : RaopMailbox) (waiting : PendingValues)
    (event : MailboxEvent) (values : rtp.pending = waiting.heard) :
    (rtp.step callbacks event).1.pending = (waiting.step event).heard := by
  have follows (other : ∀ nextSeq, event ≠ .flush nextSeq)
      (same : (rtp.step callbacks event).1.pending = rtp.pending.step event) :
      (rtp.step callbacks event).1.pending = (waiting.step event).heard := by
    rw [PendingValues.heard_step waiting event other, same, values]
  cases event with
  | setVolume volume => exact follows nofun (pending_setVolume rtp volume)
  | setMetadata data => exact follows nofun (pending_setMetadata rtp data)
  | setCoverart data => exact follows nofun (pending_setCoverart rtp data)
  | remoteControlId dacpId activeRemoteHeader =>
      exact follows nofun (pending_remoteControlId rtp dacpId activeRemoteHeader)
  | setProgress => exact follows nofun rfl
  | flush nextSeq => exact pending_flush rtp waiting nextSeq values
  | processEvents => exact follows nofun (pending_processEvents callbacks rtp)

theorem paired_processEvents (callbacks : AudioCallbacks) (rtp : RaopMailbox) :
    (rtp.processEvents callbacks).1.IdsPaired := by
  simp only [processEvents, free, IdsPaired]
  split <;> rfl

theorem paired_step (callbacks : AudioCallbacks) (rtp : RaopMailbox) (event : MailboxEvent)
    (paired : rtp.IdsPaired) : (rtp.step callbacks event).1.IdsPaired := by
  cases event with
  | setVolume => exact paired
  | setMetadata data =>
      simp only [step, setMetadata]
      split <;> exact paired
  | setCoverart data =>
      simp only [step, setCoverart]
      split <;> exact paired
  | remoteControlId dacpId activeRemoteHeader =>
      cases dacpId <;> cases activeRemoteHeader <;> first | exact paired | rfl
  | setProgress => exact paired
  | flush => exact paired
  | processEvents => exact paired_processEvents callbacks rtp

theorem inv_init : Inv init .none where
  values := rfl
  ledger := fun _ => rfl
  paired := rfl

/-- A poll hands the waiting values over, and behind the step every buffer is freed once. -/
structure Keeps (callbacks : AudioCallbacks) (rtp : RaopMailbox) (waiting : PendingValues)
    (event : MailboxEvent) : Prop where
  handed : (rtp.step callbacks event).2 = waiting.due callbacks event
  ledger : (rtp.step callbacks event).1.Ledger

theorem ledger_step_iff (callbacks : AudioCallbacks) (rtp : RaopMailbox) (waiting : PendingValues)
    (event : MailboxEvent) (holds : rtp.Inv waiting) (setter : event ≠ .processEvents) :
    (rtp.step callbacks event).1.Ledger ↔ rtp.Unobstructed waiting event := by
  obtain ⟨-, ledger, paired⟩ := holds
  cases event with
  | setVolume => exact iff_of_true ledger trivial
  | setMetadata data => exact ledger_setMetadata rtp data ledger
  | setCoverart data => exact ledger_setCoverart rtp data ledger
  | remoteControlId dacpId activeRemoteHeader =>
      cases dacpId with
      | none => exact iff_of_true ledger trivial
      | some dacpId =>
          cases activeRemoteHeader with
          | none => exact iff_of_true ledger trivial
          | some activeRemoteHeader =>
              exact ledger_remoteControlId rtp dacpId activeRemoteHeader ledger paired
  | setProgress => exact iff_of_true ledger trivial
  | flush => exact iff_of_true ledger trivial
  | processEvents => exact absurd rfl setter

theorem keeps_iff (callbacks : AudioCallbacks) (rtp : RaopMailbox) (waiting : PendingValues)
    (event : MailboxEvent) (holds : rtp.Inv waiting) :
    rtp.Keeps callbacks waiting event ↔ rtp.Unobstructed waiting event := by
  by_cases poll : event = .processEvents
  · subst poll
    have calls := processEvents_calls callbacks rtp
    rw [holds.values] at calls
    constructor
    · rintro ⟨handed, -⟩
      exact (PendingValues.heard_handOver callbacks waiting).mp (calls.symm.trans handed)
    · intro told
      refine ⟨calls.trans ((PendingValues.heard_handOver callbacks waiting).mpr told), ?_⟩
      exact ledger_processEvents callbacks rtp holds.ledger holds.paired
  · rw [← ledger_step_iff callbacks rtp waiting event holds poll]
    refine ⟨Keeps.ledger, fun ledger => ⟨?_, ledger⟩⟩
    cases event <;> first | rfl | exact absurd rfl poll

theorem inv_step (callbacks : AudioCallbacks) (rtp : RaopMailbox) (waiting : PendingValues)
    (event : MailboxEvent) (holds : rtp.Inv waiting) (unobstructed : rtp.Unobstructed waiting event) :
    (rtp.step callbacks event).1.Inv (waiting.step event) where
  values := pending_step callbacks rtp waiting event holds.values
  ledger := ((keeps_iff callbacks rtp waiting event holds).mpr unobstructed).ledger
  paired := paired_step callbacks rtp event holds.paired

/-! ### Runs -/

def machine (callbacks : AudioCallbacks) : Transducer RaopMailbox MailboxEvent (List MailboxCall) :=
  ⟨step callbacks⟩

def after (callbacks : AudioCallbacks) (events : List MailboxEvent) : RaopMailbox :=
  ((machine callbacks).run init events).1

def waitingAfter (events : List MailboxEvent) : PendingValues :=
  events.foldl PendingValues.step .none

def witnessed (callbacks : AudioCallbacks) :
    Transducer (RaopMailbox × PendingValues) MailboxEvent
      (PendingValues × List MailboxCall) :=
  (machine callbacks).observe fun _ event waiting => waiting.step event

theorem witnessed_run (callbacks : AudioCallbacks) :
    ∀ (events : List MailboxEvent) (rtp : RaopMailbox) (waiting : PendingValues),
      ((witnessed callbacks).run (rtp, waiting) events).1 =
        (((machine callbacks).run rtp events).1, events.foldl PendingValues.step waiting) := by
  intro events
  induction events with
  | nil => intro rtp waiting; rfl
  | cons event rest ih => intro rtp waiting; exact ih _ _

/-- In a run every poll hands over the values that wait, each once, and every buffer is freed
once, exactly if no setter replaces a heap buffer that waits and no poll finds the sentinel for
the number of the last flush. -/
theorem keepsAll_iff (callbacks : AudioCallbacks) (events : List MailboxEvent) :
    (∀ front event back, events = front ++ event :: back →
      (after callbacks front).Keeps callbacks (waitingAfter front) event) ↔
      (witnessed callbacks).Admissible (fun state => state.1.Unobstructed state.2)
        (init, .none) events := by
  have exactly := (witnessed callbacks).admissible_congr
    (fun state => state.1.Unobstructed state.2)
    (fun state => state.1.Keeps callbacks state.2) (fun state => state.1.Inv state.2)
    (fun state event => inv_step callbacks state.1 state.2 event)
    (fun state event => keeps_iff callbacks state.1 state.2 event) events (init, .none) inv_init
  rw [← exactly, Transducer.admissible_iff]
  simp only [witnessed_run, after, waitingAfter]

/-- The callbacks that the application registers. -/
def registered : AudioCallbacks where
  noInteger := fun _ => 0
  audioSetVolume := true
  audioFlush := true
  audioSetMetadata := true
  audioSetCoverart := true
  audioRemoteControlId := false
  audioSetProgress := false

/-- The second of two metadata before one poll, and a poll behind a flush with the sentinel for
its number. -/
theorem twoMetadata_leak :
    (¬ (after registered [.setMetadata [1]]).Keeps registered (waitingAfter [.setMetadata [1]])
      (.setMetadata [2])) ∧
    ¬ (after registered [.flush (-42)]).Keeps registered (waitingAfter [.flush (-42)])
      .processEvents := by
  refine ⟨fun keeps => ?_, fun keeps => ?_⟩
  · exact absurd (keeps.ledger 0) (by decide)
  · exact absurd keeps.handed (by decide)

end RaopMailbox

end AirCast.Raop
