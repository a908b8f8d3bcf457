import AirCast.Center.PlaybackRecord

/-! # The position that the sender polls

The record is a function of the calls since the last `airplay_open`: the position
is the last one given while the state was playing.  The receiver gives the reset
after the stop, so it is never that one. -/

set_option autoImplicit false

namespace AirCast.Center

namespace PlaybackRecord

def bufferOf (value : Option JString) : Bytes := (value.getD []).getBytes ++ [0]

/-- Whether the calls, the last one first, leave the record playing. -/
def playing : List NativeCall → Bool
  | [] => false
  | .airplayOpen :: _ => false
  | .responseGenaEvent cmd value :: earlier =>
      if cmd = MEDIA_RENDER_TOCONTRPOINT_SET_MEDIA_PLAYINGSTATE then
        if CString.ofBytes (bufferOf value) = CString.lit "PLAYING" then true
        else if CString.ofBytes (bufferOf value) = CString.lit "STOPPED" then false
        else playing earlier
      else playing earlier

/-- The last position given while playing since the last `airplay_open`, zero if there is
none; the last call comes first. -/
def lastPosition : List NativeCall → ℤ
  | [] => 0
  | .airplayOpen :: _ => 0
  | .responseGenaEvent cmd value :: earlier =>
      if cmd = MEDIA_RENDER_TOCONTRPOINT_SET_MEDIA_POSITION ∧ playing earlier then
        (clock (bufferOf value)).getD 0
      else lastPosition earlier

theorem lit_ne_lit {first second : String} (firstFree : (0 : UInt8) ∉ bytesOf first)
    (secondFree : (0 : UInt8) ∉ bytesOf second) (different : bytesOf first ≠ bytesOf second) :
    CString.lit first ≠ CString.lit second := by
  intro same
  refine different ?_
  rw [← CString.lit_chars first firstFree, ← CString.lit_chars second secondFree, same]

theorem stateOf_isPlaying (record : PlaybackRecord) (value : Bytes) :
    (record.stateOf value).isPlaying =
      if CString.ofBytes value = CString.lit "PLAYING" then true
      else if CString.ofBytes value = CString.lit "STOPPED" then false
      else record.isPlaying := by
  have transitioning_playing : CString.lit "TRANSITIONING" ≠ CString.lit "PLAYING" :=
    lit_ne_lit (by decide) (by decide) (by decide)
  have transitioning_stopped : CString.lit "TRANSITIONING" ≠ CString.lit "STOPPED" :=
    lit_ne_lit (by decide) (by decide) (by decide)
  unfold stateOf
  dsimp only
  split_ifs <;> simp_all

theorem stateOf_currentPosition (record : PlaybackRecord) (value : Bytes) :
    (record.stateOf value).currentPosition = record.currentPosition := by
  unfold stateOf
  dsimp only
  split_ifs <;> rfl

/-- Whether `UpdateState` reads the value of a command. -/
def ReadsValue (cmd : ℤ) : Prop :=
  cmd = MEDIA_RENDER_TOCONTRPOINT_SET_MEDIA_DURATION ∨
    cmd = MEDIA_RENDER_TOCONTRPOINT_SET_MEDIA_POSITION ∨
    cmd = MEDIA_RENDER_TOCONTRPOINT_SET_MEDIA_PLAYINGSTATE

theorem responseGenaEvent_buffer {cmd : ℤ} {value : Option JString}
    {record next : PlaybackRecord} (reads : ReadsValue cmd)
    (ran : record.responseGenaEvent cmd value = some next) :
    record.updateState cmd (some (bufferOf value)) = some next := by
  unfold responseGenaEvent at ran
  dsimp only at ran
  by_cases empty : (value.getD []).getBytes = []
  · rw [if_pos empty] at ran
    rcases reads with rfl | rfl | rfl <;> cases ran
  · rw [if_neg empty] at ran
    exact ran

theorem updateState_other {cmd : ℤ} {value : Option Bytes} {record next : PlaybackRecord}
    (reads : ¬ ReadsValue cmd) (ran : record.updateState cmd value = some next) :
    next = record := by
  simp only [ReadsValue, not_or] at reads
  rw [updateState, if_neg reads.1, if_neg reads.2.1, if_neg reads.2.2] at ran
  exact (Option.some.inj ran).symm

theorem updateState_duration {buffer : Bytes} {record next : PlaybackRecord}
    (ran : record.updateState MEDIA_RENDER_TOCONTRPOINT_SET_MEDIA_DURATION (some buffer) =
      some next) :
    next.isPlaying = record.isPlaying ∧ next.currentPosition = record.currentPosition := by
  unfold updateState at ran
  rw [if_pos rfl] at ran
  obtain ⟨duration, _, ran⟩ := Option.bind_eq_some_iff.mp ran
  cases Option.some.inj ran
  split_ifs <;> exact ⟨rfl, rfl⟩

theorem updateState_position {buffer : Bytes} {record next : PlaybackRecord}
    (ran : record.updateState MEDIA_RENDER_TOCONTRPOINT_SET_MEDIA_POSITION (some buffer) =
      some next) :
    next.isPlaying = record.isPlaying ∧
      next.currentPosition =
        if record.isPlaying then (clock buffer).getD 0 else record.currentPosition := by
  unfold updateState at ran
  rw [if_neg (by decide), if_pos rfl] at ran
  obtain ⟨position, found, ran⟩ := Option.bind_eq_some_iff.mp ran
  cases Option.some.inj ran
  have read : clock buffer = some position := found
  rw [read]
  split_ifs <;> exact ⟨rfl, rfl⟩

theorem updateState_state {buffer : Bytes} {record next : PlaybackRecord}
    (ran : record.updateState MEDIA_RENDER_TOCONTRPOINT_SET_MEDIA_PLAYINGSTATE (some buffer) =
      some next) :
    next = record.stateOf buffer := by
  rw [updateState, if_neg (by decide), if_neg (by decide), if_pos rfl] at ran
  exact (Option.some.inj ran).symm

/-- What one call makes of the two fields, where it does not end the process. -/
theorem call_fields {record next : PlaybackRecord} {made : NativeCall}
    (ran : record.call made = some next) {earlier : List NativeCall}
    (isPlaying : record.isPlaying = playing earlier)
    (position : record.currentPosition = lastPosition earlier) :
    next.isPlaying = playing (made :: earlier) ∧
      next.currentPosition = lastPosition (made :: earlier) := by
  cases made with
  | airplayOpen =>
      cases ran
      exact ⟨rfl, rfl⟩
  | responseGenaEvent cmd value =>
      simp only [playing, lastPosition]
      by_cases reads : ReadsValue cmd
      · have updated := responseGenaEvent_buffer reads ran
        rcases reads with rfl | rfl | rfl
        · have noState : ¬ MEDIA_RENDER_TOCONTRPOINT_SET_MEDIA_DURATION =
              MEDIA_RENDER_TOCONTRPOINT_SET_MEDIA_PLAYINGSTATE := by decide
          have noPosition : ¬ (MEDIA_RENDER_TOCONTRPOINT_SET_MEDIA_DURATION =
              MEDIA_RENDER_TOCONTRPOINT_SET_MEDIA_POSITION ∧ playing earlier) :=
            fun both => absurd both.1 (by decide)
          obtain ⟨samePlaying, samePosition⟩ := updateState_duration updated
          rw [if_neg noState, if_neg noPosition]
          exact ⟨samePlaying.trans isPlaying, samePosition.trans position⟩
        · have noState : ¬ MEDIA_RENDER_TOCONTRPOINT_SET_MEDIA_POSITION =
              MEDIA_RENDER_TOCONTRPOINT_SET_MEDIA_PLAYINGSTATE := by decide
          obtain ⟨samePlaying, newPosition⟩ := updateState_position updated
          rw [if_neg noState, samePlaying, newPosition, isPlaying, position]
          simp only [true_and, and_self]
        · have noPosition : ¬ (MEDIA_RENDER_TOCONTRPOINT_SET_MEDIA_PLAYINGSTATE =
              MEDIA_RENDER_TOCONTRPOINT_SET_MEDIA_POSITION ∧ playing earlier) :=
            fun both => absurd both.1 (by decide)
          rw [if_pos rfl, if_neg noPosition, updateState_state updated, stateOf_isPlaying,
            stateOf_currentPosition, isPlaying]
          exact ⟨rfl, position⟩
      · obtain rfl := updateState_other reads ran
        simp only [ReadsValue, not_or] at reads
        rw [if_neg reads.2.2, if_neg (fun both => reads.2.1 both.1)]
        exact ⟨isPlaying, position⟩

theorem afterCalls_fields (calls : List NativeCall) :
    ∀ record, afterCalls calls = some record →
      record.isPlaying = playing calls.reverse ∧
        record.currentPosition = lastPosition calls.reverse := by
  induction calls using List.reverseRecOn with
  | nil =>
      intro record ran
      cases ran
      exact ⟨rfl, rfl⟩
  | append_singleton calls made ih =>
      intro record ran
      rw [afterCalls, List.foldlM_append] at ran
      obtain ⟨middle, before, ran⟩ := Option.bind_eq_some_iff.mp ran
      rw [List.foldlM_cons] at ran
      obtain ⟨next, last, same⟩ := Option.bind_eq_some_iff.mp ran
      cases same
      obtain ⟨isPlaying, position⟩ := ih middle before
      rw [List.reverse_append, List.reverse_singleton, List.singleton_append]
      exact call_fields last isPlaying position

def callsOf (events : List PlaybackEvent) : List NativeCall :=
  events.flatMap PlaybackEvent.calls

theorem callsOf_concat (events : List PlaybackEvent) (event : PlaybackEvent) :
    (callsOf (events ++ [event])).reverse = event.calls.reverse ++ (callsOf events).reverse := by
  simp [callsOf]

def stopped : PlaybackEvent :=
  .transdelGenaEvent MEDIA_RENDER_TOCONTRPOINT_SET_MEDIA_PLAYINGSTATE
    (some MEDIA_PLAYINGSTATE_STOP)

/-- Neither a playing-state event nor a position event. -/
def Quiet (event : PlaybackEvent) : Prop :=
  ∀ extra, event ≠ .transdelGenaEvent MEDIA_RENDER_TOCONTRPOINT_SET_MEDIA_PLAYINGSTATE extra ∧
    event ≠ .transdelGenaEvent MEDIA_RENDER_TOCONTRPOINT_SET_MEDIA_POSITION extra

theorem lastPosition_stopped (events : List PlaybackEvent) :
    lastPosition (callsOf (events ++ [stopped])).reverse =
      lastPosition (callsOf events).reverse := by
  have calls : stopped.calls =
      [.responseGenaEvent MEDIA_RENDER_TOCONTRPOINT_SET_MEDIA_PLAYINGSTATE
          (some MEDIA_PLAYINGSTATE_STOP),
        .responseGenaEvent MEDIA_RENDER_TOCONTRPOINT_SET_MEDIA_POSITION
          (some "00:00:00".toList)] := rfl
  have state : CString.ofBytes (bufferOf (some MEDIA_PLAYINGSTATE_STOP)) =
      CString.lit "STOPPED" := by decide
  have other : CString.lit "STOPPED" ≠ CString.lit "PLAYING" :=
    lit_ne_lit (by decide) (by decide) (by decide)
  rw [callsOf_concat, calls]
  simp [lastPosition, playing, state, other, MEDIA_RENDER_TOCONTRPOINT_SET_MEDIA_POSITION,
    MEDIA_RENDER_TOCONTRPOINT_SET_MEDIA_PLAYINGSTATE]

theorem lastPosition_quiet (events : List PlaybackEvent) {event : PlaybackEvent}
    (quiet : Quiet event) :
    lastPosition (callsOf (events ++ [event])).reverse =
      if event = .airplayOpen then 0 else lastPosition (callsOf events).reverse := by
  rw [callsOf_concat]
  cases event with
  | airplayOpen => rfl
  | transdelGenaEvent cmd extra =>
      rw [if_neg (by simp)]
      have noState : cmd ≠ MEDIA_RENDER_TOCONTRPOINT_SET_MEDIA_PLAYINGSTATE := by
        rintro rfl
        exact (quiet extra).1 rfl
      have noPosition : cmd ≠ MEDIA_RENDER_TOCONTRPOINT_SET_MEDIA_POSITION := by
        rintro rfl
        exact (quiet extra).2 rfl
      simp only [PlaybackEvent.calls, onTransdelGenaEvent, if_neg noState, if_neg noPosition]
      split_ifs
      · rfl
      · rfl

theorem lastPosition_after_stop (front back : List PlaybackEvent)
    (quiet : ∀ event ∈ back, Quiet event) :
    lastPosition (callsOf (front ++ stopped :: back)).reverse =
      if .airplayOpen ∈ back then 0 else lastPosition (callsOf front).reverse := by
  induction back using List.reverseRecOn with
  | nil => exact lastPosition_stopped front
  | append_singleton back event ih =>
      have earlier := ih fun other member => quiet other (List.mem_append_left _ member)
      have shape : front ++ stopped :: (back ++ [event]) =
          front ++ stopped :: back ++ [event] := by simp
      rw [shape, lastPosition_quiet _ (quiet event (by simp)), earlier]
      by_cases isOpen : event = .airplayOpen
      · simp [isOpen]
      · have same : (.airplayOpen ∈ back ++ [event]) ↔ .airplayOpen ∈ back := by
          simp [Ne.symm isOpen]
        rw [if_neg isOpen, if_congr same rfl rfl]

/-- After a stop the sender reads zero exactly if the video was opened anew, or the last
position given while playing was zero. -/
theorem position_after_stop_iff (front back : List PlaybackEvent) (record : PlaybackRecord)
    (ran : after (front ++ stopped :: back) = some record)
    (quiet : ∀ event ∈ back, Quiet event) :
    record.airplayGetPosition = 0 ↔
      .airplayOpen ∈ back ∨ lastPosition (callsOf front).reverse = 0 := by
  have told := (afterCalls_fields _ record ran).2
  have position := lastPosition_after_stop front back quiet
  rw [callsOf] at position
  rw [airplayGetPosition, told, position]
  by_cases opened : PlaybackEvent.airplayOpen ∈ back
  · simp [opened]
  · simp [opened]

def playingState : PlaybackEvent :=
  .transdelGenaEvent MEDIA_RENDER_TOCONTRPOINT_SET_MEDIA_PLAYINGSTATE (some "PLAYING".toList)

def tick (time : String) : PlaybackEvent :=
  .transdelGenaEvent MEDIA_RENDER_TOCONTRPOINT_SET_MEDIA_POSITION (some time.toList)

/-- A video that starts and is stopped before its position moves. -/
theorem startedVideo_position :
    after [.airplayOpen, playingState, tick "00:00:00", stopped] =
        some ⟨0, 0, false, false⟩ ∧
      ((⟨0, 0, false, false⟩ : PlaybackRecord).airplayGetPosition = 0 ↔
        .airplayOpen ∈ ([] : List PlaybackEvent) ∨
          lastPosition (callsOf [.airplayOpen, playingState, tick "00:00:00"]).reverse = 0) :=
  have ran : after [.airplayOpen, playingState, tick "00:00:00", stopped] =
      some ⟨0, 0, false, false⟩ := by decide
  ⟨ran, position_after_stop_iff [.airplayOpen, playingState, tick "00:00:00"] [] _ ran
    fun _ member => nomatch member⟩

/-- A video that is stopped after ten seconds keeps its position. -/
theorem stoppedVideo_position :
    ¬ ∀ front back record, after (front ++ stopped :: back) = some record →
      (∀ event ∈ back, Quiet event) → record.airplayGetPosition = 0 := by
  intro allZero
  have ran : after ([.airplayOpen, playingState, tick "00:00:10"] ++ stopped :: []) =
      some ⟨0, 10000, false, false⟩ := by decide
  have zero := allZero _ [] _ ran fun _ member => nomatch member
  exact absurd zero (by decide)

end PlaybackRecord

end AirCast.Center
