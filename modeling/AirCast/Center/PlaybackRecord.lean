import AirCast.Center.JString

/-! # The native playback record

`UpdateState`, `airplay_open` and `airplay_get_position` of the native side, and
the receiver that forwards the player's events to them.  A read through a null
pointer or past the value's buffer ends the process, so it has no record. -/

set_option autoImplicit false

namespace AirCast.Center

def MEDIA_RENDER_TOCONTRPOINT_SET_MEDIA_DURATION : ℤ := 0x100
def MEDIA_RENDER_TOCONTRPOINT_SET_MEDIA_POSITION : ℤ := 0x101
def MEDIA_RENDER_TOCONTRPOINT_SET_MEDIA_PLAYINGSTATE : ℤ := 0x102

structure PlaybackRecord where
  totalDuration : ℤ
  currentPosition : ℤ
  isPlaying : Bool
  isPause : Bool
  deriving DecidableEq

namespace PlaybackRecord

def zero : PlaybackRecord := ⟨0, 0, false, false⟩

def airplayOpen (_ : PlaybackRecord) : PlaybackRecord := zero

def airplayGetPosition (record : PlaybackRecord) : ℤ := record.currentPosition

def atoiPair (tens ones : UInt8) : ℤ := decimalValue [tens, ones]

theorem atoi_pair (abi : Abi) (tens ones : UInt8) : atoi abi [tens, ones] = atoiPair tens ones := by
  obtain ⟨low, high⟩ := decimalValue_bound [tens, ones]
  rw [List.length_cons, List.length_singleton] at low high
  exact atoi_small (by omega) (by omega)

def clock (value : Bytes) : Option ℤ := do
  let hours ← (value[0]?).bind fun tens => (value[1]?).map fun ones => atoiPair tens ones
  let mins ← (value[3]?).bind fun tens => (value[4]?).map fun ones => atoiPair tens ones
  let secs ← (value[6]?).bind fun tens => (value[7]?).map fun ones => atoiPair tens ones
  return (hours * 3600 + mins * 60 + secs) * 1000

def stateOf (record : PlaybackRecord) (value : Bytes) : PlaybackRecord :=
  let state := CString.ofBytes value
  if state = CString.lit "TRANSITIONING" then record
  else if state = CString.lit "PLAYING" then { record with isPlaying := true, isPause := false }
  else if state = CString.lit "STOPPED" then
    if record.isPlaying then { record with isPlaying := false } else record
  else if state = CString.lit "PAUSED_PLAYBACK" then
    if record.isPlaying then { record with isPause := true } else record
  else record

/-- `UpdateState`; `value` is the buffer with its terminator, `none` the null pointer. -/
def updateState (cmd : ℤ) (value : Option Bytes) (record : PlaybackRecord) :
    Option PlaybackRecord :=
  if cmd = MEDIA_RENDER_TOCONTRPOINT_SET_MEDIA_DURATION then do
    let duration ← value.bind clock
    return if record.totalDuration = 0 then { record with totalDuration := duration } else record
  else if cmd = MEDIA_RENDER_TOCONTRPOINT_SET_MEDIA_POSITION then do
    let position ← value.bind clock
    return if record.isPlaying then { record with currentPosition := position } else record
  else if cmd = MEDIA_RENDER_TOCONTRPOINT_SET_MEDIA_PLAYINGSTATE then
    value.map record.stateOf
  else some record

/-- `responseGenaEvent`, the Java method and the native one: null becomes the empty text,
and the native side leaves its pointer null for an empty text. -/
def responseGenaEvent (cmd : ℤ) (value : Option JString) (record : PlaybackRecord) :
    Option PlaybackRecord :=
  let bytes := (value.getD []).getBytes
  record.updateState cmd (if bytes = [] then none else some (bytes ++ [0]))

end PlaybackRecord

/-- A call into the native side. -/
inductive NativeCall where
  | airplayOpen
  | responseGenaEvent (cmd : ℤ) (value : Option JString)
  deriving DecidableEq

/-- An `airplay_open` of the sender, or an intent with a command and its text extra. -/
inductive PlaybackEvent where
  | airplayOpen
  | transdelGenaEvent (cmd : ℤ) (extra : Option JString)
  deriving DecidableEq

def MEDIA_PLAYINGSTATE_STOP : JString := "STOPPED".toList

/-- `onTransdelGenaEvent`: the calls it makes, in order.  A playing state that is null ends
the process in the first call. -/
def onTransdelGenaEvent (cmd : ℤ) (extra : Option JString) : List NativeCall :=
  if cmd = MEDIA_RENDER_TOCONTRPOINT_SET_MEDIA_DURATION then
    [.responseGenaEvent MEDIA_RENDER_TOCONTRPOINT_SET_MEDIA_DURATION extra]
  else if cmd = MEDIA_RENDER_TOCONTRPOINT_SET_MEDIA_POSITION then
    [.responseGenaEvent MEDIA_RENDER_TOCONTRPOINT_SET_MEDIA_POSITION extra]
  else if cmd = MEDIA_RENDER_TOCONTRPOINT_SET_MEDIA_PLAYINGSTATE then
    .responseGenaEvent MEDIA_RENDER_TOCONTRPOINT_SET_MEDIA_PLAYINGSTATE extra ::
      if (extra.getD []).equalsIgnoreCase MEDIA_PLAYINGSTATE_STOP then
        [.responseGenaEvent MEDIA_RENDER_TOCONTRPOINT_SET_MEDIA_POSITION
          (some "00:00:00".toList)]
      else []
  else []

def PlaybackEvent.calls : PlaybackEvent → List NativeCall
  | .airplayOpen => [.airplayOpen]
  | .transdelGenaEvent cmd extra => onTransdelGenaEvent cmd extra

namespace PlaybackRecord

def call (record : PlaybackRecord) : NativeCall → Option PlaybackRecord
  | .airplayOpen => some record.airplayOpen
  | .responseGenaEvent cmd value => record.responseGenaEvent cmd value

def afterCalls (calls : List NativeCall) : Option PlaybackRecord := calls.foldlM call zero

def after (events : List PlaybackEvent) : Option PlaybackRecord :=
  afterCalls (events.flatMap PlaybackEvent.calls)

end PlaybackRecord

end AirCast.Center
