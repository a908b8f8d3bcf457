import Mathlib

/-! # The music player engine

`AbstractMediaPlayEngine` and `MusicPlayEngineImpl`: the commands and the callback
`onPrepared` share the play state.  The listener and the visualizer are told of every
change and change nothing themselves. -/

set_option autoImplicit false

namespace AirCast.Player

inductive PlayState where
  | MPS_NOFILE
  | MPS_INVALID
  | MPS_PLAYING
  | MPS_PAUSE
  | MPS_STOP
  | MPS_PARESYNC
  | MPS_PARECOMPLETE
  deriving DecidableEq

/-- What the engine depends on: whether an `onPrepared` is outstanding, and whether the
player has been started and not paused or reset since. -/
structure MediaPlayer where
  preparing : Bool
  started : Bool
  deriving DecidableEq

namespace MediaPlayer

def reset (_ : MediaPlayer) : MediaPlayer := ⟨false, false⟩

def prepareAsync (player : MediaPlayer) : MediaPlayer := { player with preparing := true }

def start (player : MediaPlayer) : MediaPlayer := { player with started := true }

def pause (player : MediaPlayer) : MediaPlayer := { player with started := false }

end MediaPlayer

/-- How the `try` block of `prepareSelf` ends: at its end, by an exception before
`prepareAsync` has begun, or by one behind it. -/
inductive Preparation where
  | complete
  | refused
  | interrupted
  deriving DecidableEq

section engine

variable {Media : Type}

structure MusicPlayEngine (Media : Type) where
  mMediaPlayer : MediaPlayer
  mMediaInfo : Option Media
  mPlayState : PlayState
  deriving DecidableEq

namespace MusicPlayEngine

def defaultParam : MusicPlayEngine Media where
  mMediaPlayer := ⟨false, false⟩
  mMediaInfo := none
  mPlayState := .MPS_NOFILE

def prepareSelf (preparation : Preparation) (engine : MusicPlayEngine Media) :
    MusicPlayEngine Media :=
  let player := engine.mMediaPlayer.reset
  match preparation with
  | .complete => { engine with mMediaPlayer := player.prepareAsync, mPlayState := .MPS_PARESYNC }
  | .refused => { engine with mMediaPlayer := player, mPlayState := .MPS_INVALID }
  | .interrupted =>
      { engine with mMediaPlayer := player.prepareAsync, mPlayState := .MPS_INVALID }

/-- `prepareComplete`, without the states that nothing sees. -/
def prepareComplete (engine : MusicPlayEngine Media) : MusicPlayEngine Media :=
  { engine with mMediaPlayer := engine.mMediaPlayer.start, mPlayState := .MPS_PLAYING }

def play (preparation : Preparation) (engine : MusicPlayEngine Media) : MusicPlayEngine Media :=
  match engine.mPlayState with
  | .MPS_PAUSE =>
      { engine with mMediaPlayer := engine.mMediaPlayer.start, mPlayState := .MPS_PLAYING }
  | .MPS_STOP => engine.prepareSelf preparation
  | _ => engine

def pause (engine : MusicPlayEngine Media) : MusicPlayEngine Media :=
  match engine.mPlayState with
  | .MPS_PLAYING =>
      { engine with mMediaPlayer := engine.mMediaPlayer.pause, mPlayState := .MPS_PAUSE }
  | _ => engine

def stop (engine : MusicPlayEngine Media) : MusicPlayEngine Media :=
  if engine.mPlayState ≠ .MPS_NOFILE then
    { engine with mMediaPlayer := engine.mMediaPlayer.reset, mPlayState := .MPS_STOP }
  else engine

def playMedia (mediaInfo : Option Media) (preparation : Preparation)
    (engine : MusicPlayEngine Media) : MusicPlayEngine Media :=
  if mediaInfo.isSome then { engine with mMediaInfo := mediaInfo }.prepareSelf preparation
  else engine

end MusicPlayEngine

/-- A command with what becomes of its preparation, if it begins one, or the callback. -/
inductive EngineEvent (Media : Type) where
  | playMedia (mediaInfo : Option Media) (preparation : Preparation)
  | play (preparation : Preparation)
  | pause
  | stop
  | skipTo (time : ℤ)
  | onPrepared
  deriving DecidableEq

namespace MusicPlayEngine

/-- The platform delivers `onPrepared` only where one is outstanding; `none` is an event that
does not occur.  A seek moves the position of the player only. -/
def step (engine : MusicPlayEngine Media) : EngineEvent Media → Option (MusicPlayEngine Media)
  | .playMedia mediaInfo preparation => some (engine.playMedia mediaInfo preparation)
  | .play preparation => some (engine.play preparation)
  | .pause => some engine.pause
  | .stop => some engine.stop
  | .skipTo _ => some engine
  | .onPrepared =>
      if engine.mMediaPlayer.preparing then
        let player := { engine.mMediaPlayer with preparing := false }
        some { engine with mMediaPlayer := player }.prepareComplete
      else none

def run (events : List (EngineEvent Media)) : Option (MusicPlayEngine Media) :=
  events.foldlM step defaultParam

end MusicPlayEngine

namespace MusicPlayEngine

theorem step_onPrepared {engine next : MusicPlayEngine Media}
    (stepped : engine.step .onPrepared = some next) : next.mPlayState = .MPS_PLAYING := by
  rw [step] at stepped
  split_ifs at stepped
  cases stepped
  rfl

theorem pause_not_playing (engine : MusicPlayEngine Media) :
    engine.pause.mPlayState ≠ .MPS_PLAYING := by
  unfold pause
  split
  · exact PlayState.noConfusion
  · assumption

end MusicPlayEngine

def EngineEvent.pauses (paused : Bool) : EngineEvent Media → Bool
  | .pause => true
  | .playMedia .. | .play _ | .stop => false
  | .skipTo _ | .onPrepared => paused

def lastIsPause (events : List (EngineEvent Media)) : Bool :=
  events.foldl EngineEvent.pauses false

/-- After any event, the engine does not play where the last command is a pause. -/
def PauseHolds (events : List (EngineEvent Media)) : Prop :=
  ∀ front engine, front <+: events → lastIsPause front = true →
    MusicPlayEngine.run front = some engine → engine.mPlayState ≠ .MPS_PLAYING

/-- No `onPrepared` comes between a pause and the command after it. -/
def PreparedBeforePause (events : List (EngineEvent Media)) : Prop :=
  ∀ front, front ++ [.onPrepared] <+: events → lastIsPause front = false

namespace MusicPlayEngine

theorem lastIsPause_concat (front : List (EngineEvent Media)) (event : EngineEvent Media) :
    lastIsPause (front ++ [event]) = event.pauses (lastIsPause front) := by
  simp [lastIsPause]

theorem run_concat {front : List (EngineEvent Media)} {event : EngineEvent Media}
    {next : MusicPlayEngine Media} :
    run (front ++ [event]) = some next ↔
      ∃ engine, run front = some engine ∧ engine.step event = some next := by
  simp only [run, List.foldlM_append, List.foldlM_cons, List.foldlM_nil, Option.bind_eq_bind,
    Option.bind_eq_some_iff]
  simp

theorem run_prefix {front events : List (EngineEvent Media)} {engine : MusicPlayEngine Media}
    (part : front <+: events) (ran : run events = some engine) :
    ∃ before, run front = some before := by
  obtain ⟨back, rfl⟩ := part
  rw [run, List.foldlM_append, Option.bind_eq_bind, Option.bind_eq_some_iff] at ran
  exact ⟨ran.choose, ran.choose_spec.1⟩

theorem step_paused {engine next : MusicPlayEngine Media} {event : EngineEvent Media}
    {paused : Bool} (stepped : engine.step event = some next)
    (callback : event = .onPrepared → paused = false)
    (still : paused = true → engine.mPlayState ≠ .MPS_PLAYING)
    (pauses : event.pauses paused = true) : next.mPlayState ≠ .MPS_PLAYING := by
  cases event with
  | pause =>
      cases stepped
      exact pause_not_playing engine
  | skipTo time =>
      cases stepped
      exact still pauses
  | onPrepared => exact absurd pauses (by simp [EngineEvent.pauses, callback rfl])
  | playMedia mediaInfo preparation => cases pauses
  | play preparation => cases pauses
  | stop => cases pauses

/-- A pause holds in a run exactly when no track becomes prepared behind a pause. -/
theorem pauseHolds_iff {events : List (EngineEvent Media)} {last : MusicPlayEngine Media}
    (ran : run events = some last) : PauseHolds events ↔ PreparedBeforePause events := by
  constructor
  · intro holds front part
    obtain ⟨engine, reached⟩ := run_prefix part ran
    obtain ⟨_, _, stepped⟩ := run_concat.mp reached
    by_contra paused
    refine holds _ engine part ?_ reached (step_onPrepared stepped)
    simpa [lastIsPause_concat, EngineEvent.pauses] using paused
  · intro inTime front
    induction front using List.reverseRecOn with
    | nil => intro engine _ paused; cases paused
    | append_singleton front event ih =>
        intro engine part paused reached
        obtain ⟨before, earlier, stepped⟩ := run_concat.mp reached
        have shorter : front <+: events := (List.prefix_append front [event]).trans part
        rw [lastIsPause_concat] at paused
        refine step_paused stepped ?_ (fun still => ih before shorter still earlier) paused
        rintro rfl
        exact inTime front part

theorem late_pause_holds :
    PauseHolds [.playMedia (some ()) .complete, .onPrepared, .pause] := by
  have ran : run [.playMedia (some ()) .complete, .onPrepared, .pause] =
      some ⟨⟨false, false⟩, some (), .MPS_PAUSE⟩ := rfl
  refine (pauseHolds_iff ran).mpr ?_
  rintro (_ | ⟨first, _ | ⟨second, _ | ⟨third, rest⟩⟩⟩) ⟨back, same⟩ <;> simp at same
  obtain ⟨rfl, -⟩ := same
  rfl

/-- A pause while the track is preparing is lost: the callback starts the player. -/
theorem early_pause_lost : ¬ ∀ events : List (EngineEvent Unit), PauseHolds events := by
  intro holds
  exact holds [.playMedia (some ()) .complete, .pause, .onPrepared] _
    ⟨⟨false, true⟩, some (), .MPS_PLAYING⟩ List.prefix_rfl rfl rfl rfl

end MusicPlayEngine

end engine

end AirCast.Player
