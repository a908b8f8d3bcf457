import AirCast.Center.DMRCenter

/-! # What becomes of the renderer's commands

Every posting clears the handler first, so at most one message is pending.  The
one command that does not clear it is a PLAY that resumes: it broadcasts without
posting, and a stop message posted before it stays pending.  The type of a stop
is boxed into the object of its message, but read from `arg1`. -/

set_option autoImplicit false

namespace AirCast.Center

namespace DMRCenter

/-! ## What a step does to the handler -/

def IsStart (msg : Message) : Prop :=
  msg.what = MSG_START_MUSICPLAY ∨ msg.what = MSG_START_PICPLAY ∨
    msg.what = MSG_START_VIDOPLAY ∨ msg.what = MSG_START_SCREENPLAY

def IsStop (msg : Message) : Prop := msg.what = MSG_SEND_STOPCMD

instance : DecidablePred IsStart := fun msg => by unfold IsStart; infer_instance

instance : DecidablePred IsStop := fun msg => by unfold IsStop; infer_instance

theorem mem_clearDelayMsg (handler : MessageQueue Message) (entry : ℕ × Message) :
    entry ∈ (clearDelayMsg handler).pending ↔
      entry ∈ handler.pending ∧ ¬ IsStart entry.2 ∧ ¬ IsStop entry.2 := by
  simp only [clearDelayMsg, clearDelayMsgOf, MessageQueue.remove, List.mem_filter,
    Bool.not_eq_true', decide_eq_false_iff_not, IsStart, IsStop]
  tauto

theorem clearDelayMsg_ages (handler : MessageQueue Message) :
    MessageQueue.Ages handler (clearDelayMsg handler) :=
  ⟨le_refl _, fun entry member => Or.inl ((mem_clearDelayMsg handler entry).mp member).1⟩

section steps

variable (parse : Bytes → Option Node)

def currentMediaInfo (center : DMRCenter) : Option DlnaMediaModel :=
  if center.mCurMediaInfoType = CUR_MEDIA_TYPE_MUSCI then center.mMusicMediaInfo
  else if center.mCurMediaInfoType = CUR_MEDIA_TYPE_VIDEO then center.mVideoMediaInfo
  else if center.mCurMediaInfoType = CUR_MEDIA_TYPE_PICTURE then center.mImageMediaInfo
  else if center.mCurMediaInfoType = CUR_MEDIA_TYPE_SCREEN then center.mScreenMediaInfo
  else none

def postedStop (center : DMRCenter) : Event → Option (ℕ × ℤ)
  | .onActionInvoke cmd _ data =>
      if cmd = MEDIA_RENDER_CTL_MSG_STOP then
        (data.bind JString.integerValueOf).map fun type => (center.mHandler.next, type)
      else none
  | _ => none

def stopMessage (type : ℤ) : Message := obtainMessage MSG_SEND_STOPCMD (.integer type)

theorem onRenderAvTransport_mHandler (center : DMRCenter) (value data : Option JString) :
    (center.onRenderAvTransport parse value data).mHandler = center.mHandler := by
  unfold onRenderAvTransport
  cases data with
  | none => rfl
  | some metadata =>
      cases value with
      | none => rfl
      | some url =>
          dsimp only
          split_ifs <;> rfl

theorem playCurrent_mHandler (center : DMRCenter) (mediaInfo : Option DlnaMediaModel)
    (what : ℕ) (kind : IsStart (obtainMessage what (.integer 0)))
    (delayToPlay : DMRCenter → DlnaMediaModel → DMRCenter)
    (posts : ∀ info, delayToPlay center info =
      center.delayTo (obtainMessage what (.model info))) :
    (mediaInfo = none ∧
        (center.playCurrent mediaInfo delayToPlay).1.mHandler = center.mHandler) ∨
      mediaInfo ≠ none ∧ ∃ msg, IsStart msg ∧
        (center.playCurrent mediaInfo delayToPlay).1.mHandler =
          (clearDelayMsg center.mHandler).post msg := by
  cases mediaInfo with
  | none => exact Or.inl ⟨rfl, rfl⟩
  | some info =>
      refine Or.inr ⟨by simp, obtainMessage what (.model info), kind, ?_⟩
      simp only [playCurrent, posts]
      rfl

theorem onRenderPlay_mHandler (center : DMRCenter) :
    (center.currentMediaInfo = none ∧ center.onRenderPlay.1.mHandler = center.mHandler) ∨
      center.currentMediaInfo ≠ none ∧ ∃ msg, IsStart msg ∧
        center.onRenderPlay.1.mHandler = (clearDelayMsg center.mHandler).post msg := by
  unfold onRenderPlay currentMediaInfo
  split_ifs with music video picture screen
  · exact center.playCurrent_mHandler _ MSG_START_MUSICPLAY (by decide) _ fun _ => rfl
  · exact center.playCurrent_mHandler _ MSG_START_VIDOPLAY (by decide) _ fun _ => rfl
  · exact center.playCurrent_mHandler _ MSG_START_PICPLAY (by decide) _ fun _ => rfl
  · exact center.playCurrent_mHandler _ MSG_START_SCREENPLAY (by decide) _ fun _ => rfl
  · exact Or.inl ⟨rfl, rfl⟩

/-- An event leaves the handler alone, clears it and posts a start or a stop message, or is
the delivery of a message. -/
theorem handle_mHandler (center : DMRCenter) (event : Event) :
    (center.handle parse event).1.mHandler = center.mHandler ∧ center.postedStop event = none ∨
      (∃ msg, (center.handle parse event).1.mHandler =
          (clearDelayMsg center.mHandler).post msg ∧
        (IsStart msg ∧ center.postedStop event = none ∨ ∃ type, msg = stopMessage type ∧
          center.postedStop event = some (center.mHandler.next, type))) ∨
      ∃ index, event = .dispatch index ∧
        (center.handle parse event).1.mHandler = center.mHandler.take index := by
  cases event with
  | onActionInvoke cmd value data =>
      simp only [handle, onActionInvoke, postedStop]
      by_cases transport : cmd = MEDIA_RENDER_CTL_MSG_SET_AV_URL
      · rw [if_pos transport, if_neg (by rw [transport]; decide)]
        exact Or.inl ⟨onRenderAvTransport_mHandler parse center value data, rfl⟩
      rw [if_neg transport]
      by_cases play : cmd = MEDIA_RENDER_CTL_MSG_PLAY
      · rw [if_pos play, if_neg (by rw [play]; decide)]
        rcases center.onRenderPlay_mHandler with ⟨_, same⟩ | ⟨_, msg, kind, posted⟩
        · exact Or.inl ⟨same, rfl⟩
        · exact Or.inr (Or.inl ⟨msg, posted, Or.inl ⟨kind, rfl⟩⟩)
      rw [if_neg play]
      by_cases stop : cmd = MEDIA_RENDER_CTL_MSG_STOP
      · rw [if_pos stop, if_pos stop]
        unfold onRenderStop
        cases data.bind JString.integerValueOf with
        | none => exact Or.inl ⟨rfl, rfl⟩
        | some type =>
            exact Or.inr (Or.inl ⟨stopMessage type, rfl, Or.inr ⟨type, rfl, rfl⟩⟩)
      · rw [if_neg stop, if_neg stop]
        exact Or.inl ⟨rfl, rfl⟩
  | onCoverInvoke data => exact Or.inl ⟨rfl, rfl⟩
  | dispatch index => exact Or.inr (Or.inr ⟨index, rfl, rfl⟩)

theorem handle_ages (center : DMRCenter) (event : Event) :
    center.mHandler.Ages (center.handle parse event).1.mHandler := by
  rcases center.handle_mHandler parse event with
    ⟨same, _⟩ | ⟨msg, posted, _⟩ | ⟨index, _, taken⟩
  · rw [same]
    exact MessageQueue.ages_refl _
  · rw [posted]
    exact MessageQueue.ages_trans (clearDelayMsg_ages _) (MessageQueue.post_ages _ _)
  · rw [taken]
    exact MessageQueue.take_ages _ _

/-! ## At most one message -/

/-- What holds of the handler in every state. -/
structure Orderly (center : DMRCenter) : Prop where
  numbered : center.mHandler.Numbered
  kinds : ∀ entry ∈ center.mHandler.pending, IsStart entry.2 ∨ IsStop entry.2
  atMostOne : center.mHandler.pending.length ≤ 1

theorem start_orderly : start.Orderly where
  numbered _ member := nomatch member
  kinds _ member := nomatch member
  atMostOne := Nat.zero_le 1

theorem clearDelayMsg_pending {center : DMRCenter} (orderly : center.Orderly) :
    (clearDelayMsg center.mHandler).pending = [] := by
  refine List.eq_nil_iff_forall_not_mem.mpr fun entry member => ?_
  obtain ⟨pending, noStart, noStop⟩ := (mem_clearDelayMsg _ _).mp member
  exact (orderly.kinds entry pending).elim noStart noStop

theorem posted_pending {center next : DMRCenter} (orderly : center.Orderly) {msg : Message}
    (posted : next.mHandler = (clearDelayMsg center.mHandler).post msg) :
    next.mHandler.pending = [(center.mHandler.next, msg)] := by
  rw [posted, MessageQueue.post, clearDelayMsg_pending orderly]
  rfl

theorem handle_orderly (center : DMRCenter) (event : Event) (orderly : center.Orderly) :
    (center.handle parse event).1.Orderly := by
  refine ⟨MessageQueue.numbered_of_ages (center.handle_ages parse event) orderly.numbered,
    ?_, ?_⟩
  all_goals
    rcases center.handle_mHandler parse event with
      ⟨same, _⟩ | ⟨msg, posted, kind⟩ | ⟨index, _, taken⟩
  · rw [same]
    exact orderly.kinds
  · rw [posted_pending orderly posted]
    rintro entry member
    rw [List.mem_singleton.mp member]
    rcases kind with ⟨isStart, _⟩ | ⟨type, rfl, _⟩
    · exact Or.inl isStart
    · exact Or.inr rfl
  · rw [taken]
    exact fun entry member => orderly.kinds entry (List.mem_of_mem_eraseIdx member)
  · rw [same]
    exact orderly.atMostOne
  · rw [posted_pending orderly posted]
    exact le_refl 1
  · rw [taken]
    exact (List.length_eraseIdx_le _ _).trans orderly.atMostOne

def after (events : List Event) : DMRCenter := ((machine parse).run start events).1

theorem after_concat (events : List Event) (event : Event) :
    after parse (events ++ [event]) = ((after parse events).handle parse event).1 :=
  Transducer.run_concat (machine parse) events event start

theorem after_orderly (events : List Event) : (after parse events).Orderly :=
  (machine parse).run_invariant Orderly (fun center event => center.handle_orderly parse event)
    events start start_orderly

/-! ## A stop message and the STOP it comes from -/

/-- After `front`, the event `stop` posts the stop message `identity`. -/
def Posts (front : List Event) (stop : Event) (identity : ℕ) (type : ℤ) : Prop :=
  (after parse front).postedStop stop = some (identity, type)

theorem posts_tracks {front : List Event} {stop : Event} {identity : ℕ} {type : ℤ}
    (posts : Posts parse front stop identity type) :
    (after parse (front ++ [stop])).mHandler.Tracks identity (stopMessage type) := by
  have orderly := after_orderly parse front
  rw [after_concat]
  unfold Posts at posts
  rcases (after parse front).handle_mHandler parse stop with
    ⟨_, silent⟩ | ⟨msg, posted, ⟨_, silent⟩ | ⟨type', rfl, posts'⟩⟩ | ⟨index, rfl, _⟩
  · rw [silent] at posts
    cases posts
  · rw [silent] at posts
    cases posts
  · rw [posts'] at posts
    cases posts
    rw [posted]
    exact MessageQueue.post_tracks
      (MessageQueue.numbered_of_ages (clearDelayMsg_ages _) orderly.numbered) _
  · cases posts

theorem run_ages (center : DMRCenter) (events : List Event) :
    center.mHandler.Ages ((machine parse).run center events).1.mHandler :=
  (machine parse).run_invariant (fun later => center.mHandler.Ages later.mHandler)
    (fun later event ages => MessageQueue.ages_trans ages (later.handle_ages parse event))
    events center (MessageQueue.ages_refl _)

theorem after_ages (front back : List Event) :
    (after parse front).mHandler.Ages (after parse (front ++ back)).mHandler := by
  unfold after
  rw [Transducer.run_append]
  exact run_ages parse _ back

/-- Every pending stop message comes from a STOP of the run. -/
theorem pending_stop_posted (events : List Event) :
    ∀ identity message, (identity, message) ∈ (after parse events).mHandler.pending →
      IsStop message →
      ∃ front stop middle type, events = front ++ stop :: middle ∧
        Posts parse front stop identity type ∧ message = stopMessage type := by
  induction events using List.reverseRecOn with
  | nil => intro identity message member; cases member
  | append_singleton events event ih =>
      intro identity message member isStop
      rw [after_concat] at member
      have earlier (pending : (identity, message) ∈ (after parse events).mHandler.pending) :
          ∃ front stop middle type, events ++ [event] = front ++ stop :: middle ∧
            Posts parse front stop identity type ∧ message = stopMessage type := by
        obtain ⟨front, stop, middle, type, rfl, posts⟩ := ih identity message pending isStop
        exact ⟨front, stop, middle ++ [event], type, by simp, posts⟩
      rcases (after parse events).handle_mHandler parse event with
        ⟨same, _⟩ | ⟨msg, posted, kind⟩ | ⟨index, _, taken⟩
      · rw [same] at member
        exact earlier member
      · rw [posted_pending (after_orderly parse events) posted] at member
        cases List.mem_singleton.mp member
        rcases kind with ⟨isStart, _⟩ | ⟨type, rfl, posts⟩
        · rw [IsStop] at isStop
          rw [IsStart, isStop] at isStart
          exact absurd isStart (by decide)
        · exact ⟨events, event, [], type, rfl, posts, rfl⟩
      · rw [taken] at member
        exact earlier (List.mem_of_mem_eraseIdx member)

/-! ## The last command wins -/

/-- A PLAY is handled while a current media type is set. -/
def PlaysCurrent (center : DMRCenter) (event : Event) : Prop :=
  (∃ value data, event = .onActionInvoke MEDIA_RENDER_CTL_MSG_PLAY value data) ∧
    center.mCurMediaInfoType ≠ -1

/-- A PLAY handled while a stop message is pending finds a media info of the current type. -/
def StartsOverStop (center : DMRCenter) (event : Event) : Prop :=
  center.PlaysCurrent event → (∃ entry ∈ center.mHandler.pending, IsStop entry.2) →
    center.currentMediaInfo ≠ none

structure LastCommandWins (events : List Event) : Prop where
  oneStart : ∀ front back, events = front ++ back →
    (after parse front).mHandler.pending.countP (fun entry => decide (IsStart entry.2)) ≤ 1
  oneStop : ∀ front back, events = front ++ back →
    (after parse front).mHandler.pending.countP (fun entry => decide (IsStop entry.2)) ≤ 1
  /-- Whenever the handler delivers after the PLAY, it does not deliver the older stop. -/
  overtaken : ∀ front stop middle play back rest identity type (index : ℕ) message,
    events = front ++ stop :: (middle ++ play :: (back ++ rest)) →
    Posts parse front stop identity type →
    (after parse (front ++ stop :: middle)).PlaysCurrent play →
    (after parse (front ++ stop :: (middle ++ play :: back))).mHandler.pending[index]? ≠
      some (identity, message)

theorem play_mHandler {center : DMRCenter} {event : Event}
    (plays : center.PlaysCurrent event) :
    (center.handle parse event).1.mHandler = center.onRenderPlay.1.mHandler := by
  obtain ⟨⟨value, data, rfl⟩, _⟩ := plays
  rfl

theorem play_gone {center : DMRCenter} {event : Event} {identity : ℕ}
    (orderly : center.Orderly) (plays : center.PlaysCurrent event)
    (found : center.currentMediaInfo ≠ none) (past : identity < center.mHandler.next) :
    (center.handle parse event).1.mHandler.Gone identity := by
  rcases center.onRenderPlay_mHandler with ⟨missing, _⟩ | ⟨_, msg, _, posted⟩
  · exact absurd missing found
  · rw [← play_mHandler parse plays] at posted
    refine ⟨past.trans_le (center.handle_ages parse event).1, fun other member => ?_⟩
    rw [posted_pending orderly posted] at member
    cases List.mem_singleton.mp member
    exact lt_irrefl _ past

theorem overtaken_of_allowed {events : List Event}
    (allowed : (machine parse).Admissible StartsOverStop start events)
    {front middle back rest : List Event} {stop play : Event} {identity : ℕ} {type : ℤ}
    (split : events = front ++ stop :: (middle ++ play :: (back ++ rest)))
    (posts : Posts parse front stop identity type)
    (plays : (after parse (front ++ stop :: middle)).PlaysCurrent play) :
    (after parse (front ++ stop :: (middle ++ play :: back))).mHandler.Gone identity := by
  have tracks : (after parse (front ++ stop :: middle)).mHandler.Tracks identity
      (stopMessage type) := by
    have later := MessageQueue.tracks_of_ages (after_ages parse (front ++ [stop]) middle)
      (posts_tracks parse posts)
    rwa [List.append_assoc] at later
  have played : (after parse (front ++ stop :: middle ++ [play])).mHandler.Gone identity := by
    rw [after_concat]
    by_cases pending : ∃ message,
        (identity, message) ∈ (after parse (front ++ stop :: middle)).mHandler.pending
    · obtain ⟨message, member⟩ := pending
      obtain rfl := tracks.2 message member
      have found := ((machine parse).admissible_iff StartsOverStop events start).mp allowed
        (front ++ stop :: middle) play (back ++ rest) (by simp [split])
        plays ⟨_, member, rfl⟩
      exact play_gone parse (after_orderly parse _) plays found tracks.1
    · exact MessageQueue.gone_of_ages (handle_ages parse _ play)
        ⟨tracks.1, fun message member => pending ⟨message, member⟩⟩
  have later := MessageQueue.gone_of_ages
    (after_ages parse (front ++ stop :: middle ++ [play]) back) played
  simpa using later

theorem startsOverStop_of_overtaken {events : List Event} (wins : LastCommandWins parse events)
    {front back : List Event} {play : Event} (split : events = front ++ play :: back) :
    (after parse front).StartsOverStop play := by
  rintro plays ⟨⟨identity, message⟩, member, isStop⟩ missing
  obtain ⟨before, stop, middle, type, rfl, posts, _⟩ :=
    pending_stop_posted parse front identity message member isStop
  have same : (after parse (before ++ stop :: middle ++ [play])).mHandler =
      (after parse (before ++ stop :: middle)).mHandler := by
    rw [after_concat, play_mHandler parse plays]
    rcases (after parse (before ++ stop :: middle)).onRenderPlay_mHandler with
      ⟨_, same⟩ | ⟨found, _⟩
    · exact same
    · exact absurd missing found
  obtain ⟨index, bound, at_index⟩ := List.getElem_of_mem member
  refine wins.overtaken before stop middle play [] back identity type index message
    (by simp [split]) posts plays ?_
  have shape : before ++ stop :: (middle ++ [play]) = before ++ stop :: middle ++ [play] := by
    simp
  rw [shape, same, List.getElem?_eq_getElem bound, at_index]

/-- The last command wins exactly if no PLAY resumes while a stop message is pending. -/
theorem lastCommandWins_iff (events : List Event) :
    LastCommandWins parse events ↔
      (machine parse).Admissible StartsOverStop start events := by
  constructor
  · intro wins
    refine ((machine parse).admissible_iff StartsOverStop events start).mpr ?_
    intro front play back split
    exact startsOverStop_of_overtaken parse wins split
  · intro allowed
    refine ⟨fun front _ _ => ?_, fun front _ _ => ?_, ?_⟩
    · exact List.countP_le_length.trans (after_orderly parse front).atMostOne
    · exact List.countP_le_length.trans (after_orderly parse front).atMostOne
    · intro front stop middle play back rest identity type index message split posts plays found
      exact (overtaken_of_allowed parse allowed split posts plays).2 message
        (List.mem_of_getElem? found)

/-! ## The type of a stop -/

/-- The handler delivers no stop message of a type other than zero. -/
def DeliversVideoStop (center : DMRCenter) (event : Event) : Prop :=
  ∀ index identity type, event = .dispatch index →
    center.mHandler.pending[index]? = some (identity, stopMessage type) →
    type = CUR_MEDIA_TYPE_VIDEO

structure StopsKeepTheirType (events : List Event) : Prop where
  atOnce : ∀ front stop rest identity type, events = front ++ stop :: rest →
    Posts parse front stop identity type →
    ∀ sent, .sendStopBorocast sent ∈ ((after parse front).handle parse stop).2 → sent = type
  delayed : ∀ front stop middle (index : ℕ) rest identity type message,
    events = front ++ stop :: (middle ++ .dispatch index :: rest) →
    Posts parse front stop identity type →
    (after parse (front ++ stop :: middle)).mHandler.pending[index]? =
      some (identity, message) →
    ∀ sent, .sendStopBorocast sent ∈
        ((after parse (front ++ stop :: middle)).handle parse (.dispatch index)).2 →
      sent = type

theorem dispatch_stopMessage {center : DMRCenter} {index identity : ℕ} {type : ℤ}
    (found : center.mHandler.pending[index]? = some (identity, stopMessage type)) :
    (center.handle parse (.dispatch index)).2 = [.sendStopBorocast 0] := by
  simp only [handle, deliver, found]
  rfl

theorem posts_effects {center : DMRCenter} {stop : Event} {identity : ℕ} {type : ℤ}
    (posts : center.postedStop stop = some (identity, type)) :
    (center.handle parse stop).2 = [.sendStopBorocast type, .audioUninit] := by
  cases stop with
  | onActionInvoke cmd value data =>
      simp only [postedStop] at posts
      split_ifs at posts with isStop
      obtain ⟨parsed, found, same⟩ := Option.map_eq_some_iff.mp posts
      cases same
      subst isStop
      simp only [handle, onActionInvoke, onRenderStop, found]
      rfl
  | onCoverInvoke data => cases posts
  | dispatch index => cases posts

/-- Every stop broadcast carries the type of its STOP exactly if the delayed stops that the
handler delivers are those of videos. -/
theorem stopsKeepTheirType_iff (events : List Event) :
    StopsKeepTheirType parse events ↔
      (machine parse).Admissible DeliversVideoStop start events := by
  rw [Transducer.admissible_iff]
  constructor
  · rintro kept front event back split index identity type rfl found
    have member := List.mem_of_getElem? found
    obtain ⟨before, stop, middle, type', rfl, posts, same⟩ :=
      pending_stop_posted parse front identity _ member rfl
    have effects : ((after parse (before ++ stop :: middle)).handle parse (.dispatch index)).2 =
        [.sendStopBorocast 0] := dispatch_stopMessage parse found
    have sent : (0 : ℤ) = type' := by
      refine kept.delayed before stop middle index back identity type' _ (by simp [split])
        posts found 0 ?_
      rw [effects]
      exact List.mem_singleton_self _
    simp only [stopMessage, obtainMessage, Message.mk.injEq, MessageObject.integer.injEq] at same
    rw [same.2.2, ← sent]
    rfl
  · intro allowed
    refine ⟨?_, ?_⟩
    · intro front stop rest identity type _ posts sent member
      rw [posts_effects parse posts] at member
      simpa using member
    · intro front stop middle index rest identity type message split posts found sent member
      have tracks := MessageQueue.tracks_of_ages (after_ages parse (front ++ [stop]) middle)
        (posts_tracks parse posts)
      rw [List.append_assoc] at tracks
      obtain rfl := tracks.2 message (List.mem_of_getElem? found)
      have video := allowed (front ++ stop :: middle) (.dispatch index) rest (by simp [split])
        index identity type rfl found
      rw [dispatch_stopMessage parse found] at member
      rw [video]
      simpa [CUR_MEDIA_TYPE_VIDEO] using member

end steps

/-! ## The runs that fail -/

/-- The document that `airplay_open` sends, parsed. -/
def movieDocument : Node :=
  .element "DIDL-Lite".toList [.element "item".toList
    [.element "upnp:class".toList [.content "object.item.videoItem.movie".toList]]]

def setVideo : Event :=
  .onActionInvoke MEDIA_RENDER_CTL_MSG_SET_AV_URL (some "http://host/a.mp4".toList)
    (some ("<DIDL-Lite><item><upnp:class>object.item.videoItem.movie</upnp:class>" ++
      "</item></DIDL-Lite>").toList)

def play : Event := .onActionInvoke MEDIA_RENDER_CTL_MSG_PLAY none none

def stopOf (type : String) : Event :=
  .onActionInvoke MEDIA_RENDER_CTL_MSG_STOP none (some type.toList)

def resumedVideo : List Event := [setVideo, play, .dispatch 0, stopOf "0", play]

theorem resumedVideo_pending :
    (after (fun _ => some movieDocument) resumedVideo).mHandler.pending =
      [(1, stopMessage 0)] := rfl

theorem resumedVideo_loses :
    ¬ LastCommandWins (fun _ => some movieDocument) resumedVideo := by
  intro wins
  refine wins.overtaken [setVideo, play, .dispatch 0] (stopOf "0") [] play [] [] 1 0 0
    (stopMessage 0) rfl rfl ⟨⟨none, none, rfl⟩, ?_⟩ ?_
  · decide
  · exact congrArg (fun pending => pending[0]?) resumedVideo_pending

/-- A mirrored screen is stopped, and the delayed stop is delivered. -/
theorem screenStop_changesType :
    ¬ StopsKeepTheirType (fun _ => none) [stopOf "3", .dispatch 0] := by
  intro kept
  have sent := kept.delayed [] (stopOf "3") [] 0 [] 0 3 (stopMessage 3) rfl rfl rfl 0
    (List.mem_singleton_self _)
  exact absurd sent (by decide)

end DMRCenter

end AirCast.Center
