import AirCast.Center.RendererCommands

/-! # What the renderer launches

A SET_AV_URL of a recognised type makes its media ready, in place of whatever was ready
before, and a PLAY uses it up.  The four media fields and the current type come to that:
the PLAY posts the launch of what is ready, and each message is delivered at most once. -/

set_option autoImplicit false

namespace AirCast.Center

namespace DMRCenter

def Sets (event : Event) : Prop :=
  ∃ value data, event = .onActionInvoke MEDIA_RENDER_CTL_MSG_SET_AV_URL value data

def Plays (event : Event) : Prop :=
  ∃ value data, event = .onActionInvoke MEDIA_RENDER_CTL_MSG_PLAY value data

def isPlay : Event → Bool
  | .onActionInvoke cmd _ _ => decide (cmd = MEDIA_RENDER_CTL_MSG_PLAY)
  | _ => false

theorem isPlay_iff (event : Event) : isPlay event = true ↔ Plays event := by
  cases event with
  | onActionInvoke cmd value data => simp [isPlay, Plays]
  | onCoverInvoke data => simp [isPlay, Plays]
  | dispatch index => simp [isPlay, Plays]

def isLaunch : Effect → Bool
  | .startPlayMusic _ | .startPlayPicture _ | .startPlayVideo _ | .startPlayScreen _ => true
  | _ => false

/-- The launch of what a PLAY would start. -/
def launch (center : DMRCenter) : Option Effect :=
  if center.mCurMediaInfoType = CUR_MEDIA_TYPE_MUSCI then
    center.mMusicMediaInfo.map .startPlayMusic
  else if center.mCurMediaInfoType = CUR_MEDIA_TYPE_VIDEO then
    center.mVideoMediaInfo.map .startPlayVideo
  else if center.mCurMediaInfoType = CUR_MEDIA_TYPE_PICTURE then
    center.mImageMediaInfo.map .startPlayPicture
  else if center.mCurMediaInfoType = CUR_MEDIA_TYPE_SCREEN then
    center.mScreenMediaInfo.map .startPlayScreen
  else none

theorem launch_clearState (center : DMRCenter) : center.clearState.launch = none := by
  unfold launch clearState
  split_ifs <;> rfl

section launches

variable (parse : Bytes → Option Node)

/-! ## What is ready -/

/-- The launch of the media of a SET_AV_URL of a recognised type.  Without a document, or
without a URL of two characters, there is no media. -/
def recognised : Event → Option Effect
  | .onActionInvoke cmd (some url) (some metadata) =>
      if cmd = MEDIA_RENDER_CTL_MSG_SET_AV_URL ∧ 2 ≤ JString.length url then
        let mediaInfo := (createFromMetaData parse metadata).setUrl url
        if isAudioItem mediaInfo then some (.startPlayMusic mediaInfo)
        else if isVideoItem mediaInfo then some (.startPlayVideo mediaInfo)
        else if isImageItem mediaInfo then some (.startPlayPicture mediaInfo)
        else if isScreenItem mediaInfo then some (.startPlayScreen mediaInfo)
        else none
      else none
  | _ => none

def readied (ready : Option Effect) (event : Event) : Option Effect :=
  match recognised parse event with
  | some launch => some launch
  | none => if isPlay event then none else ready

def ready (events : List Event) : Option Effect := events.foldl (readied parse) none

theorem recognised_other {cmd : ℤ} (other : cmd ≠ MEDIA_RENDER_CTL_MSG_SET_AV_URL)
    (value data : Option JString) : recognised parse (.onActionInvoke cmd value data) = none := by
  cases value with
  | none => rfl
  | some url =>
      cases data with
      | none => rfl
      | some metadata => exact if_neg fun both => other both.1

theorem recognised_sets {event : Event} {effect : Effect}
    (found : recognised parse event = some effect) : Sets event := by
  cases event with
  | onActionInvoke cmd value data =>
      by_cases transport : cmd = MEDIA_RENDER_CTL_MSG_SET_AV_URL
      · exact ⟨value, data, by rw [transport]⟩
      · rw [recognised_other parse transport] at found
        cases found
  | onCoverInvoke data => cases found
  | dispatch index => cases found

theorem onRenderAvTransport_launch (center : DMRCenter) (value data : Option JString) :
    (center.onRenderAvTransport parse value data).launch =
      (recognised parse (.onActionInvoke MEDIA_RENDER_CTL_MSG_SET_AV_URL value data)).or
        center.launch := by
  cases data with
  | none => cases value <;> rfl
  | some metadata =>
      cases value with
      | none => rfl
      | some url =>
          by_cases short : JString.length url < 2
          · have silent : ¬ 2 ≤ JString.length url := by omega
            simp [onRenderAvTransport, recognised, short, silent]
          · have long : 2 ≤ JString.length url := by omega
            simp only [onRenderAvTransport, recognised, short, long, if_false, and_self, if_true]
            split_ifs <;> rfl

theorem onRenderPlay_launch (center : DMRCenter) : center.onRenderPlay.1.launch = none := by
  have cleared (mediaInfo : Option DlnaMediaModel)
      (delayToPlay : DMRCenter → DlnaMediaModel → DMRCenter) :
      (center.playCurrent mediaInfo delayToPlay).1.launch = none := by
    cases mediaInfo <;> exact launch_clearState _
  unfold onRenderPlay
  split_ifs with music video picture screen
  · exact cleared _ _
  · exact cleared _ _
  · exact cleared _ _
  · exact cleared _ _
  · rw [launch, if_neg music, if_neg video, if_neg picture, if_neg screen]

theorem handle_launch (center : DMRCenter) (event : Event) :
    (center.handle parse event).1.launch = readied parse center.launch event := by
  cases event with
  | onActionInvoke cmd value data =>
      simp only [handle, onActionInvoke, readied, isPlay]
      by_cases transport : cmd = MEDIA_RENDER_CTL_MSG_SET_AV_URL
      · subst transport
        rw [if_pos rfl, onRenderAvTransport_launch]
        cases recognised parse (.onActionInvoke MEDIA_RENDER_CTL_MSG_SET_AV_URL value data) <;> rfl
      rw [if_neg transport, recognised_other parse transport]
      by_cases play : cmd = MEDIA_RENDER_CTL_MSG_PLAY
      · rw [if_pos play, onRenderPlay_launch]
        simp [play]
      rw [if_neg play]
      simp only [play, decide_false, Bool.false_eq_true, if_false]
      by_cases stop : cmd = MEDIA_RENDER_CTL_MSG_STOP
      · rw [if_pos stop]
        unfold onRenderStop
        cases data.bind JString.integerValueOf <;> rfl
      · rw [if_neg stop]
  | onCoverInvoke data => rfl
  | dispatch index => rfl

theorem launch_after (events : List Event) : (after parse events).launch = ready parse events := by
  induction events using List.reverseRecOn with
  | nil => rfl
  | append_singleton events event ih =>
      rw [after_concat, handle_launch, ih, ready, ready, List.foldl_concat]

/-! ## What one event posts and launches -/

/-- A PLAY posts the launch that is ready, and nothing where none is. -/
theorem onRenderPlay_posts (center : DMRCenter) :
    (center.launch = none ∧ center.onRenderPlay.1.mHandler = center.mHandler) ∨
      ∃ effect msg, center.launch = some effect ∧ dispatchMessage msg = [effect] ∧
        center.onRenderPlay.1.mHandler = (clearDelayMsg center.mHandler).post msg := by
  have posts (what : ℕ) (startPlay : DlnaMediaModel → Effect)
      (mediaInfo : Option DlnaMediaModel) (delayToPlay : DMRCenter → DlnaMediaModel → DMRCenter)
      (delayed : ∀ info, delayToPlay center info =
        center.delayTo (obtainMessage what (.model info)))
      (dispatched : ∀ info, dispatchMessage (obtainMessage what (.model info)) =
        [startPlay info]) :
      (mediaInfo.map startPlay = none ∧
          (center.playCurrent mediaInfo delayToPlay).1.mHandler = center.mHandler) ∨
        ∃ effect msg, mediaInfo.map startPlay = some effect ∧ dispatchMessage msg = [effect] ∧
          (center.playCurrent mediaInfo delayToPlay).1.mHandler =
            (clearDelayMsg center.mHandler).post msg := by
    cases mediaInfo with
    | none => exact .inl ⟨rfl, rfl⟩
    | some info =>
        refine .inr ⟨_, _, rfl, dispatched info, ?_⟩
        simp only [playCurrent, delayed]
        rfl
  unfold onRenderPlay launch
  split_ifs
  · exact posts MSG_START_MUSICPLAY _ _ _ (fun _ => rfl) fun _ => rfl
  · exact posts MSG_START_VIDOPLAY _ _ _ (fun _ => rfl) fun _ => rfl
  · exact posts MSG_START_PICPLAY _ _ _ (fun _ => rfl) fun _ => rfl
  · exact posts MSG_START_SCREENPLAY _ _ _ (fun _ => rfl) fun _ => rfl
  · exact .inl ⟨rfl, rfl⟩

theorem isStart_not_isStop {msg : Message} (isStart : IsStart msg) : ¬ IsStop msg := by
  intro isStop
  rw [IsStop] at isStop
  rw [IsStart, isStop] at isStart
  exact absurd isStart (by decide)

/-- A start message is pending since before, or the event is a PLAY that posts it. -/
theorem handle_pending_start {center : DMRCenter} {event : Event} {entry : ℕ × Message}
    (member : entry ∈ (center.handle parse event).1.mHandler.pending) (isStart : IsStart entry.2) :
    entry ∈ center.mHandler.pending ∨
      Plays event ∧ entry.1 = center.mHandler.next ∧
        ∃ effect, center.launch = some effect ∧ dispatchMessage entry.2 = [effect] := by
  cases event with
  | onActionInvoke cmd value data =>
      simp only [handle, onActionInvoke] at member
      by_cases transport : cmd = MEDIA_RENDER_CTL_MSG_SET_AV_URL
      · rw [if_pos transport, onRenderAvTransport_mHandler] at member
        exact .inl member
      rw [if_neg transport] at member
      by_cases play : cmd = MEDIA_RENDER_CTL_MSG_PLAY
      · subst play
        rw [if_pos rfl] at member
        rcases center.onRenderPlay_posts with ⟨_, same⟩ | ⟨effect, msg, found, sent, posted⟩
        · rw [same] at member
          exact .inl member
        · rw [posted] at member
          rcases List.mem_append.mp member with old | new
          · exact .inl ((mem_clearDelayMsg _ _).mp old).1
          · obtain rfl := List.mem_singleton.mp new
            exact .inr ⟨⟨value, data, rfl⟩, rfl, effect, found, sent⟩
      rw [if_neg play] at member
      by_cases stop : cmd = MEDIA_RENDER_CTL_MSG_STOP
      · rw [if_pos stop] at member
        unfold onRenderStop at member
        cases type : data.bind JString.integerValueOf with
        | none =>
            rw [type] at member
            exact .inl member
        | some type' =>
            rw [type] at member
            rcases List.mem_append.mp member with old | new
            · exact .inl ((mem_clearDelayMsg _ _).mp old).1
            · obtain rfl := List.mem_singleton.mp new
              exact absurd rfl (isStart_not_isStop isStart)
      · rw [if_neg stop] at member
        exact .inl member
  | onCoverInvoke data => exact .inl member
  | dispatch index => exact .inl (List.mem_of_mem_eraseIdx member)

theorem dispatchMessage_launches {msg : Message} {effect : Effect}
    (member : effect ∈ dispatchMessage msg) (launches : isLaunch effect = true) :
    IsStart msg := by
  unfold dispatchMessage at member
  dsimp only at member
  split_ifs at member with music picture video stop screen
  · exact .inl music
  · exact .inr (.inl picture)
  · exact .inr (.inr (.inl video))
  · obtain rfl := List.mem_singleton.mp member
    cases launches
  · exact .inr (.inr (.inr screen))
  · cases member

theorem dispatchMessage_length (msg : Message) : (dispatchMessage msg).length ≤ 1 := by
  unfold dispatchMessage
  cases msg.obj <;> dsimp only <;> split_ifs <;> simp

theorem onActionInvoke_launches (center : DMRCenter) (cmd : ℤ) (value data : Option JString) :
    ∀ effect ∈ (center.onActionInvoke parse cmd value data).2, isLaunch effect = false := by
  have play (mediaInfo : Option DlnaMediaModel)
      (delayToPlay : DMRCenter → DlnaMediaModel → DMRCenter) :
      ∀ effect ∈ (center.playCurrent mediaInfo delayToPlay).2, isLaunch effect = false := by
    cases mediaInfo <;> simp [playCurrent, isLaunch]
  unfold onActionInvoke
  split_ifs
  · simp
  · unfold onRenderPlay
    split_ifs
    · exact play _ _
    · exact play _ _
    · exact play _ _
    · exact play _ _
    · simp
  · unfold onRenderStop
    cases data.bind JString.integerValueOf <;> simp [isLaunch]
  · simp [isLaunch]

theorem handle_launches {center : DMRCenter} {event : Event} {effect : Effect}
    (member : effect ∈ (center.handle parse event).2) (launches : isLaunch effect = true) :
    ∃ index identity msg, event = .dispatch index ∧
      center.mHandler.pending[index]? = some (identity, msg) ∧ IsStart msg ∧
      effect ∈ dispatchMessage msg := by
  cases event with
  | onActionInvoke cmd value data =>
      rw [onActionInvoke_launches parse center cmd value data effect member] at launches
      cases launches
  | onCoverInvoke data =>
      obtain rfl := List.mem_singleton.mp member
      cases launches
  | dispatch index =>
      simp only [handle, deliver] at member
      cases found : center.mHandler.pending[index]? with
      | none =>
          rw [found] at member
          cases member
      | some entry =>
          rw [found] at member
          exact ⟨index, entry.1, entry.2, rfl, found,
            dispatchMessage_launches member launches, member⟩

theorem handle_launches_length (center : DMRCenter) (event : Event) :
    ((center.handle parse event).2.filter isLaunch).length ≤ 1 := by
  cases event with
  | onActionInvoke cmd value data =>
      have none : (center.handle parse (.onActionInvoke cmd value data)).2.filter isLaunch = [] := by
        refine List.filter_eq_nil_iff.mpr fun effect member => ?_
        rw [onActionInvoke_launches parse center cmd value data effect member]
        exact Bool.false_ne_true
      rw [none]
      exact Nat.zero_le 1
  | onCoverInvoke data => exact Nat.zero_le 1
  | dispatch index =>
      refine (List.length_filter_le _ _).trans ?_
      simp only [handle, deliver]
      cases center.mHandler.pending[index]? with
      | none => exact Nat.zero_le 1
      | some entry => exact dispatchMessage_length entry.2

section runs

variable (events : List Event)

def launchesAt (k : ℕ) : List Effect :=
  match events[k]? with
  | none => []
  | some event => ((after parse (events.take k)).handle parse event).2.filter isLaunch

def recognisedAt (k : ℕ) : Option Effect := events[k]?.bind (recognised parse)

def PlaysAt (k : ℕ) : Prop := ∃ event, events[k]? = some event ∧ Plays event

def SetsAt (k : ℕ) : Prop := ∃ event, events[k]? = some event ∧ Sets event

/-- The PLAY at a position posts the start message of an identity. -/
def PostsAt (p identity : ℕ) : Prop :=
  PlaysAt events p ∧ (after parse (events.take p)).mHandler.next = identity ∧
    ∃ msg, IsStart msg ∧ (identity, msg) ∈ (after parse (events.take (p + 1))).mHandler.pending

/-- The event at a position delivers the message of an identity. -/
def DeliversAt (k identity : ℕ) : Prop :=
  ∃ index msg, events[k]? = some (.dispatch index) ∧
    (after parse (events.take k)).mHandler.pending[index]? = some (identity, msg)

/-- The launch at `k` is that of the message which the PLAY at `p` has posted, and the
SET_AV_URL at `s` is the last one of a recognised type before the PLAY. -/
structure LeadsTo (s p k : ℕ) (effect : Effect) : Prop where
  launches : effect ∈ launchesAt parse events k
  ordered : s < p ∧ p < k
  message : ∃ identity, PostsAt parse events p identity ∧ DeliversAt parse events k identity
  media : recognisedAt parse events s = some effect
  latest : ∀ j, s < j → j < p → recognisedAt parse events j = none

structure LaunchesInOrder : Prop where
  /-- Every launch is that of the last SET_AV_URL of a recognised type before its PLAY. -/
  sourced : ∀ k, ∀ effect ∈ launchesAt parse events k, ∃ s p, LeadsTo parse events s p k effect
  single : ∀ k, (launchesAt parse events k).length ≤ 1
  /-- A SET_AV_URL leads to at most one launch. -/
  once : ∀ s p p' k k' effect effect', LeadsTo parse events s p k effect →
    LeadsTo parse events s p' k' effect' → k = k'
  /-- A PLAY without a SET_AV_URL since the PLAY before it launches nothing. -/
  resumed : ∀ q p, q < p → PlaysAt events q → PlaysAt events p →
    (∀ j, q < j → j < p → ¬ SetsAt events j) →
    launchesAt parse events p = [] ∧ ∀ identity, ¬ PostsAt parse events p identity

variable {events}

theorem take_next {k : ℕ} {event : Event} (here : events[k]? = some event) :
    events.take (k + 1) = events.take k ++ [event] := by
  rw [List.take_add_one, here]
  rfl

theorem after_next {k : ℕ} {event : Event} (here : events[k]? = some event) :
    after parse (events.take (k + 1)) = ((after parse (events.take k)).handle parse event).1 := by
  rw [take_next here, after_concat]

theorem take_end {k : ℕ} (past : events[k]? = none) :
    events.take (k + 1) = events.take k := by
  rw [List.take_add_one, past, Option.toList_none, List.append_nil]

/-- What is ready comes from the last SET_AV_URL of a recognised type, and no PLAY has used
it since. -/
theorem ready_source {effect : Effect} : ∀ {p : ℕ}, ready parse (events.take p) = some effect →
    ∃ s < p, recognisedAt parse events s = some effect ∧
      ∀ j, s < j → j < p → recognisedAt parse events j = none ∧ ¬ PlaysAt events j := by
  intro p
  induction p with
  | zero => intro found; cases found
  | succ p ih =>
      intro found
      cases here : events[p]? with
      | none =>
          rw [take_end here] at found
          obtain ⟨s, before, source, latest⟩ := ih found
          refine ⟨s, by omega, source, fun j above below => ?_⟩
          by_cases last : j = p
          · subst last
            refine ⟨by rw [recognisedAt, here]; rfl, fun ⟨event, there, _⟩ => ?_⟩
            rw [here] at there
            cases there
          · exact latest j above (by omega)
      | some event =>
          rw [take_next here, ready, List.foldl_concat, readied] at found
          cases type : recognised parse event with
          | some launch =>
              rw [type] at found
              obtain rfl := Option.some.inj found
              exact ⟨p, by omega, by rw [recognisedAt, here]; exact type,
                fun j above below => by omega⟩
          | none =>
              rw [type] at found
              dsimp only at found
              split_ifs at found with play
              obtain ⟨s, before, source, latest⟩ := ih found
              refine ⟨s, by omega, source, fun j above below => ?_⟩
              by_cases last : j = p
              · subst last
                refine ⟨by rw [recognisedAt, here]; exact type, fun ⟨other, there, plays⟩ => ?_⟩
                rw [here] at there
                obtain rfl := Option.some.inj there
                exact play ((isPlay_iff event).mpr plays)
              · exact latest j above (by omega)

theorem pending_start_posted {identity : ℕ} {msg : Message} (isStart : IsStart msg) : ∀ {k : ℕ},
    (identity, msg) ∈ (after parse (events.take k)).mHandler.pending →
    ∃ p < k, PostsAt parse events p identity ∧ ∃ effect,
      ready parse (events.take p) = some effect ∧ dispatchMessage msg = [effect] := by
  intro k
  induction k with
  | zero => intro member; cases member
  | succ k ih =>
      intro member
      cases here : events[k]? with
      | none =>
          rw [take_end here] at member
          obtain ⟨p, before, posted⟩ := ih member
          exact ⟨p, by omega, posted⟩
      | some event =>
          have now := member
          rw [after_next parse here] at member
          rcases handle_pending_start parse member isStart with
            old | ⟨plays, new, effect, found, sent⟩
          · obtain ⟨p, before, posted⟩ := ih old
            exact ⟨p, by omega, posted⟩
          · rw [launch_after] at found
            exact ⟨k, by omega, ⟨⟨event, here, plays⟩, new.symm, msg, isStart, now⟩,
              effect, found, sent⟩

theorem posted_ready {p identity : ℕ} (posts : PostsAt parse events p identity) :
    ∃ effect, ready parse (events.take p) = some effect := by
  obtain ⟨⟨event, here, plays⟩, fresh, msg, isStart, member⟩ := posts
  rw [after_next parse here] at member
  rcases handle_pending_start parse member isStart with old | ⟨_, _, effect, found, _⟩
  · have past := (after_orderly parse (events.take p)).numbered _ old
    exact absurd past (by rw [fresh]; exact lt_irrefl _)
  · rw [launch_after] at found
    exact ⟨effect, found⟩

theorem launchesAt_delivers {k : ℕ} {effect : Effect}
    (member : effect ∈ launchesAt parse events k) :
    ∃ index identity msg, events[k]? = some (.dispatch index) ∧
      (after parse (events.take k)).mHandler.pending[index]? = some (identity, msg) ∧
      IsStart msg ∧ effect ∈ dispatchMessage msg := by
  unfold launchesAt at member
  cases here : events[k]? with
  | none =>
      rw [here] at member
      cases member
  | some event =>
      rw [here] at member
      obtain ⟨sent, launches⟩ := List.mem_filter.mp member
      obtain ⟨index, identity, msg, rfl, found, isStart, dispatched⟩ :=
        handle_launches parse sent launches
      exact ⟨index, identity, msg, rfl, found, isStart, dispatched⟩

theorem launches_sourced {k : ℕ} {effect : Effect} (member : effect ∈ launchesAt parse events k) :
    ∃ s p, LeadsTo parse events s p k effect := by
  obtain ⟨index, identity, msg, here, found, isStart, dispatched⟩ :=
    launchesAt_delivers parse member
  obtain ⟨p, before, posts, effect', readied, sent⟩ :=
    pending_start_posted parse isStart (List.mem_of_getElem? found)
  rw [sent] at dispatched
  obtain rfl := List.mem_singleton.mp dispatched
  obtain ⟨s, earlier, source, latest⟩ := ready_source parse readied
  exact ⟨s, p, member, ⟨earlier, before⟩, ⟨identity, posts, index, msg, here, found⟩, source,
    fun j above below => (latest j above below).1⟩

theorem delivered_once {k k' identity : ℕ} (delivers : DeliversAt parse events k identity)
    (again : DeliversAt parse events k' identity) : k' ≤ k := by
  obtain ⟨index, msg, here, found⟩ := delivers
  obtain ⟨index', msg', _, found'⟩ := again
  by_contra later
  have orderly := after_orderly parse (events.take k)
  have past := orderly.numbered _ (List.mem_of_getElem? found)
  have gone : (after parse (events.take (k + 1))).mHandler.Gone identity := by
    rw [after_next parse here]
    refine MessageQueue.gone_of_empty (List.eq_nil_of_length_eq_zero ?_) past
    have reached := (List.getElem?_eq_some_iff.mp found).choose
    have one := orderly.atMostOne
    show ((after parse (events.take k)).mHandler.pending.eraseIdx index).length = 0
    rw [List.length_eraseIdx_of_lt reached]
    omega
  have split : events.take k' = events.take (k + 1) ++ (events.take k').drop (k + 1) := by
    conv_lhs => rw [← List.take_append_drop (k + 1) (events.take k'), List.take_take,
      Nat.min_eq_left (by omega)]
  have ages := after_ages parse (events.take (k + 1)) ((events.take k').drop (k + 1))
  rw [← split] at ages
  exact (MessageQueue.gone_of_ages ages gone).2 _ (List.mem_of_getElem? found')

theorem leadsTo_play {s p p' k k' : ℕ} {effect effect' : Effect}
    (leads : LeadsTo parse events s p k effect) (leads' : LeadsTo parse events s p' k' effect') :
    p' ≤ p := by
  by_contra later
  obtain ⟨identity, posts, _⟩ := leads'.message
  obtain ⟨found, readied⟩ := posted_ready parse posts
  obtain ⟨source, before, recognised, latest⟩ := ready_source parse readied
  have ordered := leads.ordered
  have ordered' := leads'.ordered
  obtain ⟨_, posts', _⟩ := leads.message
  rcases lt_trichotomy source s with under | same | above
  · have none := (latest s under ordered'.1).1
    rw [leads.media] at none
    cases none
  · exact (latest p (by omega) (by omega)).2 posts'.1
  · have none := leads'.latest source above before
    rw [recognised] at none
    cases none

theorem launches_once {s p p' k k' : ℕ} {effect effect' : Effect}
    (leads : LeadsTo parse events s p k effect) (leads' : LeadsTo parse events s p' k' effect') :
    k = k' := by
  obtain rfl : p = p' :=
    le_antisymm (leadsTo_play parse leads' leads) (leadsTo_play parse leads leads')
  obtain ⟨identity, posts, delivers⟩ := leads.message
  obtain ⟨identity', posts', delivers'⟩ := leads'.message
  obtain rfl : identity = identity' := posts.2.1.symm.trans posts'.2.1
  exact le_antisymm (delivered_once parse delivers' delivers)
    (delivered_once parse delivers delivers')

theorem resumed_posts {q p : ℕ} (before : q < p) (plays : PlaysAt events q)
    (silent : ∀ j, q < j → j < p → ¬ SetsAt events j) (identity : ℕ) :
    ¬ PostsAt parse events p identity := by
  intro posts
  obtain ⟨effect, readied⟩ := posted_ready parse posts
  obtain ⟨s, earlier, source, latest⟩ := ready_source parse readied
  obtain ⟨event, here, found⟩ := Option.bind_eq_some_iff.mp source
  have sets := recognised_sets parse found
  rcases lt_trichotomy s q with under | same | above
  · exact (latest q under before).2 plays
  · subst same
    obtain ⟨other, there, value, data, rfl⟩ := plays
    obtain rfl := Option.some.inj (here.symm.trans there)
    obtain ⟨_, _, clash⟩ := sets
    exact absurd (Event.onActionInvoke.inj clash).1 (by decide)
  · exact silent s above earlier ⟨event, here, sets⟩

theorem launchesAt_play {p : ℕ} (plays : PlaysAt events p) : launchesAt parse events p = [] := by
  refine List.eq_nil_iff_forall_not_mem.mpr fun effect member => ?_
  obtain ⟨index, identity, msg, here, _⟩ := launchesAt_delivers parse member
  obtain ⟨event, there, value, data, rfl⟩ := plays
  rw [here] at there
  cases there

theorem launchesAt_length (k : ℕ) : (launchesAt parse events k).length ≤ 1 := by
  unfold launchesAt
  cases events[k]? with
  | none => exact Nat.zero_le 1
  | some event => exact handle_launches_length parse _ event

/-- In every run the launches are those that the SET_AV_URLs and the PLAYs ask for. -/
theorem launches_inOrder (events : List Event) : LaunchesInOrder parse events where
  sourced _ _ member := launches_sourced parse member
  single := launchesAt_length parse
  once _ _ _ _ _ _ _ leads leads' := launches_once parse leads leads'
  resumed _ _ before playsBefore plays silent :=
    ⟨launchesAt_play parse plays, resumed_posts parse before playsBefore silent⟩

end runs

end launches

end DMRCenter

end AirCast.Center
