import AirCast.Center.DlnaMediaModel
import AirCast.Lib.MessageQueue
import AirCast.Lib.Transducer

/-! # The renderer's command centre

`DMRCenter`: each command of the native side updates the media infos, posts
start and stop messages to the handler and sends broadcasts.  The handler may
deliver any pending message between two commands. -/

set_option autoImplicit false

namespace AirCast.Center

def CUR_MEDIA_TYPE_MUSCI : ℤ := 1
def CUR_MEDIA_TYPE_VIDEO : ℤ := 0
def CUR_MEDIA_TYPE_PICTURE : ℤ := 2
def CUR_MEDIA_TYPE_SCREEN : ℤ := 3

def MSG_START_MUSICPLAY : ℕ := 1
def MSG_START_PICPLAY : ℕ := 2
def MSG_START_VIDOPLAY : ℕ := 3
def MSG_SEND_STOPCMD : ℕ := 4
def MSG_START_SCREENPLAY : ℕ := 5

def MEDIA_RENDER_CTL_MSG_SET_AV_URL : ℤ := 0x100
def MEDIA_RENDER_CTL_MSG_STOP : ℤ := 0x101
def MEDIA_RENDER_CTL_MSG_PLAY : ℤ := 0x102

/-- What `Message.obj` refers to. -/
inductive MessageObject where
  | model (info : DlnaMediaModel)
  | integer (value : ℤ)

structure Message where
  what : ℕ
  arg1 : ℤ
  obj : MessageObject

/-- `Handler.obtainMessage(int, Object)`: the integer arguments are zero. -/
def obtainMessage (what : ℕ) (obj : MessageObject) : Message := ⟨what, 0, obj⟩

/-- What the receiver sends to the players. -/
inductive Effect where
  | sendPlayBrocast
  | sendStopBorocast (type : ℤ)
  | startPlayMusic (mediaInfo : DlnaMediaModel)
  | startPlayPicture (mediaInfo : DlnaMediaModel)
  | startPlayVideo (mediaInfo : DlnaMediaModel)
  | startPlayScreen (mediaInfo : DlnaMediaModel)
  | audioUninit
  | otherCommand (cmd : ℤ) (value data : Option JString)
  | sendCoverBrocast (data : Option Bytes)

/-- `dispatchMessage`; the cast of an object of the wrong class throws, and is caught. -/
def dispatchMessage (msg : Message) : List Effect :=
  let start (startPlay : DlnaMediaModel → Effect) : List Effect :=
    match msg.obj with
    | .model mediaInfo => [startPlay mediaInfo]
    | .integer _ => []
  if msg.what = MSG_START_MUSICPLAY then start .startPlayMusic
  else if msg.what = MSG_START_PICPLAY then start .startPlayPicture
  else if msg.what = MSG_START_VIDOPLAY then start .startPlayVideo
  else if msg.what = MSG_SEND_STOPCMD then [.sendStopBorocast msg.arg1]
  else if msg.what = MSG_START_SCREENPLAY then start .startPlayScreen
  else []

structure DMRCenter where
  mHandler : MessageQueue Message
  mMusicMediaInfo : Option DlnaMediaModel
  mVideoMediaInfo : Option DlnaMediaModel
  mImageMediaInfo : Option DlnaMediaModel
  mScreenMediaInfo : Option DlnaMediaModel
  mCurMediaInfoType : ℤ

namespace DMRCenter

def start : DMRCenter := ⟨.empty, none, none, none, none, -1⟩

def clearState (center : DMRCenter) : DMRCenter :=
  { center with
    mMusicMediaInfo := none
    mVideoMediaInfo := none
    mImageMediaInfo := none
    mScreenMediaInfo := none }

def clearDelayMsgOf (num : ℕ) (handler : MessageQueue Message) : MessageQueue Message :=
  handler.remove fun msg => decide (msg.what = num)

def clearDelayMsg (handler : MessageQueue Message) : MessageQueue Message :=
  clearDelayMsgOf MSG_START_SCREENPLAY
    (clearDelayMsgOf MSG_SEND_STOPCMD
      (clearDelayMsgOf MSG_START_VIDOPLAY
        (clearDelayMsgOf MSG_START_PICPLAY
          (clearDelayMsgOf MSG_START_MUSICPLAY handler))))

def delayTo (center : DMRCenter) (msg : Message) : DMRCenter :=
  { center with mHandler := (clearDelayMsg center.mHandler).post msg }

def delayToPlayMusic (center : DMRCenter) (mediaInfo : DlnaMediaModel) : DMRCenter :=
  center.delayTo (obtainMessage MSG_START_MUSICPLAY (.model mediaInfo))

def delayToPlayVideo (center : DMRCenter) (mediaInfo : DlnaMediaModel) : DMRCenter :=
  center.delayTo (obtainMessage MSG_START_VIDOPLAY (.model mediaInfo))

def delayToPlayImage (center : DMRCenter) (mediaInfo : DlnaMediaModel) : DMRCenter :=
  center.delayTo (obtainMessage MSG_START_PICPLAY (.model mediaInfo))

def delayToPlayScreen (center : DMRCenter) (mediaInfo : DlnaMediaModel) : DMRCenter :=
  center.delayTo (obtainMessage MSG_START_SCREENPLAY (.model mediaInfo))

def delayToStop (center : DMRCenter) (type : ℤ) : DMRCenter :=
  center.delayTo (obtainMessage MSG_SEND_STOPCMD (.integer type))

section commands

variable (parse : Bytes → Option Node)

def onRenderAvTransport (center : DMRCenter) (value data : Option JString) : DMRCenter :=
  match data, value with
  | none, _ => center
  | some _, none => center
  | some metadata, some url =>
      if JString.length url < 2 then center
      else
        let mediaInfo := (createFromMetaData parse metadata).setUrl url
        if isAudioItem mediaInfo then
          { center with
            mMusicMediaInfo := some mediaInfo
            mCurMediaInfoType := CUR_MEDIA_TYPE_MUSCI }
        else if isVideoItem mediaInfo then
          { center with
            mVideoMediaInfo := some mediaInfo
            mCurMediaInfoType := CUR_MEDIA_TYPE_VIDEO }
        else if isImageItem mediaInfo then
          { center with
            mImageMediaInfo := some mediaInfo
            mCurMediaInfoType := CUR_MEDIA_TYPE_PICTURE }
        else if isScreenItem mediaInfo then
          { center with
            mScreenMediaInfo := some mediaInfo
            mCurMediaInfoType := CUR_MEDIA_TYPE_SCREEN }
        else center

/-- One case of `onRenderPlay`. -/
def playCurrent (center : DMRCenter) (mediaInfo : Option DlnaMediaModel)
    (delayToPlay : DMRCenter → DlnaMediaModel → DMRCenter) : DMRCenter × List Effect :=
  match mediaInfo with
  | some info => ((delayToPlay center info).clearState, [])
  | none => (center.clearState, [.sendPlayBrocast])

def onRenderPlay (center : DMRCenter) : DMRCenter × List Effect :=
  if center.mCurMediaInfoType = CUR_MEDIA_TYPE_MUSCI then
    center.playCurrent center.mMusicMediaInfo delayToPlayMusic
  else if center.mCurMediaInfoType = CUR_MEDIA_TYPE_VIDEO then
    center.playCurrent center.mVideoMediaInfo delayToPlayVideo
  else if center.mCurMediaInfoType = CUR_MEDIA_TYPE_PICTURE then
    center.playCurrent center.mImageMediaInfo delayToPlayImage
  else if center.mCurMediaInfoType = CUR_MEDIA_TYPE_SCREEN then
    center.playCurrent center.mScreenMediaInfo delayToPlayScreen
  else (center, [])

/-- `Integer.valueOf(data)` comes first, so data that is no number changes nothing. -/
def onRenderStop (center : DMRCenter) (data : Option JString) : DMRCenter × List Effect :=
  match data.bind JString.integerValueOf with
  | none => (center, [])
  | some type => (center.delayToStop type, [.sendStopBorocast type, .audioUninit])

/-- A call of the native side, or a delivery of one pending message by the looper. -/
inductive Event where
  | onActionInvoke (cmd : ℤ) (value data : Option JString)
  | onCoverInvoke (data : Option Bytes)
  | dispatch (index : ℕ)

/-- The commands without a case of their own here leave the state as it is. -/
def onActionInvoke (center : DMRCenter) (cmd : ℤ) (value data : Option JString) :
    DMRCenter × List Effect :=
  if cmd = MEDIA_RENDER_CTL_MSG_SET_AV_URL then
    (center.onRenderAvTransport parse value data, [])
  else if cmd = MEDIA_RENDER_CTL_MSG_PLAY then center.onRenderPlay
  else if cmd = MEDIA_RENDER_CTL_MSG_STOP then center.onRenderStop data
  else (center, [.otherCommand cmd value data])

def deliver (center : DMRCenter) (index : ℕ) : DMRCenter × List Effect :=
  ({ center with mHandler := center.mHandler.take index },
    match center.mHandler.pending[index]? with
    | none => []
    | some entry => dispatchMessage entry.2)

def handle (center : DMRCenter) : Event → DMRCenter × List Effect
  | .onActionInvoke cmd value data => center.onActionInvoke parse cmd value data
  | .onCoverInvoke data => (center, [.sendCoverBrocast data])
  | .dispatch index => center.deliver index

def machine : Transducer DMRCenter Event (List Effect) := ⟨fun center => center.handle parse⟩

end commands

end DMRCenter

end AirCast.Center
