import AirCast.Center.JString

/-! # Media models from metadata

`DlnaMediaModel`, `DlnaMediaModelFactory.createFromMetaData` and the class tests
of `DlnaUtils`.  The XML parser is the platform's, so it is the parameter
`parse`: it answers the root element of a document, or `none` where
`DocumentBuilder.parse` throws. -/

set_option autoImplicit false

namespace AirCast.Center

structure DlnaMediaModel where
  uri : JString
  title : JString
  artist : JString
  album : JString
  albumiconuri : JString
  objectclass : JString
  deriving DecidableEq

namespace DlnaMediaModel

def empty : DlnaMediaModel := ⟨[], [], [], [], [], []⟩

def orEmpty (text : Option JString) : JString := text.getD []

def setUrl (info : DlnaMediaModel) (url : JString) : DlnaMediaModel := { info with uri := url }

end DlnaMediaModel

/-- A node of a DOM tree.  `content` is a node with a value: text, a CDATA section, a comment
or a processing instruction. -/
inductive Node where
  | element (tagName : JString) (childNodes : List Node)
  | content (nodeValue : JString)

namespace Node

def getChildNodes : Node → List Node
  | element _ childNodes => childNodes
  | content _ => []

def getNodeValue : Node → Option JString
  | element _ _ => none
  | content nodeValue => some nodeValue

mutual

def getElementsByTagName (tag : JString) : Node → List Node
  | content _ => []
  | element tagName childNodes =>
      (if tagName = tag then [element tagName childNodes] else []) ++
        elementsAmong tag childNodes

def elementsAmong (tag : JString) : List Node → List Node
  | [] => []
  | node :: rest => getElementsByTagName tag node ++ elementsAmong tag rest

end

end Node

def getElementValue (doc : Node) (element : JString) : Option JString :=
  match (doc.getElementsByTagName element).find? fun container =>
      !container.getChildNodes.isEmpty with
  | some container => (container.getChildNodes.head?).bind Node.getNodeValue
  | none => some []

def fixAmpersands (metadata : JString) : JString :=
  if metadata.contains "&".toList ∧ ¬ metadata.contains "&amp;".toList then
    metadata.replaceChar '&' "&amp;".toList
  else metadata

def createFromMetaData (parse : Bytes → Option Node) (metadata : JString) : DlnaMediaModel :=
  match parse (fixAmpersands metadata).getBytes with
  | none => DlnaMediaModel.empty
  | some doc =>
      let value (element : String) :=
        DlnaMediaModel.orEmpty (getElementValue doc element.toList)
      { uri := []
        objectclass := value "upnp:class"
        title := value "dc:title"
        album := value "upnp:album"
        artist := value "upnp:artist"
        albumiconuri := value "upnp:albumArtURI" }

def isItemOf (objectClass : String) (item : DlnaMediaModel) : Bool :=
  JString.contains item.objectclass objectClass.toList

def isAudioItem : DlnaMediaModel → Bool := isItemOf "object.item.audioItem"

def isVideoItem : DlnaMediaModel → Bool := isItemOf "object.item.videoItem"

def isImageItem : DlnaMediaModel → Bool := isItemOf "object.item.imageItem"

def isScreenItem : DlnaMediaModel → Bool := isItemOf "object.item.screenItem"

end AirCast.Center
