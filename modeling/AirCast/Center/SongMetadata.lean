import AirCast.Audio.DmapDecoder
import AirCast.Center.DidlDocument

/-! # Song metadata from DMAP to the media model

`audio_metadata` of `jnimain.cpp` writes title, album and artist as they are into a
DIDL-Lite document, and `createFromMetaData` escapes the ampersands of the whole
document unless it finds `&amp;` in it.  What comes back depends on the characters. -/

set_option autoImplicit false

namespace AirCast.Center

open AirCast.Audio

def didlElement (metadata : TagMap) (tag openTag closeTag : String) : Bytes :=
  let value := (metadata (bytesOf tag)).getD []
  if value.length ≠ 0 then
    bytesOf openTag ++ ((CString.ofBytes value).chars ++ bytesOf closeTag)
  else []

def audioMetadata (metadata : TagMap) : Bytes :=
  bytesOf DIDL_OPEN ++
    (didlElement metadata "asal" "<upnp:album>" "</upnp:album>\r\n" ++
      (didlElement metadata "minm" "<dc:title>" "</dc:title>\r\n" ++
        (didlElement metadata "asar" "<upnp:artist>" "</upnp:artist>\r\n" ++
          bytesOf DIDL_CLOSE)))

/-- The model of the receiver; `NewStringUTF` makes the Java string. -/
def receivedModel (parse : Bytes → Option Node) (metadata : TagMap) : DlnaMediaModel :=
  createFromMetaData parse (JString.ofBytes (CString.ofBytes (audioMetadata metadata)).chars)

structure Song where
  title : JString
  album : JString
  artist : JString
  nonempty : ∀ text ∈ [title, album, artist], text ≠ []
  nulFree : ∀ text ∈ [title, album, artist], '\x00' ∉ text

/-- The items hold the song, each tag last with its text. -/
structure Carries (items : List DmapItem) (song : Song) : Prop where
  title : lastContent items (bytesOf "minm") = some song.title.getBytes
  album : lastContent items (bytesOf "asal") = some song.album.getBytes
  artist : lastContent items (bytesOf "asar") = some song.artist.getBytes

/-- The buffer is decoded and the receiver gets the song. -/
def Returns (parse : Bytes → Option Node) (buffer : Bytes) (song : Song) : Prop :=
  ∃ metadata, (decodeDMAP buffer buffer.length).Ends () metadata () ∧
    (receivedModel parse metadata).title = song.title ∧
    (receivedModel parse metadata).album = song.album ∧
    (receivedModel parse metadata).artist = song.artist

/-- A text that comes through the document. -/
structure IsPlain (text : JString) : Prop where
  noMarkup : '<' ∉ text
  noEscape : ¬ ['&', 'a', 'm', 'p', ';'] <:+: text
  noReturn : '\r' ∉ text
  noSectionEnd : ¬ [']', ']', '>'] <:+: text
  xmlChars : text.all isXmlChar = true

section document

variable {metadata : TagMap} {album title artist : JString}

theorem bytesOf_append (text other : String) :
    bytesOf (text ++ other) = bytesOf text ++ bytesOf other := by
  rw [bytesOf, String.toList_append, List.map_append]
  rfl

theorem didlElement_of {tag first last : String} {text : JString}
    (found : metadata (bytesOf tag) = some text.getBytes) (nonempty : text ≠ [])
    (nulFree : '\x00' ∉ text) :
    didlElement metadata tag first last =
      bytesOf first ++ (text.getBytes ++ bytesOf last) := by
  have filled : text.getBytes.length ≠ 0 :=
    fun empty => JString.getBytes_ne_nil nonempty (List.eq_nil_of_length_eq_zero empty)
  rw [didlElement, found, Option.getD_some, if_pos filled,
    CString.ofBytes_chars (JString.nulFree_getBytes nulFree)]

def isAscii (text : String) : Bool := text.toList.all fun c => c.toNat < 128 && c ≠ '\x00'

theorem bytesOf_markup {text : String} (ascii : isAscii text = true) :
    bytesOf text = JString.getBytes text.toList := by
  refine JString.bytesOf_ascii (List.all_eq_true.mpr fun c member => ?_)
  exact (Bool.and_eq_true_iff.mp (List.all_eq_true.mp ascii c member)).1

theorem markup_nulFree {text : String} (ascii : isAscii text = true) :
    '\x00' ∉ text.toList := by
  intro member
  have other := (Bool.and_eq_true_iff.mp (List.all_eq_true.mp ascii _ member)).2
  simp at other

set_option maxRecDepth 8000 in
theorem isAscii_front : isAscii (DIDL_OPEN ++ "<upnp:album>") = true := by
  rw [isAscii, ← didl_front]
  decide

theorem isAscii_beforeTitle : isAscii "</upnp:album>\r\n<dc:title>" = true := by decide

theorem isAscii_beforeArtist : isAscii "</dc:title>\r\n<upnp:artist>" = true := by decide

set_option maxRecDepth 8000 in
theorem isAscii_back : isAscii ("</upnp:artist>\r\n" ++ DIDL_CLOSE) = true := by
  rw [isAscii, ← didl_back]
  decide

theorem receivedModel_song {parse : Bytes → Option Node} (song : Song)
    (albumFound : metadata (bytesOf "asal") = some song.album.getBytes)
    (titleFound : metadata (bytesOf "minm") = some song.title.getBytes)
    (artistFound : metadata (bytesOf "asar") = some song.artist.getBytes) :
    receivedModel parse metadata =
      createFromMetaData parse (didlText song.album song.title song.artist) := by
  have beforeTitle : "</upnp:album>\r\n<dc:title>" = "</upnp:album>\r\n" ++ "<dc:title>" := by
    decide
  have beforeArtist : "</dc:title>\r\n<upnp:artist>" = "</dc:title>\r\n" ++ "<upnp:artist>" := by
    decide
  have written : audioMetadata metadata =
      JString.getBytes (didlText song.album song.title song.artist) := by
    rw [audioMetadata, didlElement_of albumFound (song.nonempty _ (by simp)) (song.nulFree _ (by simp)),
      didlElement_of titleFound (song.nonempty _ (by simp)) (song.nulFree _ (by simp)),
      didlElement_of artistFound (song.nonempty _ (by simp)) (song.nulFree _ (by simp))]
    simp only [didlText, JString.getBytes_append]
    rw [← bytesOf_markup isAscii_front, ← bytesOf_markup isAscii_beforeTitle,
      ← bytesOf_markup isAscii_beforeArtist, ← bytesOf_markup isAscii_back, beforeTitle,
      beforeArtist]
    simp only [bytesOf_append, List.append_assoc]
  have nulFree : '\x00' ∉ didlText song.album song.title song.artist := by
    simp only [didlText, List.mem_append, not_or]
    exact ⟨markup_nulFree isAscii_front, song.nulFree _ (by simp),
      markup_nulFree isAscii_beforeTitle, song.nulFree _ (by simp),
      markup_nulFree isAscii_beforeArtist, song.nulFree _ (by simp), markup_nulFree isAscii_back⟩
  rw [receivedModel, written, CString.ofBytes_chars (JString.nulFree_getBytes nulFree),
    JString.ofBytes_getBytes]

end document

section model

variable {parse : Bytes → Option Node} {album title artist : JString}

theorem createFromMetaData_iff (conforms : Conforms parse) {document : JString}
    (fixed : fixAmpersands document = didlText album title artist)
    (albumPlain : '<' ∉ album) (titlePlain : '<' ∉ title) (artistPlain : '<' ∉ artist)
    (albumSet : album ≠ []) (titleSet : title ≠ []) (artistSet : artist ≠ []) (song : Song) :
    ((createFromMetaData parse document).title = song.title ∧
      (createFromMetaData parse document).album = song.album ∧
      (createFromMetaData parse document).artist = song.artist) ↔
      charData title = some song.title ∧ charData album = some song.album ∧
        charData artist = some song.artist := by
  have parsed := conforms (didl album title artist)
    (didl_wellFormed albumPlain titlePlain artistPlain)
  have titleNonempty := song.nonempty song.title (by simp)
  rw [didl_write, ← fixed, didl_node albumSet titleSet artistSet] at parsed
  rw [createFromMetaData, parsed]
  cases charData album with
  | none => simp [DlnaMediaModel.empty, titleNonempty]
  | some a =>
      cases charData title with
      | none => simp [DlnaMediaModel.empty, titleNonempty]
      | some t =>
          cases charData artist with
          | none => simp [DlnaMediaModel.empty, titleNonempty]
          | some r =>
              obtain ⟨titleValue, albumValue, artistValue⟩ := songTree_values a t r
              simp only [Option.bind_some, Option.map_some, titleValue, albumValue, artistValue,
                DlnaMediaModel.orEmpty, Option.getD_some, Option.some.injEq]

end model

section songs

variable {parse : Bytes → Option Node}

theorem escaped_ne_nil {text : JString} (nonempty : text ≠ []) : escaped text ≠ [] := by
  obtain ⟨c, rest, rfl⟩ := List.exists_cons_of_ne_nil nonempty
  by_cases amp : c = '&'
  · subst amp
    simp [escaped_amp]
  · simp [escaped_cons amp]

theorem notMem_escaped {text : JString} (plain : '<' ∉ text) : '<' ∉ escaped text := by
  intro member
  obtain ⟨c, inside, written⟩ := List.mem_flatMap.mp member
  split_ifs at written
  · exact absurd written (by decide)
  · exact plain (List.mem_singleton.mp written ▸ inside)

/-- A song without `<` comes back exactly if its texts are plain. -/
theorem received_iff (conforms : Conforms parse) (song : Song)
    (noMarkup : ∀ text ∈ [song.title, song.album, song.artist], '<' ∉ text) :
    let model := createFromMetaData parse (didlText song.album song.title song.artist)
    (model.title = song.title ∧ model.album = song.album ∧ model.artist = song.artist) ↔
      ∀ text ∈ [song.title, song.album, song.artist], IsPlain text := by
  have nonempty := song.nonempty
  simp only [List.forall_mem_cons, List.not_mem_nil, false_imp_iff, implies_true, and_true]
    at nonempty noMarkup ⊢
  obtain ⟨titleSet, albumSet, artistSet⟩ := nonempty
  obtain ⟨titlePlain, albumPlain, artistPlain⟩ := noMarkup
  by_cases escape : ['&', 'a', 'm', 'p', ';'] <:+: didlText song.album song.title song.artist
  · rw [createFromMetaData_iff conforms (fixAmpersands_escape escape) albumPlain titlePlain
      artistPlain albumSet titleSet artistSet]
    have amp := amp_mem_didlText.mp (escape.subset List.mem_cons_self)
    constructor
    · rintro ⟨title, album, artist⟩
      rcases amp with inAlbum | inTitle | inArtist
      · exact absurd album (charData_ne inAlbum)
      · exact absurd title (charData_ne inTitle)
      · exact absurd artist (charData_ne inArtist)
    · rintro ⟨title, album, artist⟩
      rcases escape_infix_didlText.mp escape with inAlbum | inTitle | inArtist
      · exact absurd inAlbum album.noEscape
      · exact absurd inTitle title.noEscape
      · exact absurd inArtist artist.noEscape
  · have fixed := fixAmpersands_bare escape
    rw [escaped_didlText] at fixed
    rw [createFromMetaData_iff conforms fixed (notMem_escaped albumPlain)
      (notMem_escaped titlePlain) (notMem_escaped artistPlain) (escaped_ne_nil albumSet)
      (escaped_ne_nil titleSet) (escaped_ne_nil artistSet), charData_escaped_iff,
      charData_escaped_iff, charData_escaped_iff]
    rw [escape_infix_didlText] at escape
    simp only [not_or] at escape
    obtain ⟨albumBare, titleBare, artistBare⟩ := escape
    constructor
    · rintro ⟨⟨titleReturn, titleEnd, titleChars⟩, ⟨albumReturn, albumEnd, albumChars⟩,
        artistReturn, artistEnd, artistChars⟩
      exact ⟨⟨titlePlain, titleBare, titleReturn, titleEnd, titleChars⟩,
        ⟨albumPlain, albumBare, albumReturn, albumEnd, albumChars⟩,
        artistPlain, artistBare, artistReturn, artistEnd, artistChars⟩
    · rintro ⟨title, album, artist⟩
      exact ⟨⟨title.noReturn, title.noSectionEnd, title.xmlChars⟩,
        ⟨album.noReturn, album.noSectionEnd, album.xmlChars⟩,
        artist.noReturn, artist.noSectionEnd, artist.xmlChars⟩

theorem returns_iff (song received : Song) {header : Bytes} (eight : header.length = 8)
    {items : List DmapItem} (carries : Carries items song)
    (delivered : (header ++ DmapItem.encodeAll items).length < 2 ^ 31) :
    Returns parse (header ++ DmapItem.encodeAll items) received ↔
      let model := createFromMetaData parse (didlText song.album song.title song.artist)
      model.title = received.title ∧ model.album = received.album ∧
        model.artist = received.artist := by
  have decoded : (decodeDMAP (header ++ DmapItem.encodeAll items)
      (header ++ DmapItem.encodeAll items).length).Ends () (lastContent items) () := by
    refine (ends_decodeDMAP (delivered.trans (by norm_num))).mpr
      ⟨items, ?_, (foldl_store items).symm⟩
    rw [← eight, List.drop_left]
  have document := @receivedModel_song (lastContent items) parse song carries.album carries.title
    carries.artist
  rw [← document]
  constructor
  · rintro ⟨metadata, ends, kept⟩
    rwa [(ends.unique decoded).1] at kept
  · exact fun kept => ⟨lastContent items, decoded, kept⟩

/-- Plain texts come back from their items; where no text has `<`, no others do. -/
theorem songMetadata_returns (conforms : Conforms parse) (song : Song) {header : Bytes}
    (eight : header.length = 8) {items : List DmapItem} (carries : Carries items song)
    (delivered : (header ++ DmapItem.encodeAll items).length < 2 ^ 31) :
    ((∀ text ∈ [song.title, song.album, song.artist], IsPlain text) →
        Returns parse (header ++ DmapItem.encodeAll items) song) ∧
      ((∀ text ∈ [song.title, song.album, song.artist], '<' ∉ text) →
        Returns parse (header ++ DmapItem.encodeAll items) song →
          ∀ text ∈ [song.title, song.album, song.artist], IsPlain text) := by
  have document := @returns_iff parse song song header eight items carries delivered
  constructor
  · intro plain
    have noMarkup := fun text member => (plain text member).noMarkup
    exact document.mpr ((received_iff conforms song noMarkup).mpr plain)
  · intro noMarkup returned
    exact (received_iff conforms song noMarkup).mp (document.mp returned)

def songItems (song : Song) : List DmapItem :=
  [⟨bytesOf "minm", by decide, song.title.getBytes⟩,
    ⟨bytesOf "asar", by decide, song.artist.getBytes⟩,
    ⟨bytesOf "asal", by decide, song.album.getBytes⟩]

theorem songItems_carries (song : Song) : Carries (songItems song) song := by
  constructor <;> rfl

def drumAndBass : Song :=
  ⟨"Drum & Bass".toList, "Vol. 1".toList, "Various".toList, by decide, by decide⟩

theorem drumAndBass_returns :
    Returns (fun bytes => readDocument (JString.ofBytes bytes))
      (List.replicate 8 0 ++ DmapItem.encodeAll (songItems drumAndBass)) drumAndBass := by
  refine (songMetadata_returns readDocument_conforms drumAndBass rfl
    (songItems_carries drumAndBass) (by decide)).1 fun text member => ?_
  simp only [List.mem_cons, List.not_mem_nil, or_false] at member
  rcases member with rfl | rfl | rfl <;>
    exact ⟨by decide, by decide, by decide, by decide, by decide⟩

def escapedTitle : Song :=
  ⟨"R&amp;B".toList, "Vol. 1".toList, "Various".toList, by decide, by decide⟩

def unescapedTitle : Song :=
  ⟨"R&B".toList, "Vol. 1".toList, "Various".toList, by decide, by decide⟩

/-- A title that is an escape itself comes back without it. -/
theorem escapedTitle_lost :
    Carries (songItems escapedTitle) escapedTitle ∧
      Returns (fun bytes => readDocument (JString.ofBytes bytes))
        (List.replicate 8 0 ++ DmapItem.encodeAll (songItems escapedTitle)) unescapedTitle ∧
      ¬ Returns (fun bytes => readDocument (JString.ofBytes bytes))
        (List.replicate 8 0 ++ DmapItem.encodeAll (songItems escapedTitle)) escapedTitle := by
  have carries := songItems_carries escapedTitle
  have kept : fixAmpersands (didlText escapedTitle.album escapedTitle.title escapedTitle.artist) =
      didlText escapedTitle.album escapedTitle.title escapedTitle.artist :=
    fixAmpersands_escape (escape_infix_didlText.mpr (.inr (.inl (by decide))))
  have model := createFromMetaData_iff readDocument_conforms kept (by decide) (by decide)
    (by decide) (by decide) (by decide) (by decide)
  refine ⟨carries, ?_, fun returned => ?_⟩
  · exact (returns_iff escapedTitle unescapedTitle rfl carries (by decide)).mpr
      ((model unescapedTitle).mpr ⟨by decide, by decide, by decide⟩)
  · have same := (returns_iff escapedTitle escapedTitle rfl carries (by decide)).mp returned
    exact absurd ((model escapedTitle).mp same).1 (by decide)

end songs

end AirCast.Center
