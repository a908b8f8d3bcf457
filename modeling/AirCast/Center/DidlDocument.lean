import AirCast.Center.XmlEscapes

/-! # The DIDL-Lite document of a song

The document that the native side writes around album, title and artist, as an XML
element and as its characters. -/

set_option autoImplicit false

namespace AirCast.Center

def DIDL_OPEN : String :=
  "<DIDL-Lite xmlns=\"urn:schemas-upnp-org:metadata-1-0/DIDL-Lite/\" " ++
  "xmlns:dc=\"http://purl.org/dc/elements/1.1/\" " ++
  "xmlns:upnp=\"urn:schemas-upnp-org:metadata-1-0/upnp/\" " ++
  "xmlns:dlna=\"urn:schemas-dlna-org:metadata-1-0/\" xmlns:sec=\"http://www.sec.co.kr/dlna\">\r\n" ++
  "<item id=\"7\" parentID=\"2\" restricted=\"1\">\r\n"

def DIDL_CLOSE : String :=
  "<upnp:class>object.item.audioItem.musicTrack</upnp:class>\r\n</item>\r\n</DIDL-Lite>"

def NEWLINE : JString := ['\r', '\n']

def DIDL_LITE : JString := "DIDL-Lite".toList
def ITEM : JString := "item".toList
def ALBUM : JString := "upnp:album".toList
def TITLE : JString := "dc:title".toList
def ARTIST : JString := "upnp:artist".toList
def CLASS : JString := "upnp:class".toList
def MUSIC_TRACK : JString := "object.item.audioItem.musicTrack".toList

def DIDL_ATTRIBUTES : List (JString × JString) :=
  [("xmlns".toList, "urn:schemas-upnp-org:metadata-1-0/DIDL-Lite/".toList),
    ("xmlns:dc".toList, "http://purl.org/dc/elements/1.1/".toList),
    ("xmlns:upnp".toList, "urn:schemas-upnp-org:metadata-1-0/upnp/".toList),
    ("xmlns:dlna".toList, "urn:schemas-dlna-org:metadata-1-0/".toList),
    ("xmlns:sec".toList, "http://www.sec.co.kr/dlna".toList)]

def ITEM_ATTRIBUTES : List (JString × JString) :=
  [("id".toList, "7".toList), ("parentID".toList, "2".toList),
    ("restricted".toList, "1".toList)]

/-- The document with its three texts as they are written. -/
def didl (album title artist : JString) : XmlElement :=
  .element DIDL_LITE DIDL_ATTRIBUTES (.child NEWLINE
    (.element ITEM ITEM_ATTRIBUTES
      (.child NEWLINE (.element ALBUM [] (.text album))
      (.child NEWLINE (.element TITLE [] (.text title))
      (.child NEWLINE (.element ARTIST [] (.text artist))
      (.child NEWLINE (.element CLASS [] (.text MUSIC_TRACK)) (.text NEWLINE))))))
    (.text NEWLINE))

def didlText (album title artist : JString) : JString :=
  (DIDL_OPEN ++ "<upnp:album>").toList ++ (album ++ ("</upnp:album>\r\n<dc:title>".toList ++
    (title ++ ("</dc:title>\r\n<upnp:artist>".toList ++ (artist ++
      ("</upnp:artist>\r\n" ++ DIDL_CLOSE).toList)))))

section document

def openTag (tagName : JString) : JString := '<' :: (tagName ++ ['>'])

def closeTag (tagName : JString) : JString := '<' :: '/' :: (tagName ++ ['>'])

theorem didl_open_toList : (DIDL_OPEN ++ "<upnp:album>").toList =
    ["<DIDL-Lite xmlns=\"urn:schemas-upnp-org:metadata-1-0/DIDL-Lite/\" ".toList,
      "xmlns:dc=\"http://purl.org/dc/elements/1.1/\" ".toList,
      "xmlns:upnp=\"urn:schemas-upnp-org:metadata-1-0/upnp/\" ".toList,
      "xmlns:dlna=\"urn:schemas-dlna-org:metadata-1-0/\" xmlns:sec=\"http://www.sec.co.kr/dlna\">\r\n".toList,
      "<item id=\"7\" parentID=\"2\" restricted=\"1\">\r\n".toList,
      "<upnp:album>".toList].flatten := by
  have parts (s1 s2 s3 s4 s5 s6 : String) : (s1 ++ s2 ++ s3 ++ s4 ++ s5 ++ s6).toList =
      [s1.toList, s2.toList, s3.toList, s4.toList, s5.toList, s6.toList].flatten := by
    simp
  exact parts _ _ _ _ _ _

set_option maxRecDepth 20000 in
theorem didl_front :
    '<' :: (DIDL_LITE ++ (DIDL_ATTRIBUTES.flatMap writeAttribute ++ '>' :: (NEWLINE ++
      '<' :: (ITEM ++ (ITEM_ATTRIBUTES.flatMap writeAttribute ++ '>' :: (NEWLINE ++
        openTag ALBUM)))))) = (DIDL_OPEN ++ "<upnp:album>").toList := by
  rw [didl_open_toList]
  decide

theorem didl_beforeTitle : closeTag ALBUM ++ (NEWLINE ++ openTag TITLE) =
    "</upnp:album>\r\n<dc:title>".toList := by
  decide

theorem didl_beforeArtist : closeTag TITLE ++ (NEWLINE ++ openTag ARTIST) =
    "</dc:title>\r\n<upnp:artist>".toList := by
  decide

set_option maxRecDepth 20000 in
theorem didl_back : closeTag ARTIST ++ (NEWLINE ++ (openTag CLASS ++ (MUSIC_TRACK ++
    (closeTag CLASS ++ (NEWLINE ++ (closeTag ITEM ++ (NEWLINE ++ closeTag DIDL_LITE))))))) =
      ("</upnp:artist>\r\n" ++ DIDL_CLOSE).toList := by
  decide

theorem didl_write (album title artist : JString) :
    (didl album title artist).write = didlText album title artist := by
  rw [didlText, ← didl_front, ← didl_beforeTitle, ← didl_beforeArtist, ← didl_back]
  simp only [didl, XmlElement.write, XmlContent.write, openTag, closeTag, List.flatMap_nil,
    List.nil_append, List.cons_append, List.append_assoc]

theorem isName_of {name : JString} (begins : name.head?.any Char.isAlpha = true)
    (all : name.all isNameChar = true) : IsName name := by
  refine ⟨?_, all⟩
  cases head : name.head? with
  | none =>
      rw [head] at begins
      cases begins
  | some c =>
      rw [head] at begins
      exact ⟨c, rfl, begins⟩

theorem areAttributes_of {attributes : List (JString × JString)}
    (names : attributes.all (fun attr =>
      attr.1.head?.any Char.isAlpha && attr.1.all isNameChar) = true)
    (values : attributes.all (fun attr => attr.2.all fun c =>
      decide (32 ≤ c.toNat ∧ c.toNat < 127 ∧ c ∉ ['<', '>', '&', '"'])) = true) :
    ∀ attr ∈ attributes, IsAttribute attr := by
  intro attr member
  have name := Bool.and_eq_true_iff.mp (List.all_eq_true.mp names attr member)
  have value := List.all_eq_true.mp (List.all_eq_true.mp values attr member)
  exact ⟨isName_of name.1 name.2, fun c inside => of_decide_eq_true (value c inside)⟩

set_option maxRecDepth 8000 in
theorem didlAttributes_valid : (∀ attr ∈ DIDL_ATTRIBUTES, IsAttribute attr) ∧
    (DIDL_ATTRIBUTES.map Prod.fst).Nodup :=
  ⟨areAttributes_of (by decide) (by decide), by decide⟩

theorem itemAttributes_valid : (∀ attr ∈ ITEM_ATTRIBUTES, IsAttribute attr) ∧
    (ITEM_ATTRIBUTES.map Prod.fst).Nodup :=
  ⟨areAttributes_of (by decide) (by decide), by decide⟩

theorem didl_wellFormed {album title artist : JString} (album_plain : '<' ∉ album)
    (title_plain : '<' ∉ title) (artist_plain : '<' ∉ artist) :
    (didl album title artist).WellFormed := by
  have newline : '<' ∉ NEWLINE := by decide
  have track : '<' ∉ MUSIC_TRACK := by decide
  have didlName : IsName DIDL_LITE := isName_of (by decide) (by decide)
  have itemName : IsName ITEM := isName_of (by decide) (by decide)
  have albumName : IsName ALBUM := isName_of (by decide) (by decide)
  have titleName : IsName TITLE := isName_of (by decide) (by decide)
  have artistName : IsName ARTIST := isName_of (by decide) (by decide)
  have className : IsName CLASS := isName_of (by decide) (by decide)
  have bare : ∀ attr ∈ ([] : List (JString × JString)), IsAttribute attr := by simp
  obtain ⟨didlAttributes, didlDistinct⟩ := didlAttributes_valid
  obtain ⟨itemAttributes, itemDistinct⟩ := itemAttributes_valid
  simp only [didl, XmlElement.WellFormed, XmlContent.WellFormed]
  exact ⟨didlName, didlAttributes, didlDistinct, newline,
    ⟨itemName, itemAttributes, itemDistinct,
      newline, ⟨albumName, bare, List.nodup_nil, album_plain⟩,
      newline, ⟨titleName, bare, List.nodup_nil, title_plain⟩,
      newline, ⟨artistName, bare, List.nodup_nil, artist_plain⟩,
      newline, ⟨className, bare, List.nodup_nil, track⟩, newline⟩, newline⟩

def songTree (album title artist : JString) : Node :=
  .element DIDL_LITE [.content ['\n'],
    .element ITEM [.content ['\n'], .element ALBUM [.content album],
      .content ['\n'], .element TITLE [.content title],
      .content ['\n'], .element ARTIST [.content artist],
      .content ['\n'], .element CLASS [.content MUSIC_TRACK], .content ['\n']],
    .content ['\n']]

theorem didl_node {album title artist : JString} (albumSet : album ≠ []) (titleSet : title ≠ [])
    (artistSet : artist ≠ []) :
    (didl album title artist).node? = (charData album).bind fun album =>
      (charData title).bind fun title => (charData artist).map fun artist =>
        songTree album title artist := by
  have newline : textNodes NEWLINE = some [.content ['\n']] := by rfl
  have track : textNodes MUSIC_TRACK = some [.content MUSIC_TRACK] := by rfl
  simp only [didl, XmlElement.node?, XmlContent.nodes?, newline, track]
  rw [textNodes, if_neg albumSet, textNodes, if_neg titleSet, textNodes, if_neg artistSet]
  cases charData album with
  | none => rfl
  | some album =>
      cases charData title with
      | none => rfl
      | some title => cases charData artist <;> rfl

theorem songTree_values (album title artist : JString) :
    getElementValue (songTree album title artist) "dc:title".toList = some title ∧
      getElementValue (songTree album title artist) "upnp:album".toList = some album ∧
      getElementValue (songTree album title artist) "upnp:artist".toList = some artist := by
  refine ⟨?_, ?_, ?_⟩ <;> rfl

end document

section ampersands

variable {album title artist : JString}

set_option maxRecDepth 8000 in
theorem amp_notMem_front : '&' ∉ (DIDL_OPEN ++ "<upnp:album>").toList := by
  rw [← didl_front]
  decide

theorem amp_notMem_beforeTitle : '&' ∉ "</upnp:album>\r\n<dc:title>".toList := by decide

theorem amp_notMem_beforeArtist : '&' ∉ "</dc:title>\r\n<upnp:artist>".toList := by decide

set_option maxRecDepth 8000 in
theorem amp_notMem_back : '&' ∉ ("</upnp:artist>\r\n" ++ DIDL_CLOSE).toList := by
  rw [← didl_back]
  decide

theorem amp_mem_didlText :
    '&' ∈ didlText album title artist ↔ '&' ∈ album ∨ '&' ∈ title ∨ '&' ∈ artist := by
  simp only [didlText, List.mem_append, amp_notMem_front, amp_notMem_beforeTitle,
    amp_notMem_beforeArtist, amp_notMem_back, false_or, or_false]

theorem escaped_didlText :
    escaped (didlText album title artist) =
      didlText (escaped album) (escaped title) (escaped artist) := by
  simp only [didlText, escaped_append, escaped_of_notMem amp_notMem_front,
    escaped_of_notMem amp_notMem_beforeTitle, escaped_of_notMem amp_notMem_beforeArtist,
    escaped_of_notMem amp_notMem_back]

theorem infix_behind {c : Char} {pattern front text : JString} (free : c ∉ front) :
    c :: pattern <:+: front ++ text ↔ c :: pattern <:+: text := by
  induction front with
  | nil => rfl
  | cons d front ih =>
      rw [List.mem_cons, not_or] at free
      rw [List.cons_append, List.infix_cons_iff, ih free.2, List.cons_prefix_cons]
      exact or_iff_right fun both => free.1 both.1

theorem prefix_before {d : Char} : ∀ {pattern text rest : JString}, d ∉ pattern →
    (pattern <+: text ++ d :: rest ↔ pattern <+: text) := by
  intro pattern
  induction pattern with
  | nil => intro text rest _; simp
  | cons p pattern ih =>
      intro text rest free
      rw [List.mem_cons, not_or] at free
      cases text with
      | nil =>
          rw [List.nil_append, List.cons_prefix_cons, List.prefix_nil]
          simp [Ne.symm free.1]
      | cons c text =>
          rw [List.cons_append, List.cons_prefix_cons, List.cons_prefix_cons, ih free.2]

theorem infix_before {d p : Char} {pattern : JString} (free : d ∉ p :: pattern) :
    ∀ {text rest : JString}, p :: pattern <:+: text ++ d :: rest ↔
      p :: pattern <:+: text ∨ p :: pattern <:+: rest := by
  intro text rest
  induction text with
  | nil =>
      have other : ¬ p :: pattern <+: d :: rest := fun begins =>
        free (List.mem_cons.mpr (.inl (List.cons_prefix_cons.mp begins).1.symm))
      rw [List.nil_append, List.infix_cons_iff, or_iff_right other, List.infix_nil]
      exact (or_iff_right (List.cons_ne_nil p pattern)).symm
  | cons c text ih =>
      rw [List.cons_append, List.infix_cons_iff, ih, ← List.cons_append, prefix_before free,
        List.infix_cons_iff, or_assoc]

theorem didlText_split (album title artist : JString) :
    ∃ first second third : JString, '&' ∉ first ∧ '&' ∉ second ∧ '&' ∉ third ∧
      didlText album title artist = (DIDL_OPEN ++ "<upnp:album>").toList ++ (album ++
        '<' :: (first ++ (title ++ '<' :: (second ++ (artist ++ '<' :: third))))) := by
  have first := amp_notMem_beforeTitle
  have second := amp_notMem_beforeArtist
  have third := amp_notMem_back
  rw [didlText]
  rw [← didl_beforeTitle] at first ⊢
  rw [← didl_beforeArtist] at second ⊢
  rw [← didl_back] at third ⊢
  simp only [closeTag, List.cons_append, List.mem_cons, not_or] at first second third ⊢
  exact ⟨_, _, _, List.not_mem_cons_of_ne_of_not_mem first.2.1 first.2.2,
    List.not_mem_cons_of_ne_of_not_mem second.2.1 second.2.2,
    List.not_mem_cons_of_ne_of_not_mem third.2.1 third.2.2, rfl⟩

theorem escape_infix_didlText :
    ['&', 'a', 'm', 'p', ';'] <:+: didlText album title artist ↔
      ['&', 'a', 'm', 'p', ';'] <:+: album ∨ ['&', 'a', 'm', 'p', ';'] <:+: title ∨
        ['&', 'a', 'm', 'p', ';'] <:+: artist := by
  obtain ⟨first, second, third, free1, free2, free3, split⟩ := didlText_split album title artist
  have noEnd : ¬ ['&', 'a', 'm', 'p', ';'] <:+: third := fun inside =>
    free3 (inside.subset List.mem_cons_self)
  rw [split, infix_behind amp_notMem_front, infix_before (by decide), infix_behind free1,
    infix_before (by decide), infix_behind free2, infix_before (by decide), or_iff_left noEnd]

theorem contains_amp (text : JString) :
    JString.contains text "&".toList = true ↔ '&' ∈ text := by
  have single : "&".toList = ['&'] := by decide
  rw [JString.contains, decide_eq_true_eq, single]
  exact List.singleton_infix_iff _ _

theorem contains_escape (text : JString) :
    JString.contains text "&amp;".toList = true ↔ ['&', 'a', 'm', 'p', ';'] <:+: text := by
  have escape : "&amp;".toList = ['&', 'a', 'm', 'p', ';'] := by decide
  rw [JString.contains, decide_eq_true_eq, escape]

theorem fixAmpersands_bare {text : JString} (bare : ¬ ['&', 'a', 'm', 'p', ';'] <:+: text) :
    fixAmpersands text = escaped text := by
  simp only [fixAmpersands, contains_amp, contains_escape]
  by_cases amp : '&' ∈ text
  · have escape : "&amp;".toList = ['&', 'a', 'm', 'p', ';'] := by decide
    rw [if_pos ⟨amp, bare⟩, escape, escaped]
  · rw [if_neg fun both => amp both.1, escaped_of_notMem amp]

theorem fixAmpersands_escape {text : JString} (found : ['&', 'a', 'm', 'p', ';'] <:+: text) :
    fixAmpersands text = text := by
  simp only [fixAmpersands, contains_escape]
  exact if_neg fun both => both.2 found

end ampersands

end AirCast.Center
