import AirCast.Center.DlnaMediaModel

/-! # Elements and text of XML documents

The part of XML that the metadata documents are written in: elements, attributes and
character data, without comments, CDATA sections or processing instructions.  A
conforming parser builds the tree of such a document or rejects it; `readDocument`
is one that does so for this part. -/

set_option autoImplicit false

namespace AirCast.Center

def isXmlChar (c : Char) : Bool :=
  c = '\t' || c = '\n' || c = '\r' || (32 ≤ c.toNat && c.toNat ≠ 0xFFFE && c.toNat ≠ 0xFFFF)

/-- The line ends become line feeds; the flag tells that a carriage return is just behind. -/
def normalizeLines : Bool → JString → JString
  | _, [] => []
  | behind, c :: text =>
      if c = '\r' then '\n' :: normalizeLines true text
      else if c = '\n' ∧ behind then normalizeLines false text
      else c :: normalizeLines false text

def digitOf (c : Char) : ℕ :=
  if c.isDigit then c.toNat - 48
  else if 'a' ≤ c ∧ c ≤ 'f' then c.toNat - 87
  else if 'A' ≤ c ∧ c ≤ 'F' then c.toNat - 55
  else 16

def charReference (base : ℕ) (digits : JString) : Option Char :=
  if digits = [] ∨ ∃ c ∈ digits, base ≤ digitOf c then none
  else
    let n := digits.foldl (fun value c => base * value + digitOf c) 0
    if n.isValidChar ∧ isXmlChar (Char.ofNat n) then some (Char.ofNat n) else none

/-- What stands between `&` and `;`; without a DTD only five entities are declared. -/
def reference (name : JString) : Option Char :=
  if name = ['l', 't'] then some '<'
  else if name = ['g', 't'] then some '>'
  else if name = ['a', 'm', 'p'] then some '&'
  else if name = ['a', 'p', 'o', 's'] then some '\''
  else if name = ['q', 'u', 'o', 't'] then some '"'
  else
    match name with
    | '#' :: 'x' :: digits => charReference 16 digits
    | '#' :: digits => charReference 10 digits
    | _ => none

/-- The text with its references expanded; `some name` is a reference that is not closed yet. -/
def expand : Option JString → JString → Option JString
  | none, [] => some []
  | some _, [] => none
  | none, c :: text =>
      if c = '&' then expand (some []) text else (expand none text).map (c :: ·)
  | some name, c :: text =>
      if c = ';' then (reference name).bind fun d => (expand none text).map (d :: ·)
      else expand (some (name ++ [c])) text

/-- The value of a text node that is written `raw`; `none` is not well formed. -/
def charData (raw : JString) : Option JString :=
  let text := normalizeLines false raw
  if text.all isXmlChar ∧ ¬ [']', ']', '>'] <:+: text then expand none text else none

def textNodes (raw : JString) : Option (List Node) :=
  if raw = [] then some [] else (charData raw).map fun value => [Node.content value]

mutual

inductive XmlElement where
  | element (tagName : JString) (attributes : List (JString × JString)) (content : XmlContent)

/-- Text, with elements between. -/
inductive XmlContent where
  | text (raw : JString)
  | child (raw : JString) (element : XmlElement) (rest : XmlContent)

end

def writeAttribute (attr : JString × JString) : JString :=
  ' ' :: (attr.1 ++ '=' :: '"' :: (attr.2 ++ ['"']))

mutual

def XmlElement.write : XmlElement → JString
  | .element tagName attributes content =>
      '<' :: (tagName ++ (attributes.flatMap writeAttribute ++
        '>' :: (content.write ++ '<' :: '/' :: (tagName ++ ['>']))))

def XmlContent.write : XmlContent → JString
  | .text raw => raw
  | .child raw element rest => raw ++ (element.write ++ rest.write)

end

mutual

def XmlElement.node? : XmlElement → Option Node
  | .element tagName _ content => content.nodes?.map (Node.element tagName)

def XmlContent.nodes? : XmlContent → Option (List Node)
  | .text raw => textNodes raw
  | .child raw element rest =>
      (textNodes raw).bind fun before => element.node?.bind fun node =>
        rest.nodes?.map fun behind => before ++ node :: behind

end

def isNameChar (c : Char) : Bool := c.isAlphanum || c = ':' || c = '-'

def IsName (name : JString) : Prop := (∃ c ∈ name.head?, c.isAlpha = true) ∧ name.all isNameChar

def IsAttribute (attr : JString × JString) : Prop :=
  IsName attr.1 ∧ ∀ c ∈ attr.2, 32 ≤ c.toNat ∧ c.toNat < 127 ∧ c ∉ ['<', '>', '&', '"']

mutual

def XmlElement.WellFormed : XmlElement → Prop
  | .element tagName attributes content =>
      IsName tagName ∧ (∀ attr ∈ attributes, IsAttribute attr) ∧
        (attributes.map Prod.fst).Nodup ∧ content.WellFormed

def XmlContent.WellFormed : XmlContent → Prop
  | .text raw => '<' ∉ raw
  | .child raw element rest => '<' ∉ raw ∧ element.WellFormed ∧ rest.WellFormed

end

/-- The parser builds the tree of every such document, and rejects it where a text is not well
formed. -/
def Conforms (parse : Bytes → Option Node) : Prop :=
  ∀ document : XmlElement, document.WellFormed →
    parse (JString.getBytes document.write) = document.node?

mutual

/-- An element behind its `<`; the fuel bounds the depth and the number of elements. -/
def readElement : ℕ → JString → Option (Node × JString)
  | 0, _ => none
  | fuel + 1, input =>
      let head := input.takeWhile (· ≠ '>')
      let tagName := head.takeWhile (· ≠ ' ')
      (readContent fuel (input.drop (List.length head + 1))).bind fun (nodes, rest) =>
        if tagName ++ ['>'] <+: rest then
          some (Node.element tagName nodes, rest.drop (List.length tagName + 1))
        else none

/-- The content of an element up to its `</`. -/
def readContent : ℕ → JString → Option (List Node × JString)
  | 0, _ => none
  | fuel + 1, input =>
      let raw := input.takeWhile (· ≠ '<')
      match input.drop (List.length raw) with
      | '<' :: '/' :: rest => (textNodes raw).map fun nodes => (nodes, rest)
      | '<' :: rest =>
          (textNodes raw).bind fun before => (readElement fuel rest).bind fun (node, rest) =>
            (readContent fuel rest).map fun (behind, rest) => (before ++ node :: behind, rest)
      | _ => none

end

def readDocument (text : JString) : Option Node :=
  match text with
  | '<' :: input =>
      match readElement (List.length text) input with
      | some (node, []) => some node
      | _ => none
  | _ => none

mutual

def XmlElement.size : XmlElement → ℕ
  | .element _ _ content => content.size + 1

def XmlContent.size : XmlContent → ℕ
  | .text _ => 1
  | .child _ element rest => element.size + rest.size + 1

end

section reader

theorem takeWhile_before {α : Type} {p : α → Bool} {front rest : List α}
    (passed : ∀ c ∈ front, p c = true) (stops : ∀ c ∈ rest.head?, p c = false) :
    (front ++ rest).takeWhile p = front := by
  rw [List.takeWhile_append_of_pos passed]
  cases rest with
  | nil => rw [List.takeWhile_nil, List.append_nil]
  | cons c rest => rw [List.takeWhile_cons_of_neg (by simp [stops c rfl]), List.append_nil]

theorem IsName.plain {name : JString} (isName : IsName name) {c : Char} (member : c ∈ name) :
    c ≠ '>' ∧ c ≠ ' ' ∧ c ≠ '<' := by
  have nameChar := List.all_eq_true.mp isName.2 c member
  refine ⟨?_, ?_, ?_⟩ <;> rintro rfl <;> exact absurd nameChar (by decide)

theorem writeAttribute_plain {attr : JString × JString} (isAttribute : IsAttribute attr) :
    '>' ∉ writeAttribute attr := by
  obtain ⟨isName, values⟩ := isAttribute
  have name : '>' ∉ attr.1 := fun member => (isName.plain member).1 rfl
  have value : '>' ∉ attr.2 := fun member => (values '>' member).2.2 (by decide)
  simp [writeAttribute, name, value]

theorem takeWhile_head {tagName : JString} {attributes : List (JString × JString)}
    (isName : IsName tagName) (areAttributes : ∀ attr ∈ attributes, IsAttribute attr)
    (rest : JString) :
    (tagName ++ (attributes.flatMap writeAttribute ++ '>' :: rest)).takeWhile (· ≠ '>') =
      tagName ++ attributes.flatMap writeAttribute := by
  rw [← List.append_assoc]
  refine takeWhile_before (fun c member => ?_) (fun c head => ?_)
  · have plain : c ≠ '>' := by
      rcases List.mem_append.mp member with inName | inAttributes
      · exact (isName.plain inName).1
      · obtain ⟨attr, inside, there⟩ := List.mem_flatMap.mp inAttributes
        rintro rfl
        exact writeAttribute_plain (areAttributes attr inside) there
    simpa using plain
  · rw [← Option.some.inj head]
    rfl

theorem takeWhile_tagName {tagName : JString} (isName : IsName tagName)
    (attributes : List (JString × JString)) :
    (tagName ++ attributes.flatMap writeAttribute).takeWhile (· ≠ ' ') = tagName := by
  refine takeWhile_before (fun c member => by simpa using (isName.plain member).2.1)
    (fun c head => ?_)
  cases attributes with
  | nil => cases head
  | cons attr attributes =>
      rw [← Option.some.inj head]
      rfl

theorem readElement_of_content {tagName : JString} {attributes : List (JString × JString)}
    (isName : IsName tagName) (areAttributes : ∀ attr ∈ attributes, IsAttribute attr)
    {fuel : ℕ} {written more : JString} {nodes : Option (List Node)}
    (read : readContent fuel (written ++ '<' :: '/' :: (tagName ++ '>' :: more)) =
      nodes.map fun nodes => (nodes, tagName ++ '>' :: more)) :
    readElement (fuel + 1) (tagName ++ (attributes.flatMap writeAttribute ++
        '>' :: (written ++ '<' :: '/' :: (tagName ++ '>' :: more)))) =
      nodes.map fun nodes => (Node.element tagName nodes, more) := by
  have behind : (tagName ++ (attributes.flatMap writeAttribute ++
        '>' :: (written ++ '<' :: '/' :: (tagName ++ '>' :: more)))).drop
          (List.length (tagName ++ attributes.flatMap writeAttribute) + 1) =
      written ++ '<' :: '/' :: (tagName ++ '>' :: more) := by
    rw [← List.append_assoc, ← List.drop_drop, List.drop_left]
    rfl
  rw [readElement]
  dsimp only
  rw [takeWhile_head isName areAttributes, takeWhile_tagName isName, behind, read]
  cases nodes with
  | none => rfl
  | some nodes =>
      have closes : tagName ++ ['>'] <+: tagName ++ '>' :: more := ⟨more, by simp⟩
      have rest : (tagName ++ '>' :: more).drop (List.length tagName + 1) = more := by
        rw [← List.drop_drop, List.drop_left]
        rfl
      simp only [Option.map_some, Option.bind_some, if_pos closes, rest]

theorem takeWhile_raw {raw : JString} (plain : '<' ∉ raw) (rest : JString) :
    (raw ++ '<' :: rest).takeWhile (· ≠ '<') = raw := by
  refine takeWhile_before (fun c member => ?_) (fun c head => ?_)
  · simpa using fun same : c = '<' => plain (same ▸ member)
  · rw [← Option.some.inj head]
    rfl

theorem readContent_end {raw : JString} (plain : '<' ∉ raw) (fuel : ℕ) (more : JString) :
    readContent (fuel + 1) (raw ++ '<' :: '/' :: more) =
      (textNodes raw).map fun nodes => (nodes, more) := by
  rw [readContent]
  dsimp only
  rw [takeWhile_raw plain, List.drop_left]
  rfl

theorem readContent_child {raw : JString} (plain : '<' ∉ raw) {tagName : JString}
    (isName : IsName tagName) (fuel : ℕ) (more : JString) :
    readContent (fuel + 1) (raw ++ '<' :: (tagName ++ more)) =
      (textNodes raw).bind fun before => (readElement fuel (tagName ++ more)).bind fun found =>
        (readContent fuel found.2).map fun later =>
          (before ++ found.1 :: later.1, later.2) := by
  obtain ⟨c, head, letter⟩ := isName.1
  obtain ⟨tagName, rfl⟩ := List.head?_eq_some_iff.mp head
  have noSlash : c ≠ '/' := by
    rintro rfl
    exact absurd letter (by decide)
  rw [readContent]
  dsimp only
  rw [takeWhile_raw plain, List.drop_left]
  split
  · rename_i same
    exact absurd (List.cons.inj (List.cons.inj same).2).1 noSlash
  · rename_i rest _ same
    obtain rfl := (List.cons.inj same).2
    rfl
  · rename_i none_of
    exact absurd rfl (none_of _)

theorem XmlElement.write_begins {element : XmlElement} (wellFormed : element.WellFormed) :
    ∃ tagName behind, IsName tagName ∧ element.write = '<' :: (tagName ++ behind) := by
  cases element with
  | element tagName attributes content =>
      rw [XmlElement.WellFormed] at wellFormed
      rw [XmlElement.write]
      exact ⟨tagName, _, wellFormed.1, rfl⟩

mutual

theorem readElement_write (element : XmlElement) (wellFormed : element.WellFormed) (fuel : ℕ)
    (enough : element.size ≤ fuel) (more : JString) :
    readElement fuel (element.write.tail ++ more) = element.node?.map fun node => (node, more) := by
  match element, fuel, enough with
  | .element tagName attributes content, fuel + 1, enough =>
      rw [XmlElement.size] at enough
      rw [XmlElement.WellFormed] at wellFormed
      obtain ⟨isName, areAttributes, -, inside⟩ := wellFormed
      have read := readContent_write content inside fuel (by omega) (tagName ++ '>' :: more)
      have whole := readElement_of_content isName areAttributes read
      rw [XmlElement.node?, Option.map_map]
      simpa [XmlElement.write, Function.comp_def] using whole

theorem readContent_write (content : XmlContent) (wellFormed : content.WellFormed) (fuel : ℕ)
    (enough : content.size ≤ fuel) (more : JString) :
    readContent fuel (content.write ++ '<' :: '/' :: more) =
      content.nodes?.map fun nodes => (nodes, more) := by
  match content, fuel, enough with
  | .text raw, fuel + 1, _ =>
      rw [XmlContent.WellFormed] at wellFormed
      rw [XmlContent.write, XmlContent.nodes?]
      exact readContent_end wellFormed fuel more
  | .child raw element rest, fuel + 1, enough =>
      rw [XmlContent.size] at enough
      rw [XmlContent.WellFormed] at wellFormed
      obtain ⟨plain, child, behind⟩ := wellFormed
      obtain ⟨tagName, tail, isName, begins⟩ := element.write_begins child
      have first := readElement_write element child fuel (by omega)
        (rest.write ++ '<' :: '/' :: more)
      have later := readContent_write rest behind fuel (by omega) more
      have step := readContent_child plain isName fuel
        (tail ++ (rest.write ++ '<' :: '/' :: more))
      rw [begins, List.tail_cons, List.append_assoc] at first
      rw [first] at step
      have text : XmlContent.write (.child raw element rest) ++ '<' :: '/' :: more =
          raw ++ '<' :: (tagName ++ (tail ++ (rest.write ++ '<' :: '/' :: more))) := by
        simp [XmlContent.write, begins]
      rw [text, step, XmlContent.nodes?]
      cases textNodes raw with
      | none => rfl
      | some before =>
          cases element.node? with
          | none => rfl
          | some node =>
              simp only [Option.bind_some, Option.map_some, later]
              cases rest.nodes? <;> rfl

end

mutual

theorem XmlElement.size_lt : ∀ element : XmlElement, element.size < List.length element.write
  | .element tagName attributes content => by
      have inside := content.size_le
      rw [XmlElement.size, XmlElement.write]
      simp only [List.length_cons, List.length_append]
      omega

theorem XmlContent.size_le : ∀ content : XmlContent, content.size ≤ List.length content.write + 1
  | .text raw => by
      rw [XmlContent.size]
      omega
  | .child raw element rest => by
      have child := element.size_lt
      have behind := rest.size_le
      rw [XmlContent.size, XmlContent.write]
      simp only [List.length_append]
      omega

end

theorem readDocument_write {document : XmlElement} (wellFormed : document.WellFormed) :
    readDocument document.write = document.node? := by
  obtain ⟨tagName, behind, -, begins⟩ := document.write_begins wellFormed
  have size := document.size_lt
  rw [begins] at size ⊢
  have read := readElement_write document wellFormed
    (List.length ('<' :: (tagName ++ behind))) size.le []
  rw [begins, List.tail_cons, List.append_nil] at read
  rw [readDocument]
  rw [read]
  cases document.node? <;> rfl

theorem readDocument_conforms : Conforms fun bytes => readDocument (JString.ofBytes bytes) :=
  fun document wellFormed =>
    (congrArg readDocument (JString.ofBytes_getBytes document.write)).trans
      (readDocument_write wellFormed)

end reader

end AirCast.Center
