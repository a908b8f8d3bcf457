import AirCast.CString
import AirCast.Lib.LoopProgram

/-! # Session descriptions in one buffer

`sdp.c` keeps the text in one buffer.  A record is a pointer into it, and its value is the
string at the pointer once all lines are parsed; the parser ends strings by writing NULs
into the buffer while earlier records already point there. -/

set_option autoImplicit false

namespace AirCast.Raop

inductive SdpRecord where
  | version
  | origin
  | connection
  | session
  | time
  | media
  | rtpmap
  | fmtp
  | rsaaeskey
  | fpaeskey
  | aesiv
  | minLatency
  deriving DecidableEq

/-- `sdp_t`: the buffer, and where in it the records are. -/
structure SdpBuffer where
  data : Bytes
  record : SdpRecord → Option ℕ

def stringAt (data : Bytes) (position : ℕ) : Bytes := (CString.ofBytes (data.drop position)).chars

namespace SdpBuffer

def set (sdp : SdpBuffer) (record : SdpRecord) (position : ℕ) : SdpBuffer :=
  { sdp with record := Function.update sdp.record record (some position) }

/-- The value of an attribute begins at `value`. -/
def setAttribute (sdp : SdpBuffer) (key : Bytes) (value : ℕ) : SdpBuffer :=
  if key = bytesOf "rtpmap" ∧ sdp.record .rtpmap = none then sdp.set .rtpmap value
  else if key = bytesOf "fmtp" ∧ sdp.record .fmtp = none then sdp.set .fmtp value
  else if key = bytesOf "rsaaeskey" then sdp.set .rsaaeskey value
  else if key = bytesOf "fpaeskey" then sdp.set .fpaeskey value
  else if key = bytesOf "aesiv" then sdp.set .aesiv value
  else if key = bytesOf "min-latency" then sdp.set .minLatency value
  else sdp

/-- The case `'a'`: the colon becomes the end of the key. -/
def parseAttribute (sdp : SdpBuffer) (line : ℕ) : SdpBuffer :=
  match strstr (bytesOf ":") (stringAt sdp.data line) with
  | none => sdp
  | some (before, _) =>
      let data := sdp.data.set (line + before.length) 0
      { sdp with data := data }.setAttribute (stringAt data (line + 2)) (line + before.length + 1)

/-- `parse_sdp_line`; `line` is a position in the buffer. -/
def parseSdpLine (sdp : SdpBuffer) (line : ℕ) : SdpBuffer :=
  match stringAt sdp.data line with
  | 118 :: 61 :: _ => sdp.set .version (line + 2)
  | 111 :: 61 :: _ => sdp.set .origin (line + 2)
  | 115 :: 61 :: _ => sdp.set .session (line + 2)
  | 99 :: 61 :: _ => sdp.set .connection (line + 2)
  | 116 :: 61 :: _ => sdp.set .time (line + 2)
  | 109 :: 61 :: _ => sdp.set .media (line + 2)
  | 97 :: 61 :: _ => sdp.parseAttribute line
  | _ => sdp

def lineEnd (data : Bytes) (pos : ℕ) : ℕ :=
  pos + ((data.drop pos).takeWhile fun c => c ≠ 0 ∧ c ≠ 10).length

/-- A round of the loop of `parse_sdp_data`. -/
def parseRound (len pos : ℕ) : Program SdpBuffer (ℕ ⊕ Unit) :=
  .action fun sdp => some <|
    if pos < len then
      let lfpos := lineEnd sdp.data pos
      if sdp.data.getD lfpos 0 ≠ 10 then (.inr (), sdp)
      else
        let data := sdp.data.set lfpos 0
        let data :=
          if pos < lfpos ∧ data.getD (lfpos - 1) 0 = 13 then data.set (lfpos - 1) 0 else data
        (.inl (lfpos + 1), parseSdpLine { sdp with data := data } pos)
    else (.inr (), sdp)

def parseSdpData : Program SdpBuffer Unit := do
  let len ← .action fun sdp => some ((stringAt sdp.data 0).length, sdp)
  .loop (parseRound len) 0

def init (sdpdata : Bytes) : SdpBuffer := ⟨sdpdata ++ [0], fun _ => none⟩

def get (sdp : SdpBuffer) (record : SdpRecord) : Option Bytes :=
  (sdp.record record).map (stringAt sdp.data)

end SdpBuffer

namespace SdpRecord

/-- How a line for the record begins. -/
def start : SdpRecord → Bytes
  | .version => bytesOf "v="
  | .origin => bytesOf "o="
  | .connection => bytesOf "c="
  | .session => bytesOf "s="
  | .time => bytesOf "t="
  | .media => bytesOf "m="
  | .rtpmap => bytesOf "a=rtpmap:"
  | .fmtp => bytesOf "a=fmtp:"
  | .rsaaeskey => bytesOf "a=rsaaeskey:"
  | .fpaeskey => bytesOf "a=fpaeskey:"
  | .aesiv => bytesOf "a=aesiv:"
  | .minLatency => bytesOf "a=min-latency:"

/-- The first line counts, not the last one. -/
def keepsFirst : SdpRecord → Bool
  | .rtpmap => true
  | .fmtp => true
  | _ => false

def text (record : SdpRecord) (line : Bytes) : Option Bytes :=
  if record.start <+: line then some (line.drop record.start.length) else none

/-- The key of the attribute that the record holds. -/
def key : SdpRecord → Option Bytes
  | .rtpmap => some (bytesOf "rtpmap")
  | .fmtp => some (bytesOf "fmtp")
  | .rsaaeskey => some (bytesOf "rsaaeskey")
  | .fpaeskey => some (bytesOf "fpaeskey")
  | .aesiv => some (bytesOf "aesiv")
  | .minLatency => some (bytesOf "min-latency")
  | _ => none

theorem key_inj {record other : SdpRecord} {key : Bytes} (named : record.key = some key)
    (same : other.key = some key) : record = other := by
  rw [← named] at same
  cases record <;> cases other <;> first
    | rfl
    | exact absurd same (by decide)
    | cases named

theorem start_inj {record other : SdpRecord} {line : Bytes} (begins : record.start <+: line)
    (same : other.start <+: line) : record = other := by
  have comparable := List.prefix_or_prefix_of_prefix begins same
  cases record <;> cases other <;> first
    | rfl
    | exact absurd comparable (by decide)

theorem start_of_key {record : SdpRecord} {key : Bytes} (named : record.key = some key) :
    record.start = 97 :: 61 :: key ++ [58] ∧ (58 : UInt8) ∉ key := by
  cases record <;> cases named <;> decide

theorem key_of_start {record : SdpRecord} {text : Bytes}
    (begins : record.start <+: 97 :: 61 :: text) : ∃ key, record.key = some key := by
  obtain ⟨rest, begins⟩ := begins
  cases named : record.key with
  | none => cases record <;> cases named <;> cases begins
  | some key => exact ⟨key, rfl⟩

theorem start_attribute {record : SdpRecord} {key value : Bytes}
    (colonFree : (58 : UInt8) ∉ key) :
    record.start <+: 97 :: 61 :: key ++ 58 :: value ↔ record.key = some key := by
  constructor
  · intro begins
    obtain ⟨other, named⟩ := key_of_start begins
    obtain ⟨start, otherFree⟩ := start_of_key named
    obtain ⟨rest, begins⟩ := begins
    rw [start] at begins
    have same : strstr [58] (other ++ 58 :: rest) = strstr [58] (key ++ 58 :: value) := by
      rw [show other ++ 58 :: rest = key ++ 58 :: value by simpa using begins]
    rw [strstr_byte.mpr ⟨rfl, otherFree⟩, strstr_byte.mpr ⟨rfl, colonFree⟩] at same
    rw [named, (Prod.mk.inj (Option.some.inj same)).1]
  · intro named
    rw [(start_of_key named).1]
    exact ⟨value, by simp⟩

def value (record : SdpRecord) (lines : List Bytes) : Option Bytes :=
  if record.keepsFirst then lines.findSome? record.text else lines.reverse.findSome? record.text

theorem text_begins (record : SdpRecord) (value : Bytes) :
    record.text (record.start ++ value) = some value := by
  simp [text]

theorem value_snoc (record : SdpRecord) (lines : List Bytes) (line : Bytes) :
    record.value (lines ++ [line]) =
      if record.keepsFirst then (record.value lines).or (record.text line)
      else (record.text line).or (record.value lines) := by
  unfold value
  cases record.keepsFirst with
  | true => simp [List.findSome?_append]
  | false =>
      simp only [List.reverse_append, List.reverse_singleton, List.singleton_append,
        List.findSome?_cons, Bool.false_eq_true, if_false]
      cases record.text line <;> rfl

end SdpRecord

/-! ## Strings in the buffer -/

theorem stringAt_of_split {data front text back : Bytes}
    (split : data = front ++ (text ++ 0 :: back)) (nulFree : (0 : UInt8) ∉ text) :
    stringAt data front.length = text := by
  have whole : ∀ c ∈ text, decide (c ≠ 0) = true := by
    intro c member
    exact decide_eq_true fun zero => nulFree (zero ▸ member)
  rw [stringAt, split, List.drop_left, CString.ofBytes]
  simp only
  rw [List.takeWhile_append_of_pos whole]
  simp

namespace SdpBuffer

theorem setAttribute_data (sdp : SdpBuffer) (key : Bytes) (value : ℕ) :
    (sdp.setAttribute key value).data = sdp.data := by
  rw [setAttribute]
  split_ifs <;> rfl

theorem set_record {sdp : SdpBuffer} {chosen : SdpRecord} {key : Bytes} (value : ℕ)
    (record : SdpRecord) (named : chosen.key = some key)
    (free : ¬ (chosen.keepsFirst ∧ (sdp.record chosen).isSome)) :
    (sdp.set chosen value).record record =
      if record.key = some key ∧ ¬ (record.keepsFirst ∧ (sdp.record record).isSome) then
        some value
      else sdp.record record := by
  by_cases same : record = chosen
  · subst same
    rw [if_pos ⟨named, free⟩]
    exact Function.update_self _ _ _
  · rw [if_neg fun found => same (SdpRecord.key_inj found.1 named)]
    exact Function.update_of_ne same _ _

theorem setAttribute_record (sdp : SdpBuffer) (key : Bytes) (value : ℕ) (record : SdpRecord) :
    (sdp.setAttribute key value).record record =
      if record.key = some key ∧ ¬ (record.keepsFirst ∧ (sdp.record record).isSome) then
        some value
      else sdp.record record := by
  rw [setAttribute]
  by_cases rtpmap : key = bytesOf "rtpmap" ∧ sdp.record .rtpmap = none
  · rw [if_pos rtpmap]
    exact set_record value record (rtpmap.1 ▸ rfl) (by simp [rtpmap.2])
  rw [if_neg rtpmap]
  by_cases fmtp : key = bytesOf "fmtp" ∧ sdp.record .fmtp = none
  · rw [if_pos fmtp]
    exact set_record value record (fmtp.1 ▸ rfl) (by simp [fmtp.2])
  rw [if_neg fmtp]
  by_cases rsaaeskey : key = bytesOf "rsaaeskey"
  · rw [if_pos rsaaeskey]
    exact set_record value record (rsaaeskey ▸ rfl) (by simp [SdpRecord.keepsFirst])
  rw [if_neg rsaaeskey]
  by_cases fpaeskey : key = bytesOf "fpaeskey"
  · rw [if_pos fpaeskey]
    exact set_record value record (fpaeskey ▸ rfl) (by simp [SdpRecord.keepsFirst])
  rw [if_neg fpaeskey]
  by_cases aesiv : key = bytesOf "aesiv"
  · rw [if_pos aesiv]
    exact set_record value record (aesiv ▸ rfl) (by simp [SdpRecord.keepsFirst])
  rw [if_neg aesiv]
  by_cases minLatency : key = bytesOf "min-latency"
  · rw [if_pos minLatency]
    exact set_record value record (minLatency ▸ rfl) (by simp [SdpRecord.keepsFirst])
  rw [if_neg minLatency, if_neg]
  rintro ⟨named, free⟩
  cases record <;> simp_all [SdpRecord.key, SdpRecord.keepsFirst]

/-- The colon of an attribute becomes a NUL. -/
theorem parseAttribute_data {sdp : SdpBuffer} {front key value back : Bytes}
    (split : sdp.data = front ++ ((97 :: 61 :: key ++ 58 :: value) ++ 0 :: back))
    (nulFree : (0 : UInt8) ∉ key ++ value) (colonFree : (58 : UInt8) ∉ key) :
    (sdp.parseAttribute front.length).data =
        front ++ ((97 :: 61 :: key ++ 0 :: value) ++ 0 :: back) ∧
      ∀ record : SdpRecord, (sdp.parseAttribute front.length).record record =
        if record.key = some key ∧ ¬ (record.keepsFirst ∧ (sdp.record record).isSome) then
          some (front.length + (key.length + 3))
        else sdp.record record := by
  rw [List.mem_append, not_or] at nulFree
  have line : stringAt sdp.data front.length = 97 :: 61 :: key ++ 58 :: value :=
    stringAt_of_split split (by simp [nulFree])
  have found : strstr (bytesOf ":") (97 :: 61 :: key ++ 58 :: value) =
      some (97 :: 61 :: key, value) := by
    rw [show bytesOf ":" = [58] by decide]
    exact strstr_byte.mpr ⟨rfl, by simp [colonFree]⟩
  have written : sdp.data.set (front.length + (97 :: 61 :: key).length) 0 =
      front ++ ((97 :: 61 :: key ++ 0 :: value) ++ 0 :: back) := by
    rw [split]
    simp
  have named : stringAt (sdp.data.set (front.length + (97 :: 61 :: key).length) 0)
      (front.length + 2) = key := by
    have moved := @stringAt_of_split _ (front ++ [97, 61]) key (value ++ 0 :: back)
      (written.trans (by simp)) nulFree.1
    simpa using moved
  have place : front.length + (97 :: 61 :: key).length + 1 = front.length + (key.length + 3) := by
    simp only [List.length_cons]
    omega
  rw [parseAttribute, line, found]
  simp only
  rw [named, written, place]
  exact ⟨setAttribute_data _ _ _, fun record => setAttribute_record _ _ _ _⟩

/-- A line between `front` and `back` is parsed: what it leaves in the buffer ends with the
texts of its records, and they point to them. -/
structure LineParsed (sdp parsed : SdpBuffer) (front line back : Bytes) : Prop where
  data : ∃ written : Bytes, written.length = line.length ∧
    parsed.data = front ++ (written ++ 0 :: back) ∧
      ∀ (record : SdpRecord) (value : Bytes), line = record.start ++ value →
        ∃ before : Bytes, before.length = record.start.length ∧ written = before ++ value
  record : ∀ record : SdpRecord, parsed.record record =
    if record.start <+: line ∧ ¬ (record.keepsFirst ∧ (sdp.record record).isSome) then
      some (front.length + record.start.length)
    else sdp.record record

section

variable {sdp : SdpBuffer} {front line back : Bytes}
  (split : sdp.data = front ++ (line ++ 0 :: back))
include split

theorem lineParsed_none (foreign : ∀ record : SdpRecord, ¬ record.start <+: line) :
    LineParsed sdp sdp front line back where
  data := ⟨line, rfl, split, fun record value begins =>
    absurd ⟨value, begins.symm⟩ (foreign record)⟩
  record := fun record => by rw [if_neg fun found => foreign record found.1]

theorem lineParsed_set (chosen : SdpRecord) (begins : chosen.start <+: line)
    (last : chosen.keepsFirst = false) :
    LineParsed sdp (sdp.set chosen (front.length + chosen.start.length)) front line back where
  data := ⟨line, rfl, split, fun record value begins => ⟨record.start, rfl, begins⟩⟩
  record := fun record => by
    by_cases same : record = chosen
    · subst same
      rw [if_pos ⟨begins, by simp [last]⟩]
      exact Function.update_self _ _ _
    · rw [if_neg fun found => same (SdpRecord.start_inj found.1 begins)]
      exact Function.update_of_ne same _ _

theorem lineParsed_attribute {text : Bytes} (begins : line = 97 :: 61 :: text)
    (nulFree : (0 : UInt8) ∉ line) :
    LineParsed sdp (sdp.parseAttribute front.length) front line back := by
  cases found : strstr [58] text with
  | none =>
      have absent := strstr_byte_none.mp found
      have unchanged : sdp.parseAttribute front.length = sdp := by
        rw [parseAttribute, stringAt_of_split split nulFree, show bytesOf ":" = [58] by decide,
          strstr_byte_none.mpr (by simp [begins, absent])]
      rw [unchanged]
      refine lineParsed_none split fun record started => ?_
      rw [begins] at started
      obtain ⟨key, named⟩ := SdpRecord.key_of_start started
      rw [(SdpRecord.start_of_key named).1] at started
      have member := started.subset (show (58 : UInt8) ∈ 97 :: 61 :: key ++ [58] by simp)
      exact absent (by simpa using member)
  | some parts =>
      obtain ⟨key, value⟩ := parts
      obtain ⟨rfl, colonFree⟩ := strstr_byte.mp found
      subst begins
      have parsed := parseAttribute_data (by simpa using split)
        (by simpa [not_or] using nulFree) colonFree
      refine ⟨⟨97 :: 61 :: key ++ 0 :: value, by simp, parsed.1, fun record text begins => ?_⟩,
        fun record => ?_⟩
      · have named := (SdpRecord.start_attribute colonFree).mp ⟨text, begins.symm⟩
        have start := (SdpRecord.start_of_key named).1
        rw [start] at begins ⊢
        exact ⟨97 :: 61 :: key ++ [0], by simp, by simpa using begins⟩
      · rw [parsed.2, ← List.cons_append, ← List.cons_append]
        simp only [SdpRecord.start_attribute colonFree]
        by_cases named : record.key = some key
        · simp [named, (SdpRecord.start_of_key named).1]
        · simp [named]

end

theorem parseSdpLine_line {sdp : SdpBuffer} {front line back : Bytes}
    (split : sdp.data = front ++ (line ++ 0 :: back)) (nulFree : (0 : UInt8) ∉ line) :
    LineParsed sdp (sdp.parseSdpLine front.length) front line back := by
  rw [parseSdpLine, stringAt_of_split split nulFree]
  split
  · exact lineParsed_set split .version ⟨_, rfl⟩ rfl
  · exact lineParsed_set split .origin ⟨_, rfl⟩ rfl
  · exact lineParsed_set split .session ⟨_, rfl⟩ rfl
  · exact lineParsed_set split .connection ⟨_, rfl⟩ rfl
  · exact lineParsed_set split .time ⟨_, rfl⟩ rfl
  · exact lineParsed_set split .media ⟨_, rfl⟩ rfl
  · exact lineParsed_attribute split rfl nulFree
  next version origin session connection time media coloned =>
    refine lineParsed_none split fun record begins => ?_
    obtain ⟨rest, rfl⟩ := begins
    cases record
    · exact version rest rfl
    · exact origin rest rfl
    · exact connection rest rfl
    · exact session rest rfl
    · exact time rest rfl
    · exact media rest rfl
    all_goals exact coloned _ rfl

/-! ## Rounds -/

end SdpBuffer

/-- A line of a session description with its end; one carriage return belongs to the end. -/
structure SdpLine where
  text : Bytes
  crlf : Bool
  nulFree : (0 : UInt8) ∉ text
  lfFree : (10 : UInt8) ∉ text
  crFree : crlf = false → text.getLast? ≠ some 13

namespace SdpLine

def body (line : SdpLine) : Bytes := line.text ++ if line.crlf then [13] else []

def bytes (line : SdpLine) : Bytes := line.body ++ [10]

theorem body_plain (line : SdpLine) : ∀ c ∈ line.body, c ≠ 0 ∧ c ≠ 10 := by
  intro c member
  rw [body, List.mem_append] at member
  rcases member with member | member
  · exact ⟨fun zero => line.nulFree (zero ▸ member), fun feed => line.lfFree (feed ▸ member)⟩
  · split at member
    · obtain rfl := List.mem_singleton.mp member
      decide
    · cases member

def ending (line : SdpLine) : Bytes := if line.crlf then [0] else []

theorem bytes_length (line : SdpLine) :
    line.bytes.length = line.text.length + (line.ending.length + 1) := by
  cases crlf : line.crlf <;> simp [bytes, body, ending, crlf]

end SdpLine

namespace SdpBuffer

theorem lineEnd_plain {front body back : Bytes} {last : UInt8} (stops : last = 0 ∨ last = 10)
    (plain : ∀ c ∈ body, c ≠ 0 ∧ c ≠ 10) :
    lineEnd (front ++ (body ++ last :: back)) front.length = (front ++ body).length := by
  have whole : ∀ c ∈ body, decide (c ≠ 0 ∧ c ≠ 10) = true := fun c member =>
    decide_eq_true (plain c member)
  rw [lineEnd, List.drop_left, List.takeWhile_append_of_pos whole]
  rcases stops with rfl | rfl <;> simp

theorem getD_middle (front back : Bytes) (c : UInt8) :
    (front ++ c :: back).getD front.length 0 = c := by
  simp [List.getD_eq_getElem?_getD]

theorem set_middle (front back : Bytes) (c d : UInt8) :
    (front ++ c :: back).set front.length d = front ++ d :: back := by
  simp

theorem ending_replaced (front back : Bytes) (line : SdpLine) :
    (if front.length < (front ++ line.body).length ∧
        (front ++ line.body ++ 0 :: back).getD ((front ++ line.body).length - 1) 0 = 13 then
      (front ++ line.body ++ 0 :: back).set ((front ++ line.body).length - 1) 0
    else front ++ line.body ++ 0 :: back) =
      front ++ (line.text ++ 0 :: (line.ending ++ back)) := by
  cases crlf : line.crlf with
  | true =>
      have body : front ++ line.body ++ 0 :: back = (front ++ line.text) ++ 13 :: 0 :: back := by
        simp [SdpLine.body, crlf]
      have length : (front ++ line.body).length - 1 = (front ++ line.text).length := by
        simp [SdpLine.body, crlf]
      rw [body, length, getD_middle, set_middle, if_pos ⟨by simp [SdpLine.body, crlf], rfl⟩]
      simp [SdpLine.ending, crlf]
  | false =>
      have body : line.body = line.text := by simp [SdpLine.body, crlf]
      rw [body, if_neg, SdpLine.ending, crlf]
      · simp
      · rintro ⟨longer, last⟩
        obtain ⟨before, c, text⟩ := List.eq_nil_or_concat line.text |>.resolve_left (by
          rintro empty
          simp [empty] at longer)
        rw [text, List.concat_eq_append,
          show (front ++ (before ++ [c])).length - 1 = (front ++ before).length by simp,
          show front ++ (before ++ [c]) ++ 0 :: back = (front ++ before) ++ c :: 0 :: back by simp,
          getD_middle] at last
        exact line.crFree crlf (by simp [text, last])

theorem parseRound_line {sdp : SdpBuffer} {front back : Bytes} (line : SdpLine) {len : ℕ}
    (split : sdp.data = front ++ (line.bytes ++ back)) (inside : front.length < len) :
    (parseRound len front.length).Ends sdp (.inl (front.length + line.bytes.length))
      (parseSdpLine { sdp with
        data := front ++ (line.text ++ 0 :: (line.ending ++ back)) } front.length) := by
  have whole : sdp.data = front ++ line.body ++ 10 :: back := by simp [split, SdpLine.bytes]
  have feed : lineEnd sdp.data front.length = (front ++ line.body).length := by
    rw [whole, List.append_assoc]
    exact lineEnd_plain (.inr rfl) line.body_plain
  refine Program.ends_action.mpr (congrArg some ?_)
  simp only [if_pos inside, feed]
  rw [whole, getD_middle, set_middle, ending_replaced, if_neg (by simp)]
  simp [SdpLine.bytes, Nat.add_assoc]

theorem parseRound_tail {sdp : SdpBuffer} {front tail behind : Bytes}
    (split : sdp.data = front ++ (tail ++ 0 :: behind)) (plain : ∀ c ∈ tail, c ≠ 0 ∧ c ≠ 10) (len : ℕ) :
    (parseRound len front.length).Ends sdp (.inr ()) sdp := by
  have stop : lineEnd sdp.data front.length = (front ++ tail).length := by
    rw [split]
    exact lineEnd_plain (.inl rfl) plain
  refine Program.ends_action.mpr (congrArg some ?_)
  simp only [stop]
  rw [split, ← List.append_assoc, getD_middle]
  simp

/-! ## Runs -/

/-- The records point to the values that the lines parsed so far give, each one ended inside
the part of the buffer that the parser has left. -/
def Parsed (sdp : SdpBuffer) (front : Bytes) (parsed : List Bytes) : Prop :=
  ∀ record : SdpRecord,
    (sdp.record record = none ∧ record.value parsed = none) ∨
      ∃ before text behind : Bytes, front = before ++ (text ++ 0 :: behind) ∧
        (0 : UInt8) ∉ text ∧ sdp.record record = some before.length ∧
        record.value parsed = some text

theorem Parsed.get {sdp : SdpBuffer} {front back : Bytes} {parsed : List Bytes}
    (points : Parsed sdp front parsed) (split : sdp.data = front ++ back) (record : SdpRecord) :
    sdp.get record = record.value parsed := by
  rcases points record with ⟨missing, value⟩ | ⟨before, text, behind, rfl, nulFree, place, value⟩
  · rw [SdpBuffer.get, missing, value]
    rfl
  · rw [SdpBuffer.get, place, value, Option.map_some,
      @stringAt_of_split _ before text (behind ++ back) (by simp [split]) nulFree]

/-- A line parsed keeps the values that it does not replace. -/
theorem Parsed.line {sdp next : SdpBuffer} {front text back : Bytes} {parsed : List Bytes}
    (points : Parsed sdp front parsed) (nulFree : (0 : UInt8) ∉ text)
    (step : LineParsed sdp next front text back) :
    ∃ written : Bytes, written.length = text.length ∧
      next.data = front ++ (written ++ 0 :: back) ∧
        ∀ behind : Bytes, Parsed next (front ++ (written ++ 0 :: behind)) (parsed ++ [text]) := by
  obtain ⟨written, length, data, places⟩ := step.data
  refine ⟨written, length, data, fun behind record => ?_⟩
  rw [step.record record]
  by_cases set : record.start <+: text ∧ ¬ (record.keepsFirst ∧ (sdp.record record).isSome)
  · rw [if_pos set]
    obtain ⟨⟨value, rfl⟩, free⟩ := set
    obtain ⟨before, start, rfl⟩ := places record value rfl
    refine .inr ⟨front ++ before, value, behind, by simp, fun zero => nulFree (by simp [zero]),
      by simp [start], ?_⟩
    rw [SdpRecord.value_snoc, SdpRecord.text_begins]
    by_cases first : record.keepsFirst
    · have missing : sdp.record record = none := by simpa [first] using free
      rcases points record with ⟨_, absent⟩ | ⟨_, _, _, _, _, place, _⟩
      · simp [absent]
      · simp [missing] at place
    · simp [first]
  · rw [if_neg set]
    have kept : record.value (parsed ++ [text]) = record.value parsed := by
      rw [SdpRecord.value_snoc]
      by_cases begins : record.start <+: text
      · obtain ⟨first, set⟩ : record.keepsFirst ∧ sdp.record record ≠ none := by
          simpa [begins] using set
        rcases points record with ⟨missing, _⟩ | ⟨_, value, _, _, _, _, found⟩
        · simp [missing] at set
        · simp [first, found]
      · simp [SdpRecord.text, begins]
    rw [kept]
    rcases points record with absent | ⟨before, value, rest, rfl, free, place, found⟩
    · exact .inl absent
    · exact .inr ⟨before, value, rest ++ (written ++ 0 :: behind), by simp, free, place, found⟩

/-- Lines parsed one after the other. -/
theorem parseLines : ∀ (lines : List SdpLine) {sdp : SdpBuffer} {front tail behind : Bytes}
    {parsed : List Bytes} {len : ℕ}, Parsed sdp front parsed →
      sdp.data = front ++ (lines.flatMap SdpLine.bytes ++ (tail ++ 0 :: behind)) →
        len + 1 + behind.length = sdp.data.length → (∀ c ∈ tail, c ≠ 0 ∧ c ≠ 10) →
          ∃ last : SdpBuffer, (Program.loop (parseRound len) front.length).Ends sdp () last ∧
            ∀ record : SdpRecord,
              last.get record = record.value (parsed ++ lines.map SdpLine.text) := by
  intro lines
  induction lines with
  | nil =>
      intro sdp front tail behind parsed len points split length plain
      refine ⟨sdp, Program.ends_loop.mpr (.inr (parseRound_tail split plain len)),
        fun record => ?_⟩
      rw [points.get split record]
      simp
  | cons line lines ih =>
      intro sdp front tail behind parsed len points split length plain
      have whole : sdp.data =
          front ++ (line.bytes ++ (lines.flatMap SdpLine.bytes ++ (tail ++ 0 :: behind))) := by
        simp [split]
      have inside : front.length < len := by
        rw [whole] at length
        simp [SdpLine.bytes] at length
        omega
      let rest := lines.flatMap SdpLine.bytes ++ (tail ++ 0 :: behind)
      let cut : SdpBuffer :=
        { sdp with data := front ++ (line.text ++ 0 :: (line.ending ++ rest)) }
      have step : LineParsed cut (cut.parseSdpLine front.length) front line.text
          (line.ending ++ rest) := parseSdpLine_line rfl line.nulFree
      have before : Parsed cut front parsed := points
      obtain ⟨written, same, data, after⟩ := before.line line.nulFree step
      have position : front.length + line.bytes.length =
          (front ++ (written ++ 0 :: line.ending)).length := by
        simp [same, SdpLine.bytes_length]
      have left : (cut.parseSdpLine front.length).data = front ++ (written ++ 0 :: line.ending) ++
          (lines.flatMap SdpLine.bytes ++ (tail ++ 0 :: behind)) := by
        simp [data, rest]
      obtain ⟨last, ends, values⟩ := ih (after line.ending) left
        (by
          rw [length, whole, data]
          simp [same, rest, SdpLine.bytes_length]
          omega) plain
      refine ⟨last, Program.ends_loop.mpr (.inl ⟨_, _, parseRound_line line whole inside, ?_⟩),
        fun record => ?_⟩
      · rw [position]
        exact ends
      · rw [values record]
        simp

theorem parseSdpData_text (lines : List SdpLine) (tail behind : Bytes)
    (plain : ∀ c ∈ tail, c ≠ 0 ∧ c ≠ 10) :
    ∃ sdp : SdpBuffer,
      parseSdpData.Ends ⟨lines.flatMap SdpLine.bytes ++ tail ++ 0 :: behind, fun _ => none⟩ () sdp ∧
        ∀ record : SdpRecord, sdp.get record = record.value (lines.map SdpLine.text) := by
  let text := lines.flatMap SdpLine.bytes ++ tail
  let start : SdpBuffer := ⟨text ++ 0 :: behind, fun _ => none⟩
  have nulFree : (0 : UInt8) ∉ text := by
    intro zero
    rcases List.mem_append.mp zero with zero | zero
    · obtain ⟨line, _, zero⟩ := List.mem_flatMap.mp zero
      rcases List.mem_append.mp zero with zero | zero
      · exact (line.body_plain 0 zero).1 rfl
      · simp at zero
    · exact (plain 0 zero).1 rfl
  have whole : stringAt start.data 0 = text := @stringAt_of_split _ [] text behind rfl nulFree
  have nothing : Parsed start [] [] := fun record => .inl ⟨rfl, by cases record <;> rfl⟩
  obtain ⟨sdp, ends, values⟩ := parseLines lines nothing (by simp [start, text])
    (by simp [start]; omega : text.length + 1 + behind.length = start.data.length) plain
  refine ⟨sdp, ?_, by simpa using values⟩
  rw [parseSdpData, Program.ends_bind_of_ends (Program.ends_action.mpr rfl), whole]
  exact ends

/-- The getters after the lines are parsed. -/
theorem parseSdpData_lines (lines : List SdpLine) (tail : Bytes)
    (plain : ∀ c ∈ tail, c ≠ 0 ∧ c ≠ 10) :
    ∃ sdp : SdpBuffer,
      parseSdpData.Ends (init (lines.flatMap SdpLine.bytes ++ tail)) () sdp ∧
        ∀ record : SdpRecord, sdp.get record = record.value (lines.map SdpLine.text) :=
  parseSdpData_text lines tail [] plain

/-- The first `fmtp` stays, and the last line, which does not end, is not read. -/
theorem twoFormats_parsed : ∃ sdp : SdpBuffer,
    parseSdpData.Ends
        (init (bytesOf "a=fmtp:96\x0d\nv=0\na=fmtp:97\nv=10\ns=late")) () sdp ∧
      sdp.get .fmtp = some (bytesOf "96") ∧ sdp.get .version = some (bytesOf "10") ∧
        sdp.get .session = none := by
  let lines : List SdpLine :=
    [⟨bytesOf "a=fmtp:96", true, by decide, by decide, by decide⟩,
      ⟨bytesOf "v=0", false, by decide, by decide, by decide⟩,
      ⟨bytesOf "a=fmtp:97", false, by decide, by decide, by decide⟩,
      ⟨bytesOf "v=10", false, by decide, by decide, by decide⟩]
  obtain ⟨sdp, ends, values⟩ := parseSdpData_lines lines (bytesOf "s=late")
    (by decide +kernel)
  have joined : lines.flatMap SdpLine.bytes ++ bytesOf "s=late" =
      bytesOf "a=fmtp:96\x0d\nv=0\na=fmtp:97\nv=10\ns=late" := by
    decide
  refine ⟨sdp, joined ▸ ends, ?_, ?_, ?_⟩
  · rw [values]
    decide
  · rw [values]
    decide
  · rw [values]
    decide

end SdpBuffer

end AirCast.Raop
