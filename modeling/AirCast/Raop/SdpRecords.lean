import AirCast.Raop.Sdp
import AirCast.Raop.SdpBuffer

/-! # The records of a session description that ANNOUNCE reads

ANNOUNCE takes a description as lines with values.  They are the strings at which the records
point once the parser has left the buffer. -/

set_option autoImplicit false

namespace AirCast.Raop

theorem ofBytes_terminated (memory : Bytes) :
    ∃ behind, memory ++ [0] = (CString.ofBytes memory).chars ++ 0 :: behind := by
  have cut := List.takeWhile_append_dropWhile (p := (· ≠ 0)) (l := memory)
  cases left : memory.dropWhile (· ≠ 0) with
  | nil =>
      rw [left, List.append_nil] at cut
      exact ⟨[], congrArg (· ++ [0]) cut.symm⟩
  | cons c rest =>
      have zero := List.head?_dropWhile_not (· ≠ 0) memory
      rw [left] at zero cut
      obtain rfl : c = 0 := by simpa using zero
      refine ⟨rest ++ [0], ?_⟩
      calc memory ++ [0]
          = (memory.takeWhile (· ≠ 0) ++ 0 :: rest) ++ [0] := congrArg (· ++ [0]) cut.symm
        _ = (CString.ofBytes memory).chars ++ 0 :: (rest ++ [0]) := by
            rw [List.append_assoc, List.cons_append]
            rfl

namespace SdpLine

theorem exists_lines {text : Bytes} (nulFree : (0 : UInt8) ∉ text) :
    ∃ (lines : List SdpLine) (tail : Bytes), text = lines.flatMap SdpLine.bytes ++ tail ∧
      ∀ c ∈ tail, c ≠ 0 ∧ c ≠ 10 := by
  induction text using List.reverseRecOn with
  | nil => exact ⟨[], [], rfl, by simp⟩
  | append_singleton text c ih =>
      rw [List.mem_append, not_or, List.mem_singleton] at nulFree
      obtain ⟨lines, tail, rfl, plain⟩ := ih nulFree.1
      by_cases feed : c = 10
      · subst feed
        have line : ∃ line : SdpLine, line.body = tail := by
          by_cases ends : tail.getLast? = some 13
          · obtain ⟨text, rfl⟩ := List.getLast?_eq_some_iff.mp ends
            exact ⟨⟨text, true, fun zero => (plain 0 (by simp [zero])).1 rfl,
              fun feed => (plain 10 (by simp [feed])).2 rfl, nofun⟩, rfl⟩
          · exact ⟨⟨tail, false, fun zero => (plain 0 zero).1 rfl,
              fun feed => (plain 10 feed).2 rfl, fun _ => ends⟩, List.append_nil _⟩
        obtain ⟨line, rfl⟩ := line
        exact ⟨lines ++ [line], [], by simp [bytes], by simp⟩
      · refine ⟨lines, tail ++ [c], by simp, fun d member => ?_⟩
        rcases List.mem_append.mp member with member | member
        · exact plain d member
        · obtain rfl := List.mem_singleton.mp member
          exact ⟨fun zero => nulFree.2 zero.symm, feed⟩

theorem dropCr_body (line : SdpLine) : dropCr line.body = line.text := by
  cases crlf : line.crlf with
  | true => simp [dropCr, body, crlf]
  | false => simp [dropCr, body, crlf, line.crFree crlf]

end SdpLine

theorem sdpLines_plain (front : Bytes) {body : Bytes} (lfFree : (10 : UInt8) ∉ body) :
    ∀ started : Bytes, sdpLines started (body ++ front) = sdpLines (started ++ body) front := by
  induction body with
  | nil => intro started; simp
  | cons c rest ih =>
      intro started
      rw [List.mem_cons, not_or] at lfFree
      rw [List.cons_append, sdpLines, if_neg fun feed => lfFree.1 feed.symm, ih lfFree.2,
        List.append_assoc]
      rfl

theorem sdpLines_lines (lines : List SdpLine) {tail : Bytes}
    (plain : ∀ c ∈ tail, c ≠ 0 ∧ c ≠ 10) :
    sdpLines [] (lines.flatMap SdpLine.bytes ++ tail) = lines.map SdpLine.text := by
  induction lines with
  | nil =>
      have none_ := sdpLines_plain [] (fun feed => (plain 10 feed).2 rfl) []
      rw [List.append_nil] at none_
      simpa [sdpLines] using none_
  | cons line lines ih =>
      have lfFree : (10 : UInt8) ∉ line.body := fun feed => (line.body_plain 10 feed).2 rfl
      rw [List.flatMap_cons, SdpLine.bytes, List.append_assoc, List.append_assoc,
        sdpLines_plain _ lfFree, List.nil_append, List.singleton_append, sdpLines, if_pos rfl,
        line.dropCr_body, ih, List.map_cons]

def SdpRecord.announced : List SdpRecord :=
  [.connection, .rtpmap, .fmtp, .rsaaeskey, .fpaeskey, .aesiv]

namespace SdpRecord

theorem text_uncoloned {record : SdpRecord} {text : Bytes} (absent : strstr (bytesOf ":") text = none) :
    record.text (97 :: 61 :: text) = none := by
  refine if_neg fun begins => ?_
  obtain ⟨key, named⟩ := key_of_start begins
  rw [(start_of_key named).1] at begins
  have member := begins.subset (show (58 : UInt8) ∈ 97 :: 61 :: key ++ [58] by simp)
  have colonFree : (58 : UInt8) ∉ text := strstr_byte_none.mp absent
  exact colonFree (by simpa using member)

theorem text_coloned {record : SdpRecord} {text key value : Bytes}
    (found : strstr (bytesOf ":") text = some (key, value)) :
    record.text (97 :: 61 :: text) = if record.key = some key then some value else none := by
  obtain ⟨rfl, colonFree⟩ := strstr_byte.mp (show strstr [58] text = some (key, value) from found)
  change record.text (97 :: 61 :: key ++ 58 :: value) = _
  by_cases named : record.key = some key
  · rw [if_pos named, SdpRecord.text, if_pos ((start_attribute colonFree).mpr named),
      (start_of_key named).1]
    simp
  · rw [if_neg named]
    exact if_neg fun begins => named ((start_attribute colonFree).mp begins)

theorem value_nulFree {record : SdpRecord} {lines : List Bytes} {value : Bytes}
    (nulFree : ∀ line ∈ lines, (0 : UInt8) ∉ line) (found : record.value lines = some value) :
    (0 : UInt8) ∉ value := by
  obtain ⟨line, member, text⟩ : ∃ line ∈ lines, record.text line = some value := by
    rw [SdpRecord.value] at found
    split at found
    · exact List.exists_of_findSome?_eq_some found
    · obtain ⟨line, member, text⟩ := List.exists_of_findSome?_eq_some found
      exact ⟨line, List.mem_reverse.mp member, text⟩
  rw [SdpRecord.text] at text
  split at text
  · obtain rfl := Option.some.inj text
    exact fun zero => nulFree line member (List.mem_of_mem_drop zero)
  · cases text

end SdpRecord

namespace Sdp

def get (sdp : Sdp) : SdpRecord → Option CString
  | .connection => sdp.connection
  | .rtpmap => sdp.rtpmap
  | .fmtp => sdp.fmtp
  | .rsaaeskey => sdp.rsaaeskey
  | .fpaeskey => sdp.fpaeskey
  | .aesiv => sdp.aesiv
  | _ => none

theorem setAttribute_get (sdp : Sdp) (key value : Bytes) {record : SdpRecord}
    (asked : record ∈ SdpRecord.announced) :
    (sdp.setAttribute key value).get record =
      if record.key = some key ∧ ¬ (record.keepsFirst ∧ (sdp.get record).isSome) then
        some (CString.ofBytes value)
      else sdp.get record := by
  simp only [SdpRecord.announced, List.mem_cons, List.not_mem_nil, or_false] at asked
  rw [setAttribute]
  split_ifs with rtpmap fmtp rsaaeskey fpaeskey aesiv <;>
    rcases asked with rfl | rfl | rfl | rfl | rfl | rfl <;>
    simp_all +decide [get, SdpRecord.key]

/-- A line gives its record the value that is kept. -/
theorem parseSdpLine_get (sdp : Sdp) (line : Bytes) {record : SdpRecord}
    (asked : record ∈ SdpRecord.announced) :
    (parseSdpLine sdp line).get record =
      if record.keepsFirst then (sdp.get record).or ((record.text line).map CString.ofBytes)
      else ((record.text line).map CString.ofBytes).or (sdp.get record) := by
  have plain : record.text line = none → (parseSdpLine sdp line).get record = sdp.get record →
      (parseSdpLine sdp line).get record =
        if record.keepsFirst then (sdp.get record).or ((record.text line).map CString.ofBytes)
        else ((record.text line).map CString.ofBytes).or (sdp.get record) := by
    intro other same
    rw [other, same]
    cases record.keepsFirst <;> simp
  unfold parseSdpLine at plain ⊢
  split at plain
  next value =>
    by_cases same : record = .connection
    · subst same
      rfl
    · refine plain (if_neg fun begins => same (SdpRecord.start_inj begins ⟨value, rfl⟩)) ?_
      cases record <;> first | rfl | exact absurd rfl same
  next text =>
    cases found : strstr (bytesOf ":") text with
    | none =>
        rw [found] at plain
        exact plain (SdpRecord.text_uncoloned found) rfl
    | some parts =>
        obtain ⟨key, value⟩ := parts
        dsimp only
        rw [setAttribute_get sdp key value asked, SdpRecord.text_coloned found]
        by_cases named : record.key = some key
        · cases record.keepsFirst <;> cases sdp.get record <;> simp [named]
        · cases record.keepsFirst <;> simp [named]
  next connection other =>
    refine plain (if_neg fun begins => ?_) rfl
    obtain ⟨rest, rfl⟩ := begins
    simp only [SdpRecord.announced, List.mem_cons, List.not_mem_nil, or_false] at asked
    rcases asked with rfl | rfl | rfl | rfl | rfl | rfl
    · exact connection rest rfl
    all_goals exact other _ rfl

theorem get_parseSdpLine {record : SdpRecord} (asked : record ∈ SdpRecord.announced)
    (lines : List Bytes) :
    (lines.foldl parseSdpLine .empty).get record = (record.value lines).map CString.ofBytes := by
  induction lines using List.reverseRecOn with
  | nil => cases record <;> rfl
  | append_singleton lines line ih =>
      rw [List.foldl_append, List.foldl_cons, List.foldl_nil, parseSdpLine_get _ _ asked, ih,
        SdpRecord.value_snoc]
      cases record.keepsFirst <;> cases record.value lines <;> cases record.text line <;> rfl

end Sdp

theorem sdpInit_parsed (sdpdata : Bytes) :
    ∃ sdp : SdpBuffer, SdpBuffer.parseSdpData.Ends (SdpBuffer.init sdpdata) () sdp ∧
      ∀ record ∈ SdpRecord.announced,
        sdp.get record = ((sdpInit sdpdata).get record).map CString.chars := by
  obtain ⟨lines, tail, cut, plain⟩ := SdpLine.exists_lines (CString.ofBytes sdpdata).nulFree
  obtain ⟨behind, whole⟩ : ∃ behind,
      sdpdata ++ [0] = lines.flatMap SdpLine.bytes ++ tail ++ 0 :: behind := by
    obtain ⟨behind, split⟩ := ofBytes_terminated sdpdata
    exact ⟨behind, by rw [split, cut]⟩
  obtain ⟨sdp, ends, values⟩ := SdpBuffer.parseSdpData_text lines tail behind plain
  rw [← whole] at ends
  refine ⟨sdp, ends, fun record asked => ?_⟩
  rw [values, sdpInit, cut, sdpLines_lines lines plain, Sdp.get_parseSdpLine asked]
  cases found : record.value (lines.map SdpLine.text) with
  | none => rfl
  | some value =>
      have nulFree := SdpRecord.value_nulFree (fun line member => by
        obtain ⟨line, -, rfl⟩ := List.mem_map.mp member
        exact line.nulFree) found
      exact congrArg some (CString.ofBytes_chars nulFree).symm

end AirCast.Raop
