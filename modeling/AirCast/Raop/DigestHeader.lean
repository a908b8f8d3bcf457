import AirCast.Raop.Digest

/-! # What the digest check accepts

Headers made of fields with spaces around them, quoted or not, in any order.  Of a name that
is repeated the last quoted value counts. -/

set_option autoImplicit false

namespace AirCast.Raop

open AirCast.Http

inductive DigestParam where
  | quoted (name value : Bytes)
  | unquoted (text : Bytes)
  deriving DecidableEq

namespace DigestParam

def text : DigestParam → Bytes
  | quoted name value => name ++ 61 :: 34 :: (value ++ [34])
  | unquoted text => text

/-- No quotes and no commas inside; the spaces before a name belong to the field. -/
def WellFormed : DigestParam → Prop
  | quoted name value => (34 ∉ name ∧ 44 ∉ name ∧ name.head? ≠ some space) ∧ 34 ∉ value ∧ 44 ∉ value
  | unquoted text => 34 ∉ text ∧ 44 ∉ text

instance : DecidablePred WellFormed := fun param => by
  cases param <;> unfold WellFormed <;> infer_instance

end DigestParam

structure DigestField where
  before : ℕ
  param : DigestParam
  behind : ℕ
  wellFormed : param.WellFormed

namespace DigestField

def text (field : DigestField) : Bytes :=
  List.replicate field.before space ++ (field.param.text ++ List.replicate field.behind space)

def valueOf (name : Bytes) (field : DigestField) : Option Bytes :=
  match field.param with
  | .quoted other value => if other = name then some value else none
  | .unquoted _ => none

end DigestField

def commaJoin : List Bytes → Bytes
  | [] => []
  | [text] => text
  | text :: rest => text ++ 44 :: commaJoin rest

def lastValue (name : String) (fields : List DigestField) : Option Bytes :=
  fields.reverse.findSome? (DigestField.valueOf (bytesOf name))

def lowerHex (bytes : Bytes) : Bytes :=
  bytes.flatMap fun b =>
    [(bytesOf "0123456789abcdef").getD (b.toNat / 16) 0,
      (bytesOf "0123456789abcdef").getD (b.toNat % 16) 0]

def expectedResponse (md5 : Bytes → Bytes) (username realm password nonce method uri : Bytes) :
    Bytes :=
  lowerHex (md5 (lowerHex (md5 (username ++ bytesOf ":" ++ realm ++ bytesOf ":" ++ password)) ++
    bytesOf ":" ++ nonce ++ bytesOf ":" ++ lowerHex (md5 (method ++ bytesOf ":" ++ uri))))

theorem digestMd5ToHex_eq (md5buf : Bytes) : digestMd5ToHex md5buf = lowerHex md5buf := by
  have digits : ∀ b : UInt8, [hexDigit ((b &&& 0xf0) >>> 4), hexDigit (b &&& 0x0f)] =
      [(bytesOf "0123456789abcdef").getD (b.toNat / 16) 0,
        (bytesOf "0123456789abcdef").getD (b.toNat % 16) 0] := by
    decide +kernel
  exact congrArg (fun write => md5buf.flatMap write) (funext digits)

theorem digestGetResponse_eq (md5 : Bytes → Bytes)
    (username realm password nonce method uri : Bytes) :
    digestGetResponse md5 username realm password nonce method uri =
      expectedResponse md5 username realm password nonce method uri := by
  simp only [digestGetResponse, colonJoin, digestMd5ToHex_eq, expectedResponse, List.append_assoc]

theorem commaJoin_cons (text : Bytes) {rest : List Bytes} (more : rest ≠ []) :
    commaJoin (text :: rest) = text ++ 44 :: commaJoin rest := by
  cases rest with
  | nil => exact absurd rfl more
  | cons next rest => rfl

theorem length_le_commaJoin (texts : List Bytes) : texts.length ≤ (commaJoin texts).length + 1 := by
  induction texts using commaJoin.induct with
  | case1 => exact Nat.zero_le _
  | case2 text => simp [commaJoin]
  | case3 text rest more ih =>
      rw [commaJoin_cons text more]
      simp only [List.length_cons, List.length_append]
      omega

theorem strsepAll_commaJoin (texts : List Bytes) : ∀ fuel : ℕ, texts ≠ [] → texts.length ≤ fuel →
    (∀ text ∈ texts, (44 : UInt8) ∉ text) →
      strsepAll (bytesOf ",") fuel (some (commaJoin texts)) = texts := by
  have delim : bytesOf "," = [44] := by decide
  induction texts using commaJoin.induct with
  | case1 => intro fuel some; exact absurd rfl some
  | case2 text =>
      intro fuel _ enough plain
      obtain ⟨fuel, rfl⟩ := Nat.exists_eq_add_one.mpr enough
      have whole : strstr (bytesOf ",") text = none := by
        rw [delim]
        exact strstr_byte_none.mpr (plain text (List.mem_singleton_self text))
      have done : strsepAll (bytesOf ",") fuel none = [] := by cases fuel <;> rfl
      rw [commaJoin, strsepAll, utilsStrsep, whole]
      simp only [done]
  | case3 text rest more ih =>
      intro fuel _ enough plain
      obtain ⟨fuel, rfl⟩ := Nat.exists_eq_add_one.mpr (Nat.zero_lt_of_lt enough)
      have cut : strstr (bytesOf ",") (text ++ 44 :: commaJoin rest) =
          some (text, commaJoin rest) := by
        rw [delim]
        exact strstr_byte.mpr ⟨rfl, plain text List.mem_cons_self⟩
      have later := ih fuel more (Nat.le_of_succ_le_succ enough) fun text member =>
        plain text (List.mem_cons_of_mem _ member)
      rw [commaJoin_cons text more, strsepAll, utilsStrsep, cut]
      simp only [later]

theorem dropWhile_spaces (count : ℕ) {c : UInt8} (rest : Bytes) (other : c ≠ space) :
    (List.replicate count space ++ c :: rest).dropWhile (· = space) = c :: rest := by
  induction count with
  | zero => simp [other]
  | succ count ih => simpa [List.replicate_succ] using ih

/-- What is left of a field that begins with another character than a space and ends with a
quote. -/
theorem trimSpaces_quoted (before behind : ℕ) {c : UInt8} (middle : Bytes) (other : c ≠ space) :
    trimSpaces (List.replicate before space ++
      (c :: (middle ++ [34]) ++ List.replicate behind space)) = c :: (middle ++ [34]) := by
  have leading : ∀ rest : Bytes, ∀ last : UInt8,
      ((List.replicate before space ++ c :: (rest ++ [last])).dropLast.dropWhile (· = space)) ++
        (List.replicate before space ++ c :: (rest ++ [last])).getLast?.toList =
          c :: (rest ++ [last]) := by
    intro rest last
    have split : List.replicate before space ++ c :: (rest ++ [last]) =
        (List.replicate before space ++ c :: rest) ++ [last] := by simp
    rw [split, List.dropLast_concat, List.getLast?_concat, dropWhile_spaces _ _ other]
    rfl
  have trailing : ((middle ++ [34] ++ List.replicate behind space).reverse.dropWhile
      (· = space)).reverse = middle ++ [34] := by
    rw [List.reverse_append, List.reverse_replicate, List.reverse_append, List.reverse_singleton,
      List.singleton_append, dropWhile_spaces _ _ (by decide), List.reverse_cons,
      List.reverse_reverse]
  rw [trimSpaces]
  cases behind with
  | zero =>
      rw [List.replicate_zero, List.append_nil] at trailing ⊢
      rw [leading]
      simp only [trailing]
  | succ behind =>
      have last : c :: (middle ++ [34]) ++ List.replicate (behind + 1) space =
          c :: (middle ++ [34] ++ List.replicate behind space ++ [space]) := by
        simp [List.replicate_succ']
      rw [List.replicate_succ', ← List.append_assoc] at trailing
      rw [last, leading]
      simp only [trailing]

theorem mem_of_trimSpaces {c : UInt8} {value : Bytes} (member : c ∈ trimSpaces value) :
    c ∈ value := by
  have front : ∀ d, d ∈ value.dropLast.dropWhile (· = space) ++ value.getLast?.toList →
      d ∈ value := by
    intro d listed
    rcases List.mem_append.mp listed with listed | listed
    · exact List.dropLast_subset _ ((List.dropWhile_sublist _).subset listed)
    · exact List.mem_of_getLast? (Option.mem_toList.mp listed)
  rw [trimSpaces] at member
  cases trimmed : value.dropLast.dropWhile (· = space) ++ value.getLast?.toList with
  | nil =>
      rw [trimmed] at member
      exact absurd member List.not_mem_nil
  | cons first rest =>
      rw [trimmed] at member front
      rcases List.mem_cons.mp member with rfl | member
      · exact front c List.mem_cons_self
      · have listed := (List.dropWhile_sublist _).subset (List.mem_reverse.mp member)
        exact front c (List.mem_cons_of_mem _ (List.mem_reverse.mp listed))

theorem unquote_plain {value : Bytes} (plain : (34 : UInt8) ∉ value) : unquote value = none := by
  rw [unquote, if_neg]
  intro last
  exact plain (mem_of_trimSpaces (List.mem_of_getLast? last))

theorem unquote_quoted (before behind : ℕ) {name value : Bytes}
    (first : name.head? ≠ some space) :
    unquote (List.replicate before space ++
      ((DigestParam.quoted name value).text ++ List.replicate behind space)) =
        some (name ++ 61 :: 34 :: value) := by
  have shape : ∃ c middle, c ≠ space ∧ name ++ 61 :: 34 :: value = c :: middle := by
    cases name with
    | nil => exact ⟨61, 34 :: value, by decide, rfl⟩
    | cons c name => exact ⟨c, name ++ 61 :: 34 :: value, by simpa using first, rfl⟩
  obtain ⟨c, middle, other, split⟩ := shape
  have text : (DigestParam.quoted name value).text = c :: (middle ++ [34]) := by
    rw [← List.cons_append, ← split]
    simp [DigestParam.text]
  rw [text, unquote, trimSpaces_quoted before behind middle other, split]
  simp only [← List.cons_append, List.getLast?_concat, List.dropLast_concat, if_true]

/-- A label is a name up to the opening quote. -/
theorem after_label {label : String} (key : Bytes) {name : Bytes} (value : Bytes)
    (spelled : bytesOf label = key ++ [61, 34]) (keyPlain : (34 : UInt8) ∉ key)
    (namePlain : (34 : UInt8) ∉ name) :
    after label (name ++ 61 :: 34 :: value) = if name = key then some value else none := by
  rw [after, spelled]
  by_cases same : name = key
  · subst same
    have begins : (name ++ [61, 34]).isPrefixOf (name ++ 61 :: 34 :: value) = true :=
      List.isPrefixOf_iff_prefix.mpr ⟨value, by simp⟩
    have rest : (name ++ 61 :: 34 :: value).drop (name ++ [61, 34]).length = value := by
      rw [show name ++ 61 :: 34 :: value = (name ++ [61, 34]) ++ value by simp, List.drop_left]
    rw [if_pos begins, if_pos rfl, rest]
  · rw [if_neg same, if_neg]
    intro begins
    obtain ⟨rest, split⟩ := List.isPrefixOf_iff_prefix.mp begins
    have beforeQuote : ∀ front back : Bytes, (34 : UInt8) ∉ front →
        (front ++ 61 :: 34 :: back).takeWhile (· ≠ 34) = front ++ [61] := by
      intro front back plain
      rw [show front ++ 61 :: 34 :: back = (front ++ [61]) ++ 34 :: back by simp,
        List.takeWhile_append_of_pos]
      · simp
      · intro c member
        simp only [List.mem_append, List.mem_singleton] at member
        rcases member with member | rfl
        · simpa using fun equal : c = 34 => plain (equal ▸ member)
        · decide
    have heads := congrArg (List.takeWhile (· ≠ 34)) split
    rw [List.append_assoc, show [61, 34] ++ rest = 61 :: 34 :: rest from rfl,
      beforeQuote key rest keyPlain, beforeQuote name value namePlain] at heads
    exact same (List.append_cancel_right heads).symm

theorem notMem_spaces {c : UInt8} (count : ℕ) (other : c ≠ space) :
    c ∉ List.replicate count space := fun member => other (List.eq_of_mem_replicate member)

/-- A field replaces the value under its name and no other one. -/
theorem storeField_text (fields : DigestFields) (field : DigestField) :
    storeField fields field.text =
      ⟨(field.valueOf (bytesOf "username")).or fields.username,
        (field.valueOf (bytesOf "realm")).or fields.realm,
        (field.valueOf (bytesOf "nonce")).or fields.nonce,
        (field.valueOf (bytesOf "uri")).or fields.uri,
        (field.valueOf (bytesOf "response")).or fields.response⟩ := by
  obtain ⟨before, param, behind, wellFormed⟩ := field
  cases param with
  | unquoted text =>
      have plain : (34 : UInt8) ∉ DigestField.text ⟨before, .unquoted text, behind, wellFormed⟩ := by
        simp only [DigestField.text, DigestParam.text, List.mem_append, not_or]
        exact ⟨notMem_spaces _ (by decide), wellFormed.1, notMem_spaces _ (by decide)⟩
      rw [storeField, unquote_plain plain]
      rfl
  | quoted name value =>
      have namePlain := wellFormed.1.1
      have first := wellFormed.1.2.2
      have text : unquote (DigestField.text ⟨before, .quoted name value, behind, wellFormed⟩) =
          some (name ++ 61 :: 34 :: value) := unquote_quoted before behind first
      have username : after "username=\"" (name ++ 61 :: 34 :: value) =
          if name = bytesOf "username" then some value else none :=
        after_label _ value (by decide) (by decide) namePlain
      have realm : after "realm=\"" (name ++ 61 :: 34 :: value) =
          if name = bytesOf "realm" then some value else none :=
        after_label _ value (by decide) (by decide) namePlain
      have nonce : after "nonce=\"" (name ++ 61 :: 34 :: value) =
          if name = bytesOf "nonce" then some value else none :=
        after_label _ value (by decide) (by decide) namePlain
      have uri : after "uri=\"" (name ++ 61 :: 34 :: value) =
          if name = bytesOf "uri" then some value else none :=
        after_label _ value (by decide) (by decide) namePlain
      have response : after "response=\"" (name ++ 61 :: 34 :: value) =
          if name = bytesOf "response" then some value else none :=
        after_label _ value (by decide) (by decide) namePlain
      rw [storeField, text]
      simp only [username, realm, nonce, uri, response, DigestField.valueOf]
      by_cases ofUsername : name = bytesOf "username"
      · subst ofUsername
        rfl
      by_cases ofRealm : name = bytesOf "realm"
      · subst ofRealm
        rfl
      by_cases ofNonce : name = bytesOf "nonce"
      · subst ofNonce
        rfl
      by_cases ofUri : name = bytesOf "uri"
      · subst ofUri
        rfl
      by_cases ofResponse : name = bytesOf "response"
      · subst ofResponse
        rfl
      simp only [if_neg ofUsername, if_neg ofRealm, if_neg ofNonce, if_neg ofUri,
        if_neg ofResponse, Option.none_or]

theorem lastValue_concat (name : String) (fields : List DigestField) (field : DigestField) :
    lastValue name (fields ++ [field]) =
      (field.valueOf (bytesOf name)).or (lastValue name fields) := by
  rw [lastValue, List.reverse_append, List.reverse_singleton, List.singleton_append,
    List.findSome?_cons, lastValue]
  cases field.valueOf (bytesOf name) <;> rfl

theorem storeFields (fields : List DigestField) :
    (fields.map DigestField.text).foldl storeField .empty =
      ⟨lastValue "username" fields, lastValue "realm" fields, lastValue "nonce" fields,
        lastValue "uri" fields, lastValue "response" fields⟩ := by
  induction fields using List.reverseRecOn with
  | nil => rfl
  | append_singleton fields field ih =>
      rw [List.map_append, List.map_singleton, List.foldl_append, ih, List.foldl_cons,
        List.foldl_nil, storeField_text]
      simp only [lastValue_concat]

theorem commaFree (field : DigestField) : (44 : UInt8) ∉ field.text := by
  obtain ⟨before, param, behind, wellFormed⟩ := field
  simp only [DigestField.text, List.mem_append, not_or]
  refine ⟨notMem_spaces _ (by decide), ?_, notMem_spaces _ (by decide)⟩
  cases param with
  | quoted name value =>
      obtain ⟨⟨_, name, _⟩, _, value⟩ := wellFormed
      simp [DigestParam.text, name, value]
  | unquoted text => exact wellFormed.2

theorem digestFields_header (fields : List DigestField) :
    digestFields (commaJoin (fields.map DigestField.text)) =
      ⟨lastValue "username" fields, lastValue "realm" fields, lastValue "nonce" fields,
        lastValue "uri" fields, lastValue "response" fields⟩ := by
  cases fields with
  | nil => decide
  | cons field rest =>
      have count := length_le_commaJoin ((field :: rest).map DigestField.text)
      have plain : ∀ text ∈ (field :: rest).map DigestField.text, (44 : UInt8) ∉ text := by
        intro text member
        obtain ⟨field, -, rfl⟩ := List.mem_map.mp member
        exact commaFree field
      rw [digestFields, strsepAll_commaJoin _ _ (by simp) count plain, storeFields]

/-- A header is accepted just if all five names are quoted in it, the last values under them
are ours, and the response is the one of the password. -/
theorem digestIsValid_header (md5 : Bytes → Bytes) (ourRealm password ourNonce method : CString)
    (ourUri : Bytes) (fields : List DigestField) (authorization : CString)
    (header : authorization.chars = bytesOf "Digest" ++ commaJoin (fields.map DigestField.text)) :
    ∃ valid, digestIsValid md5 ourRealm password ourNonce method (some ourUri)
        (some authorization) = .ok valid ∧
      (valid = true ↔ ∃ username realm nonce uri response,
        lastValue "username" fields = some username ∧ lastValue "realm" fields = some realm ∧
          lastValue "nonce" fields = some nonce ∧ lastValue "uri" fields = some uri ∧
            lastValue "response" fields = some response ∧
              (realm = ourRealm.chars ∧ nonce = ourNonce.chars ∧ uri = ourUri) ∧
                response = expectedResponse md5 username realm password.chars nonce method.chars
                  uri) := by
  have digest : after "Digest" authorization.chars =
      some (commaJoin (fields.map DigestField.text)) := by
    rw [header, after, if_pos (List.isPrefixOf_iff_prefix.mpr (List.prefix_append _ _)),
      List.drop_left]
  simp only [digestIsValid, digest, digestFields_header]
  generalize lastValue "username" fields = username, lastValue "realm" fields = realm,
    lastValue "nonce" fields = nonce, lastValue "uri" fields = uri,
    lastValue "response" fields = response
  have missing : ∀ found : Prop, ¬ found → ∃ valid, (Except.ok false : Except Fault Bool) = .ok valid ∧
      (valid = true ↔ found) := fun found absent => ⟨false, rfl, iff_of_false (by decide) absent⟩
  cases username with
  | none => exact missing _ (by simp)
  | some username =>
  cases realm with
  | none => exact missing _ (by simp)
  | some realm =>
  cases nonce with
  | none => exact missing _ (by simp)
  | some nonce =>
  cases uri with
  | none => exact missing _ (by simp)
  | some uri =>
  cases response with
  | none => exact missing _ (by simp)
  | some response =>
      have told : (∃ username' realm' nonce' uri' response', some username = some username' ∧
          some realm = some realm' ∧ some nonce = some nonce' ∧ some uri = some uri' ∧
            some response = some response' ∧
              (realm' = ourRealm.chars ∧ nonce' = ourNonce.chars ∧ uri' = ourUri) ∧
                response' = expectedResponse md5 username' realm' password.chars nonce' method.chars
                  uri') ↔
          (realm = ourRealm.chars ∧ nonce = ourNonce.chars ∧ uri = ourUri) ∧
            response = expectedResponse md5 username realm password.chars nonce method.chars uri := by
        constructor
        · rintro ⟨_, _, _, _, _, ⟨⟩, ⟨⟩, ⟨⟩, ⟨⟩, ⟨⟩, same⟩
          exact same
        · exact fun same => ⟨_, _, _, _, _, rfl, rfl, rfl, rfl, rfl, same⟩
      simp only [digestGetResponse_eq]
      rw [told]
      by_cases ours : realm ≠ ourRealm.chars ∨ nonce ≠ ourNonce.chars
      · rw [if_pos ours]
        refine missing _ fun same => ?_
        rcases ours with other | other
        · exact other same.1.1
        · exact other same.1.2.1
      · rw [if_neg ours]
        obtain ⟨sameRealm, sameNonce⟩ := not_or.mp ours
        by_cases sameUri : uri ≠ ourUri
        · rw [if_pos sameUri]
          exact missing _ fun same => sameUri same.1.2.2
        · rw [if_neg sameUri]
          refine ⟨_, rfl, ?_⟩
          rw [decide_eq_true_iff]
          exact ⟨fun same => ⟨⟨not_not.mp sameRealm, not_not.mp sameNonce, not_not.mp sameUri⟩, same⟩,
            fun same => same.2⟩

/-- Five quoted fields, a realm that is replaced and a parameter without quotes. -/
def mixedFields : List DigestField :=
  [⟨1, .quoted (bytesOf "realm") (bytesOf "other"), 0, by decide⟩,
    ⟨0, .quoted (bytesOf "uri") (bytesOf "/"), 2, by decide⟩,
    ⟨2, .unquoted (bytesOf "algorithm=MD5"), 1, by decide⟩,
    ⟨0, .quoted (bytesOf "realm") (bytesOf "tv"), 0, by decide⟩,
    ⟨1, .quoted (bytesOf "nonce") (bytesOf "n"), 0, by decide⟩,
    ⟨0, .quoted (bytesOf "response") (bytesOf "46"), 0, by decide⟩,
    ⟨1, .quoted (bytesOf "username") (bytesOf "u"), 1, by decide⟩]

theorem mixedFields_accepted :
    digestIsValid (fun updates => [UInt8.ofNat (10 * updates.length)]) (.lit "tv") (.lit "pw")
      (.lit "n") (.lit "GET") (some (bytesOf "/"))
      (some (.ofBytes (bytesOf "Digest" ++ commaJoin (mixedFields.map DigestField.text)))) =
        .ok true := by
  obtain ⟨valid, checked, exactly⟩ := digestIsValid_header
    (fun updates => [UInt8.ofNat (10 * updates.length)]) (.lit "tv") (.lit "pw") (.lit "n")
    (.lit "GET") (bytesOf "/") mixedFields
    (.ofBytes (bytesOf "Digest" ++ commaJoin (mixedFields.map DigestField.text))) (by decide)
  rw [checked, exactly.mpr ⟨bytesOf "u", bytesOf "tv", bytesOf "n", bytesOf "/", bytesOf "46",
    by decide, by decide, by decide, by decide, by decide,
    by decide, by decide⟩]

end AirCast.Raop
