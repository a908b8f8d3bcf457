import AirCast.Center.XmlContent

/-! # Ampersands in character data

Text whose ampersands are all escaped stands for itself, up to its line ends; text that
still has a bare ampersand never does, since each reference is longer than its character. -/

set_option autoImplicit false

namespace AirCast.Center

def escaped (text : JString) : JString := JString.replaceChar text '&' ['&', 'a', 'm', 'p', ';']

section escaped

theorem escaped_amp (text : JString) :
    escaped ('&' :: text) = '&' :: 'a' :: 'm' :: 'p' :: ';' :: escaped text := rfl

theorem escaped_cons {c : Char} (other : c ≠ '&') (text : JString) :
    escaped (c :: text) = c :: escaped text := by
  rw [escaped, JString.replaceChar, List.flatMap_cons, if_neg other]
  rfl

theorem escaped_of_notMem {text : JString} (free : '&' ∉ text) : escaped text = text := by
  induction text with
  | nil => rfl
  | cons c text ih =>
      rw [List.mem_cons, not_or] at free
      rw [escaped_cons (Ne.symm free.1), ih free.2]

theorem escaped_append (text other : JString) :
    escaped (text ++ other) = escaped text ++ escaped other := List.flatMap_append

theorem normalizeLines_escaped : ∀ (text : JString) (behind : Bool),
    normalizeLines behind (escaped text) = escaped (normalizeLines behind text) := by
  intro text
  induction text with
  | nil => intro behind; rfl
  | cons c text ih =>
      intro behind
      by_cases amp : c = '&'
      · subst amp
        simp [escaped_amp, normalizeLines, ih]
      · rw [escaped_cons amp, normalizeLines, normalizeLines]
        split_ifs
        · rw [escaped_cons (by decide), ih]
        · rw [ih]
        · rw [escaped_cons amp, ih]

theorem expand_escaped (text : JString) : expand none (escaped text) = some text := by
  induction text with
  | nil => rfl
  | cons c text ih =>
      by_cases amp : c = '&'
      · subst amp
        rw [escaped_amp]
        simp [expand, reference, ih]
      · rw [escaped_cons amp, expand, if_neg amp, ih]
        rfl

theorem prefix_escaped : ∀ {pattern text : JString}, '&' ∉ pattern →
    (pattern <+: escaped text ↔ pattern <+: text) := by
  intro pattern
  induction pattern with
  | nil => intro text _; simp
  | cons d pattern ih =>
      intro text free
      rw [List.mem_cons, not_or] at free
      cases text with
      | nil => rfl
      | cons c text =>
          by_cases amp : c = '&'
          · subst amp
            rw [escaped_amp, List.cons_prefix_cons, List.cons_prefix_cons]
            simp [Ne.symm free.1]
          · rw [escaped_cons amp, List.cons_prefix_cons, List.cons_prefix_cons, ih free.2]

theorem infix_escaped (text : JString) :
    [']', ']', '>'] <:+: escaped text ↔ [']', ']', '>'] <:+: text := by
  induction text with
  | nil => rfl
  | cons c text ih =>
      by_cases amp : c = '&'
      · subst amp
        simp [escaped_amp, List.infix_cons_iff, List.cons_prefix_cons, ih]
      · have begins := @prefix_escaped [']', ']', '>'] (c :: text) (by decide)
        rw [escaped_cons amp] at begins ⊢
        rw [List.infix_cons_iff, List.infix_cons_iff, ih, begins]

theorem all_escaped (text : JString) : (escaped text).all isXmlChar = text.all isXmlChar := by
  induction text with
  | nil => rfl
  | cons c text ih =>
      by_cases amp : c = '&'
      · subst amp
        rw [escaped_amp]
        simp only [List.all_cons, ih]
        rfl
      · rw [escaped_cons amp, List.all_cons, List.all_cons, ih]

theorem charData_escaped (text : JString) :
    charData (escaped text) =
      if (normalizeLines false text).all isXmlChar ∧
          ¬ [']', ']', '>'] <:+: normalizeLines false text then
        some (normalizeLines false text)
      else none := by
  rw [charData, normalizeLines_escaped, expand_escaped]
  simp only [all_escaped, infix_escaped]

theorem return_notMem : ∀ (text : JString) (behind : Bool), '\r' ∉ normalizeLines behind text := by
  intro text
  induction text with
  | nil => intro behind; simp [normalizeLines]
  | cons c text ih =>
      intro behind
      rw [normalizeLines]
      split_ifs with isReturn
      · simp [ih]
      · exact ih false
      · simp [ih, Ne.symm isReturn]

theorem normalizeLines_of_notMem {text : JString} (free : '\r' ∉ text) :
    normalizeLines false text = text := by
  induction text with
  | nil => rfl
  | cons c text ih =>
      rw [List.mem_cons, not_or] at free
      rw [normalizeLines, if_neg (Ne.symm free.1), if_neg (by simp), ih free.2]

theorem charData_escaped_iff (text : JString) :
    charData (escaped text) = some text ↔
      '\r' ∉ text ∧ ¬ [']', ']', '>'] <:+: text ∧ text.all isXmlChar = true := by
  rw [charData_escaped]
  constructor
  · intro kept
    split_ifs at kept with valid
    have same := Option.some.inj kept
    have free := return_notMem text false
    rw [same] at valid free
    exact ⟨free, valid.2, valid.1⟩
  · rintro ⟨free, open_end, valid⟩
    rw [normalizeLines_of_notMem free, if_pos ⟨valid, open_end⟩]

end escaped

section references

theorem expand_length : ∀ (text : JString), (∀ value, expand none text = some value →
    List.length value ≤ List.length text) ∧ ∀ name value, expand (some name) text = some value →
      List.length value ≤ List.length text := by
  intro text
  induction text with
  | nil =>
      refine ⟨fun value found => ?_, fun name value found => ?_⟩
      · rw [← Option.some.inj found]
      · cases found
  | cons c text ih =>
      refine ⟨fun value found => ?_, fun name value found => ?_⟩
      · rw [expand] at found
        split_ifs at found
        · exact (ih.2 [] value found).trans (Nat.le_succ _)
        · obtain ⟨rest, inside, rfl⟩ := Option.map_eq_some_iff.mp found
          exact Nat.succ_le_succ (ih.1 rest inside)
      · rw [expand] at found
        split_ifs at found
        · obtain ⟨d, _, more⟩ := Option.bind_eq_some_iff.mp found
          obtain ⟨rest, inside, rfl⟩ := Option.map_eq_some_iff.mp more
          exact Nat.succ_le_succ (ih.1 rest inside)
        · exact (ih.2 _ value found).trans (Nat.le_succ _)

theorem expand_shorter : ∀ {text value : JString}, '&' ∈ text →
    expand none text = some value → List.length value < List.length text := by
  intro text
  induction text with
  | nil => intro value member; simp at member
  | cons c text ih =>
      intro value member found
      rw [expand] at found
      split_ifs at found with amp
      · exact Nat.lt_succ_of_le ((expand_length text).2 [] value found)
      · obtain ⟨rest, inside, rfl⟩ := Option.map_eq_some_iff.mp found
        have later := (List.mem_cons.mp member).resolve_left (Ne.symm amp)
        exact Nat.succ_lt_succ (ih later inside)

theorem normalizeLines_length : ∀ (text : JString) (behind : Bool),
    List.length (normalizeLines behind text) ≤ List.length text := by
  intro text
  induction text with
  | nil => intro behind; exact le_rfl
  | cons c text ih =>
      intro behind
      rw [normalizeLines]
      split_ifs
      · exact Nat.succ_le_succ (ih true)
      · exact (ih false).trans (Nat.le_succ _)
      · exact Nat.succ_le_succ (ih false)

theorem amp_mem_normalizeLines : ∀ {text : JString} {behind : Bool}, '&' ∈ text →
    '&' ∈ normalizeLines behind text := by
  intro text
  induction text with
  | nil => intro behind member; simp at member
  | cons c text ih =>
      intro behind member
      rw [normalizeLines]
      rcases List.mem_cons.mp member with rfl | later
      · simp
      · split_ifs
        · exact List.mem_cons_of_mem _ (ih later)
        · exact ih later
        · exact List.mem_cons_of_mem _ (ih later)

theorem charData_ne {text : JString} (amp : '&' ∈ text) : charData text ≠ some text := by
  intro kept
  rw [charData] at kept
  split_ifs at kept
  have shorter := expand_shorter (amp_mem_normalizeLines amp) kept
  exact absurd (normalizeLines_length text false) (not_le.mpr shorter)

end references

end AirCast.Center
