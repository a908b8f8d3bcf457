import AirCast.Music.LyricView

/-! # The lyric index

After a read the map holds the last entry of every time, numbered from zero in the
order of the times, so that counting the earlier ones finds the current one. -/

set_option autoImplicit false

namespace AirCast.Music

def lastEntry (entries : List LyricObject) (time : ℤ) : Option LyricObject :=
  entries.reverse.find? fun item => decide (item.begintime = time)

theorem lastEntry_concat (entries : List LyricObject) (item : LyricObject) (time : ℤ) :
    lastEntry (entries ++ [item]) time =
      if item.begintime = time then some item else lastEntry entries time := by
  rw [lastEntry, List.reverse_concat, List.find?_cons]
  by_cases same : item.begintime = time
  · simp [same]
  · simp [same, lastEntry]

theorem lastEntry_begintime {entries : List LyricObject} {time : ℤ} {item : LyricObject}
    (last : lastEntry entries time = some item) : item.begintime = time := by
  simpa using List.find?_some last

theorem lastEntry_isSome (entries : List LyricObject) (time : ℤ) :
    (lastEntry entries time).isSome = true ↔ time ∈ entries.map LyricObject.begintime := by
  simp [lastEntry]

theorem readMap_concat (entries : List LyricObject) (item : LyricObject) :
    readMap (entries ++ [item]) = (readMap entries).insert item.begintime item := by
  simp [readMap]

theorem readMap_getElem? (entries : List LyricObject) (time : ℤ) :
    (readMap entries)[time]? = lastEntry entries time := by
  induction entries using List.reverseRecOn with
  | nil => exact Std.TreeMap.getElem?_emptyc
  | append_singleton entries item ih =>
      rw [readMap_concat, lastEntry_concat, Std.TreeMap.getElem?_insert, ih]
      simp only [Std.LawfulEqCmp.compare_eq_iff_eq]

def values (entries : List LyricObject) : List LyricObject :=
  (readMap entries).toList.map Prod.snd

theorem mem_values (entries : List LyricObject) (item : LyricObject) :
    item ∈ values entries ↔ lastEntry entries item.begintime = some item := by
  simp only [values, List.mem_map, Prod.exists, exists_eq_right,
    Std.TreeMap.mem_toList_iff_getElem?_eq_some, readMap_getElem?]
  constructor
  · rintro ⟨time, last⟩
    rwa [lastEntry_begintime last]
  · exact fun last => ⟨_, last⟩

theorem values_increasing (entries : List LyricObject) :
    (values entries).Pairwise fun first second => first.begintime < second.begintime := by
  have ordered := (readMap entries).ordered_keys_toList
  refine List.pairwise_map.mpr (ordered.imp_of_mem fun {first second} here there less => ?_)
  have key (entry : ℤ × LyricObject) (member : entry ∈ (readMap entries).toList) :
      entry.2.begintime = entry.1 := by
    have found := Std.TreeMap.mem_toList_iff_getElem?_eq_some.mp member
    rw [readMap_getElem?] at found
    exact lastEntry_begintime found
  rw [key first here, key second there]
  exact compare_lt_iff_lt.mp less

def withTimelines : List LyricObject → List LyricObject
  | [] => []
  | [last] => [last]
  | val :: next :: rest =>
      { val with timeline := toInt (next.begintime - val.begintime) } ::
        withTimelines (next :: rest)

def timed (val : LyricObject) (next : Option LyricObject) : LyricObject :=
  match next with
  | none => val
  | some next => { val with timeline := toInt (next.begintime - val.begintime) }

theorem withTimelines_getElem? (values : List LyricObject) : ∀ k : ℕ,
    (withTimelines values)[k]? = values[k]?.map fun val => timed val values[k + 1]? := by
  induction values with
  | nil => intro k; rfl
  | cons val rest ih =>
      intro k
      cases rest with
      | nil => cases k <;> rfl
      | cons next rest =>
          cases k with
          | zero => rfl
          | succ k => exact ih k

theorem withTimelines_length (values : List LyricObject) :
    (withTimelines values).length = values.length := by
  induction values with
  | nil => rfl
  | cons val rest ih =>
      cases rest with
      | nil => rfl
      | cons next rest => exact congrArg (· + 1) ih

theorem insert_getElem? (lrc_map : LyricMap) (i k : ℕ) (item : LyricObject) :
    (lrc_map.insert i item)[k]? = if i = k then some item else lrc_map[k]? := by
  rw [Std.TreeMap.getElem?_insert]
  simp only [Std.LawfulEqCmp.compare_eq_iff_eq]

theorem insert_size {lrc_map : LyricMap} {i : ℕ} (fresh : lrc_map[i]? = none)
    (item : LyricObject) : (lrc_map.insert i item).size = lrc_map.size + 1 := by
  rw [Std.TreeMap.size_insert, if_neg]
  rw [Std.TreeMap.contains_eq_isSome_getElem?, fresh]
  exact Bool.false_ne_true

/-- From an old value on, the loop numbers it and all that follow. -/
theorem number_some : ∀ (rest : List LyricObject) (oldval : LyricObject) (i : ℕ)
    (lrc_map : LyricMap), rest ≠ [] → (∀ k, i ≤ k → lrc_map[k]? = none) →
    (number rest (some oldval) i lrc_map).size =
        lrc_map.size + (withTimelines (oldval :: rest)).length ∧
      ∀ k, (number rest (some oldval) i lrc_map)[k]? =
        if k < i then lrc_map[k]? else (withTimelines (oldval :: rest))[k - i]? := by
  intro rest
  induction rest with
  | nil => intro _ _ _ nonempty; exact absurd rfl nonempty
  | cons val rest ih =>
      intro oldval i lrc_map _ fresh
      let item := { oldval with timeline := toInt (val.begintime - oldval.begintime) }
      have later : ∀ k, i + 1 ≤ k → (lrc_map.insert i item)[k]? = none := fun k above => by
        rw [insert_getElem?, if_neg (by omega)]
        exact fresh k (by omega)
      cases rest with
      | nil =>
          have whole : number [val] (some oldval) i lrc_map =
              (lrc_map.insert i item).insert (i + 1) val := rfl
          have timed : withTimelines [oldval, val] = [item, val] := rfl
          rw [whole, timed]
          constructor
          · rw [insert_size (later _ le_rfl), insert_size (fresh i le_rfl)]
            rfl
          · intro k
            rw [insert_getElem?, insert_getElem?]
            rcases lt_trichotomy k i with below | same | above
            · rw [if_neg (by omega), if_neg (by omega), if_pos below]
            · rw [if_neg (by omega), if_pos same.symm, if_neg (by omega), same, Nat.sub_self]
              rfl
            · rw [if_neg (by omega : ¬ k < i)]
              by_cases next : i + 1 = k
              · subst next
                rw [if_pos rfl, Nat.add_sub_cancel_left]
                rfl
              · obtain ⟨n, place⟩ : ∃ n, k - i = n + 2 := ⟨k - i - 2, by omega⟩
                rw [if_neg next, if_neg (by omega), fresh k (by omega), place]
                rfl
      | cons next rest =>
          have whole : number (val :: next :: rest) (some oldval) i lrc_map =
              number (next :: rest) (some val) (i + 1) (lrc_map.insert i item) := rfl
          have timed : withTimelines (oldval :: val :: next :: rest) =
              item :: withTimelines (val :: next :: rest) := rfl
          obtain ⟨size, found⟩ := ih val (i + 1) (lrc_map.insert i item)
            (List.cons_ne_nil _ _) later
          rw [whole, timed, size, insert_size (fresh i le_rfl), List.length_cons]
          refine ⟨by omega, fun k => ?_⟩
          rw [found, insert_getElem?]
          rcases lt_trichotomy k i with below | same | above
          · rw [if_pos (by omega), if_neg (by omega), if_pos below]
          · rw [if_pos (by omega), if_pos same.symm, if_neg (by omega), same, Nat.sub_self]
            rfl
          · obtain ⟨n, place⟩ : ∃ n, k - i = n + 1 := ⟨k - i - 1, by omega⟩
            have shorter : k - (i + 1) = n := by omega
            rw [if_neg (by omega), if_neg (by omega), place, shorter]
            rfl

theorem number_values (values : List LyricObject) :
    (number values none 0 ∅).size = (withTimelines values).length ∧
      ∀ k : ℕ, (number values none 0 ∅)[k]? = (withTimelines values)[k]? := by
  have empty (k : ℕ) : (∅ : LyricMap)[k]? = none := Std.TreeMap.getElem?_emptyc
  cases values with
  | nil => exact ⟨rfl, fun k => empty k⟩
  | cons val rest =>
      cases rest with
      | nil =>
          refine ⟨rfl, fun k => ?_⟩
          have whole : number [val] none 0 ∅ = (∅ : LyricMap).insert 0 val := rfl
          rw [whole, insert_getElem?, empty]
          cases k <;> rfl
      | cons next rest =>
          have whole : number (val :: next :: rest) none 0 ∅ =
              number (next :: rest) (some val) 0 ∅ := rfl
          obtain ⟨size, found⟩ := number_some (next :: rest) val 0 ∅ (List.cons_ne_nil _ _)
            fun k _ => empty k
          rw [whole, size]
          exact ⟨Nat.zero_add _, fun k => by rw [found, if_neg (Nat.not_lt_zero k), Nat.sub_zero]⟩

/-- The current line of a time: the last one that begins before it, or the first line. -/
def Current (lrc_map : LyricMap) (time : ℤ) (index : ℕ) : Prop :=
  IsGreatest {k : ℕ | ∃ item : LyricObject, lrc_map[k]? = some item ∧ item.begintime < time}
      index ∨
    index = 0 ∧ ∀ (k : ℕ) (item : LyricObject), lrc_map[k]? = some item → ¬ item.begintime < time

/-- What the map of a view has to do with the entries of a file. -/
structure LyricIndex (entries : List LyricObject) (view : LyricView) : Prop where
  keys : ∀ k : ℕ, (∃ item, view.lrc_map[k]? = some item) ↔ k < view.lrc_map.size
  increasing : ∀ (k l : ℕ) (first second : LyricObject), view.lrc_map[k]? = some first →
    view.lrc_map[l]? = some second → k < l → first.begintime < second.begintime
  times : ∀ time, (∃ (k : ℕ) (item : LyricObject),
    view.lrc_map[k]? = some item ∧ item.begintime = time) ↔ ∃ entry ∈ entries,
      entry.begintime = time
  texts : ∀ (k : ℕ) (item : LyricObject), view.lrc_map[k]? = some item →
    (lastEntry entries item.begintime).map LyricObject.lrc = some item.lrc
  /-- In `int` arithmetic, so exact for a difference that an `int` holds. -/
  timelines : ∀ (k : ℕ) (item next : LyricObject), view.lrc_map[k]? = some item →
    view.lrc_map[k + 1]? = some next →
    item.timeline = toInt (next.begintime - item.begintime)
  /-- Also after other calls, which keep the map and the flag. -/
  selected : ∀ later : LyricView, later.lrc_map = view.lrc_map → later.blLrc = view.blLrc →
    ∀ time, ∃ index, later.selectIndex time = some (index, { later with lrcIndex := index }) ∧
      Current view.lrc_map time index

/-- In an increasing list the values before a time stand in front. -/
theorem begintime_lt_iff {values : List LyricObject}
    (increasing : values.Pairwise fun first second => first.begintime < second.begintime)
    (time : ℤ) : ∀ (k : ℕ) (item : LyricObject), values[k]? = some item →
      (item.begintime < time ↔ k < values.countP fun item => decide (item.begintime < time)) := by
  induction values with
  | nil => intro k item found; simp at found
  | cons first rest ih =>
      obtain ⟨above, ordered⟩ := List.pairwise_cons.mp increasing
      intro k item found
      rw [List.countP_cons]
      cases k with
      | zero =>
          obtain rfl := Option.some.inj found
          by_cases early : first.begintime < time
          · simp [early]
          · have none : rest.countP (fun item => decide (item.begintime < time)) = 0 := by
              refine List.countP_eq_zero.mpr fun other member => ?_
              have later := above other member
              simp
              omega
            simp [early, none]
      | succ k =>
          have here := ih ordered k item found
          have member := List.mem_of_getElem? (show rest[k]? = some item from found)
          have later := above item member
          rw [here]
          by_cases early : first.begintime < time
          · simp [early]
          · have none : rest.countP (fun item => decide (item.begintime < time)) = 0 := by
              refine List.countP_eq_zero.mpr fun other member => ?_
              have later := above other member
              simp
              omega
            simp [early, none]

@[simp] theorem timed_begintime (val : LyricObject) (next : Option LyricObject) :
    (timed val next).begintime = val.begintime := by
  cases next <;> rfl

@[simp] theorem timed_lrc (val : LyricObject) (next : Option LyricObject) :
    (timed val next).lrc = val.lrc := by
  cases next <;> rfl

theorem withTimelines_increasing {values : List LyricObject}
    (increasing : values.Pairwise fun first second => first.begintime < second.begintime) :
    (withTimelines values).Pairwise fun first second => first.begintime < second.begintime := by
  rw [List.pairwise_iff_getElem] at increasing ⊢
  intro i j within inside less
  rw [withTimelines_length] at within inside
  have item (k : ℕ) (place : k < (withTimelines values).length)
      (reached : k < values.length) :
      ((withTimelines values)[k]).begintime = (values[k]).begintime := by
    have found := withTimelines_getElem? values k
    rw [List.getElem?_eq_getElem place, List.getElem?_eq_getElem reached] at found
    rw [Option.some.inj found, timed_begintime]
  rw [item i _ within, item j _ inside]
  exact increasing i j within inside less

theorem count_loop {lrc_map : LyricMap} {items : List LyricObject}
    (found : ∀ k : ℕ, lrc_map[k]? = items[k]?) (time : ℤ) : ∀ n ≤ items.length,
    (List.range n).foldlM (fun index i =>
        (lrc_map[i]?).map fun temp => if temp.begintime < time then index + 1 else index) 0 =
      some ((items.take n).countP fun item => decide (item.begintime < time)) := by
  intro n
  induction n with
  | zero => intro _; rfl
  | succ n ih =>
      intro inside
      have here : items[n]? = some items[n] := List.getElem?_eq_getElem (by omega)
      rw [List.range_succ, List.foldlM_append, ih (by omega), List.take_add_one, here]
      simp only [Option.bind_eq_bind, Option.bind_some, List.foldlM_cons, List.foldlM_nil, found,
        here, Option.map_some, Option.toList_some, List.countP_append, List.countP_singleton]
      by_cases early : items[n].begintime < time <;> simp [early]

section index

variable (twoDigits : Units → Bool) (tips : Units)

theorem selectIndex_current {items : List LyricObject} {view : LyricView}
    (lyrics : view.blLrc = true) (size : view.lrc_map.size = items.length)
    (found : ∀ k : ℕ, view.lrc_map[k]? = items[k]?)
    (increasing : items.Pairwise fun first second => first.begintime < second.begintime)
    (time : ℤ) :
    ∃ index, view.selectIndex time = some (index, { view with lrcIndex := index }) ∧
      Current view.lrc_map time index := by
  have counted := count_loop found time items.length le_rfl
  rw [List.take_length] at counted
  have before (k : ℕ) (item : LyricObject) (here : view.lrc_map[k]? = some item) :=
    begintime_lt_iff increasing time k item (found k ▸ here)
  have inside := items.countP_le_length (p := fun item => decide (item.begintime < time))
  generalize counts : items.countP (fun item => decide (item.begintime < time)) = count
  rw [counts] at counted before inside
  refine ⟨count - 1, ?_, ?_⟩
  · rw [LyricView.selectIndex, if_pos lyrics, LyricView.countBefore, size, counted]
    rfl
  · rcases Nat.eq_zero_or_pos count with zero | positive
    · refine .inr ⟨by omega, fun k item here early => ?_⟩
      have below := (before k item here).mp early
      omega
    · obtain ⟨item, last⟩ : ∃ item, view.lrc_map[count - 1]? = some item :=
        ⟨_, (found _).trans (List.getElem?_eq_getElem (by omega))⟩
      refine .inl ⟨⟨_, last, (before _ _ last).mpr (by omega)⟩, ?_⟩
      rintro k ⟨item, here, early⟩
      have below := (before k item here).mp early
      omega

theorem withTimelines_values {entries : List LyricObject} {k : ℕ} {item : LyricObject}
    (here : (withTimelines (values entries))[k]? = some item) :
    ∃ val, (values entries)[k]? = some val ∧ item = timed val (values entries)[k + 1]? ∧
      lastEntry entries val.begintime = some val := by
  rw [withTimelines_getElem?] at here
  obtain ⟨val, place, rfl⟩ := Option.map_eq_some_iff.mp here
  exact ⟨val, place, rfl, (mem_values entries val).mp (List.mem_of_getElem? place)⟩

/-- The numbered entries of a file are its index. -/
theorem number_index (entries : List LyricObject) (view : LyricView) (lyrics : view.blLrc = true)
    (map : view.lrc_map = number (values entries) none 0 ∅) : LyricIndex entries view := by
  obtain ⟨size, found⟩ := number_values (values entries)
  have ordered := withTimelines_increasing (values_increasing entries)
  rw [← map] at size found
  refine ⟨?_, ?_, ?_, ?_, ?_, ?_⟩
  · intro k
    simp only [found, size]
    constructor
    · rintro ⟨item, here⟩
      exact (List.getElem?_eq_some_iff.mp here).choose
    · exact fun within => ⟨_, List.getElem?_eq_getElem within⟩
  · intro k l first second here there less
    rw [found] at here there
    obtain ⟨within, rfl⟩ := List.getElem?_eq_some_iff.mp here
    obtain ⟨inside, rfl⟩ := List.getElem?_eq_some_iff.mp there
    exact List.pairwise_iff_getElem.mp ordered k l within inside less
  · intro time
    constructor
    · rintro ⟨k, item, here, rfl⟩
      rw [found] at here
      obtain ⟨val, _, rfl, last⟩ := withTimelines_values here
      rw [timed_begintime]
      have member := (lastEntry_isSome entries val.begintime).mp (by rw [last]; rfl)
      exact List.mem_map.mp member
    · rintro ⟨entry, member, rfl⟩
      have present := (lastEntry_isSome entries entry.begintime).mpr (List.mem_map_of_mem member)
      obtain ⟨last, sought⟩ := Option.isSome_iff_exists.mp present
      have time := lastEntry_begintime sought
      rw [← time] at sought
      obtain ⟨k, place⟩ := List.mem_iff_getElem?.mp ((mem_values entries last).mpr sought)
      refine ⟨k, timed last (values entries)[k + 1]?, ?_, by rw [timed_begintime, time]⟩
      rw [found, withTimelines_getElem?, place]
      rfl
  · intro k item here
    rw [found] at here
    obtain ⟨val, _, rfl, last⟩ := withTimelines_values here
    rw [timed_begintime, last, Option.map_some, timed_lrc]
  · intro k item next here there
    rw [found] at here there
    obtain ⟨val, _, rfl, _⟩ := withTimelines_values here
    obtain ⟨val', place', rfl, _⟩ := withTimelines_values there
    rw [place', timed_begintime, timed_begintime]
    rfl
  · intro later sameMap sameFlag time
    rw [← sameMap]
    exact selectIndex_current (sameFlag.trans lyrics) (sameMap ▸ size) (sameMap ▸ found)
      ordered time

/-- A read that completes numbers the entries of the file. -/
theorem read_index {lines : List Units} {view : LyricView}
    (completes : (view.read twoDigits tips (some lines)).2 = true) :
    ∃ entries, fileEntries twoDigits tips lines = some entries ∧
      LyricIndex entries (view.read twoDigits tips (some lines)).1 := by
  cases parsed : fileEntries twoDigits tips lines with
  | none =>
      rw [LyricView.read] at completes
      simp [parsed] at completes
  | some entries =>
      have after : (view.read twoDigits tips (some lines)).1 =
          { view with blLrc := true, lrc_map := number (values entries) none 0 ∅ } := by
        rw [LyricView.read]
        simp only [parsed]
        rfl
      refine ⟨entries, rfl, ?_⟩
      rw [after]
      exact number_index entries _ rfl rfl

end index

def twoAsciiDigits (text : Units) : Bool :=
  decide (text.length = 2) && text.all fun unit => 48 ≤ unit && unit ≤ 57

/-- A title, stamps out of order, a text with two of them, and a time that comes twice. -/
def refrain : List Units :=
  [units "[ti:Song]", units "[00:02.50]b", units "[00:01.00][00:03.00]a", units "",
    units "[00:01.00]c", units "[00:00.00]d"]

theorem refrain_index :
    LyricIndex [⟨0, 0, units "Song"⟩, ⟨2500, 0, units "b"⟩, ⟨1000, 0, units "a"⟩,
        ⟨3000, 0, units "a"⟩, ⟨1000, 0, units "c"⟩, ⟨20, 0, units "d"⟩]
      (LyricView.new.read twoAsciiDigits [] (some refrain)).1 := by
  have completes : (LyricView.new.read twoAsciiDigits [] (some refrain)).2 = true := by decide
  obtain ⟨entries, parsed, index⟩ := read_index twoAsciiDigits [] completes
  have found : fileEntries twoAsciiDigits [] refrain =
      some [⟨0, 0, units "Song"⟩, ⟨2500, 0, units "b"⟩, ⟨1000, 0, units "a"⟩,
        ⟨3000, 0, units "a"⟩, ⟨1000, 0, units "c"⟩, ⟨20, 0, units "d"⟩] := by decide
  rw [parsed] at found
  exact Option.some.inj found ▸ index

def distantLines : List Units := [units "[00:-2000000:00]a", units "[00:2000000:00]b"]

/-- The time of a line can be too long for its `int`. -/
theorem timeline_overflows :
    ¬ ∀ (lines : List Units) (view : LyricView) (k : ℕ) (item next : LyricObject),
      (view.read twoAsciiDigits [] (some lines)).2 = true →
      (view.read twoAsciiDigits [] (some lines)).1.lrc_map[k]? = some item →
      (view.read twoAsciiDigits [] (some lines)).1.lrc_map[k + 1]? = some next →
      item.timeline = next.begintime - item.begintime := by
  intro exactly
  have wrapped := exactly distantLines .new 0 ⟨-2000000000, -294967296, units "a"⟩
    ⟨2000000000, 0, units "b"⟩ (by decide) (by decide) (by decide)
  revert wrapped
  decide

end AirCast.Music
