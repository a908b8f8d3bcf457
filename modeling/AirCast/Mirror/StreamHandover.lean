import AirCast.Mirror.HwDecoder

/-! # Whole access units through the ring

A unit that fits goes into the ring whole, and a full ring drops a unit whole.  In
between the ring takes the head of the unit and the rest is lost.  What is taken out of
the ring is for the player only where it reads into one array from its beginning on. -/

set_option autoImplicit false

namespace AirCast.Mirror

namespace StreamSession

variable {copies : ℕ → Bool}

/-- What the player got is a beginning of whole units in the order of their writes, and with the
bytes still in the ring it is all the units that fitted. -/
structure Whole (session : StreamSession) : Prop where
  delivers : ∃ kept : List Bytes, kept.Sublist session.written ∧
    session.delivered <+: kept.flatten
  whole : session.delivered ++ session.pending = session.fitting.flatten

/-- It is so in every state of the session. -/
def HandsOverWhole (copies : ℕ → Bool) (before : HwDecoder) (arrays : JavaArrays)
    (calls : List StreamCall) : Prop :=
  ∀ front back, calls = front ++ back →
    ∃ session, after copies before arrays front = some session ∧ session.Whole

/-- A unit is written when the ring has room for it, or none at all. -/
def FitsOrFull (session : StreamSession) : StreamCall → Prop
  | .write264Stream data => data.length ≤ session.freeSpace ∨ session.freeSpace = 0
  | .read264Stream _ _ _ => True

instance (session : StreamSession) : ∀ made, Decidable (session.FitsOrFull made)
  | .write264Stream data =>
      inferInstanceAs (Decidable (data.length ≤ session.freeSpace ∨ session.freeSpace = 0))
  | .read264Stream _ _ _ => isTrue trivial

/-- The ring holds what was not delivered yet of the units that fitted, and these are among the
units written, in their order. -/
structure Accounted (session : StreamSession) (content : Bytes) : Prop where
  keeps : session.Keeps content
  total : session.delivered ++ content = session.fitting.flatten
  sublist : session.fitting.Sublist session.written

variable {session : StreamSession} {content : Bytes}

theorem Accounted.whole (accounted : session.Accounted content) : session.Whole := by
  refine ⟨⟨_, accounted.sublist, ?_⟩, ?_⟩
  · rw [← accounted.total]
    exact List.prefix_append _ _
  · rw [accounted.keeps.pending, accounted.total]

theorem Accounted.write (accounted : session.Accounted content) {data : Bytes}
    (fits : session.FitsOrFull (.write264Stream data)) :
    ∃ content, (session.write data).Accounted content := by
  have space := accounted.keeps.freeSpace
  refine ⟨_, accounted.keeps.write data, ?_, accounted.sublist.append ?_⟩
  · rcases fits with room | full
    · rw [← space, List.take_of_length_le room]
      simp only [StreamSession.write, if_pos room, List.flatten_append, List.flatten_singleton,
        ← accounted.total, List.append_assoc]
    · rw [← space, full, List.take_zero, List.append_nil]
      simp only [StreamSession.write, full, nonpos_iff_eq_zero, List.length_eq_zero_iff]
      by_cases empty : data = []
      · simp [empty, accounted.total]
      · simp [empty, accounted.total]
  · split_ifs
    · exact List.Sublist.refl _
    · exact List.nil_sublist _

theorem Accounted.read (accounted : session.Accounted content) {buf : ℕ} {offset size : ℤ}
    (placed : session.Placed copies (.read264Stream buf offset size)) :
    ∃ next content, session.read copies buf offset size = some next ∧ next.Accounted content := by
  obtain ⟨next, ran, got⟩ := accounted.keeps.read placed
  refine ⟨next, _, ran, got.keeps, ?_, ?_⟩
  · rw [got.delivered, got.fitting, List.append_assoc, List.take_append_drop, accounted.total]
  · rw [got.fitting, got.written]
    exact accounted.sublist

theorem Accounted.fitsOrFull (accounted : session.Accounted content) {data : Bytes}
    (whole : (session.write data).Whole) : session.FitsOrFull (.write264Stream data) := by
  by_contra cut
  obtain ⟨large, room⟩ := not_or.mp cut
  have total := whole.whole
  rw [(accounted.keeps.write data).pending, ← accounted.keeps.freeSpace] at total
  simp only [StreamSession.write, if_neg large, List.append_nil, ← accounted.total,
    ← List.append_assoc] at total
  have nothing := List.append_right_eq_self.mp total
  rw [List.take_eq_nil_iff] at nothing
  rcases nothing with full | empty
  · exact room full
  · exact large (by rw [empty]; exact Nat.zero_le _)

/-- Where every read goes where the player looks, the hand-over is all or nothing exactly if no
unit is written while the ring has room for only a part of it. -/
theorem handsOverWhole_iff {before : HwDecoder} (reachable : before.Reachable copies)
    (arrays : JavaArrays) (calls : List StreamCall)
    (placed : (machine copies).Admissible (Alive (Placed copies)) (some (opened before arrays))
      calls) :
    HandsOverWhole copies before arrays calls ↔
      (machine copies).Admissible (Alive FitsOrFull) (some (opened before arrays)) calls := by
  refine (machine copies).run_states_iff_given (Alive (Placed copies)) (Alive FitsOrFull)
    (fun state => ∃ session content, state = some session ∧ session.Accounted content)
    (fun state => ∃ session, state = some session ∧ session.Whole) ?_ ?_ ?_ calls _
    ⟨_, [], rfl, reachable.sound.start arrays, rfl, List.Sublist.refl _⟩ placed
  · rintro _ ⟨session, content, rfl, accounted⟩
    exact ⟨session, rfl, accounted.whole⟩
  · rintro _ made ⟨session, content, rfl, accounted⟩ placed fits
    cases made with
    | write264Stream data =>
        obtain ⟨content, next⟩ := accounted.write fits
        exact ⟨_, content, rfl, next⟩
    | read264Stream buf offset size =>
        obtain ⟨next, content, ran, accounted⟩ := accounted.read placed
        exact ⟨next, content, ran, accounted⟩
  · rintro _ made ⟨session, content, rfl, accounted⟩ placed ⟨next, ran, whole⟩
    cases made with
    | write264Stream data =>
        obtain rfl := Option.some.inj ran
        exact accounted.fitsOrFull whole
    | read264Stream buf offset size => trivial

def shortSession : List StreamCall :=
  [.write264Stream [0, 0, 0, 1, 0x65], .read264Stream 7 0 4, .write264Stream [0, 0, 0, 1, 0x41],
    .read264Stream 7 0 4, .read264Stream 7 0 4, .read264Stream 8 3 9]

theorem shortSession_handsOver :
    HandsOverWhole (fun _ => false) ⟨none, none⟩ (fun _ => [9, 9, 9, 9]) shortSession :=
  (handsOverWhole_iff .initial _ shortSession (by decide)).mpr (by decide)

theorem read_elsewhere {buf : ℕ} {offset size : ℤ} {next : StreamSession}
    (ran : session.read copies buf offset size = some next)
    (elsewhere : session.decoder.elements copies buf ≠ ⟨buf, false⟩) :
    next.arrays buf = session.arrays buf := by
  unfold StreamSession.read at ran
  dsimp only at ran
  split at ran
  · rw [← Option.some.inj ran]
  · rename_i elements bytes read
    obtain ⟨arrays, stored, rfl⟩ := Option.map_eq_some_iff.mp ran
    have taken : session.decoder.elements copies buf = elements := by
      unfold HwDecoder.read264Stream at read
      split at read
      · cases read
      · split_ifs at read
        exact (Prod.mk.inj (Option.some.inj read)).1
    rw [taken] at elsewhere
    unfold ArrayElements.store at stored
    split_ifs at stored with room copied
    · exact congrFun (Option.some.inj stored).symm buf
    · rw [← Option.some.inj stored]
      refine Function.update_of_ne (fun same => elsewhere ?_) _ _
      obtain ⟨array, isCopy⟩ := elements
      simp only [Bool.not_eq_true] at copied
      subst copied same
      rfl

/-- A unit that leaves one byte free, a unit of two bytes, and after a read a third unit. -/
def cutRun (large : Bytes) : List StreamCall :=
  [.write264Stream large, .write264Stream [1, 2], .read264Stream 7 0 (2 ^ 23),
    .write264Stream [9], .read264Stream 7 0 1]

theorem cutRun_delivered {large : Bytes} (length : large.length = 2 ^ 23 - 2) (arrays : JavaArrays)
    (room : 2 ^ 23 ≤ (arrays 7).length) :
    ∃ session, after (fun _ => false) ⟨none, none⟩ arrays (cutRun large) = some session ∧
      session.delivered = large ++ [1, 9] ∧ session.written = [large, [1, 2], [9]] := by
  have all : toSizeT (2 ^ 23) = 2 ^ 23 := by decide
  have one : toSizeT 1 = 1 := by decide
  have start : HwDecoder.Reachable (fun _ => false) ⟨none, none⟩ := .initial
  have empty := start.sound.start arrays
  have second := (empty.write large).write [1, 2]
  have cut : [] ++ large.take (2 ^ 23 - 1 - List.length ([] : Bytes)) = large := by
    rw [List.nil_append, List.take_of_length_le (by simp [length])]
  rw [cut, length] at second
  have short : (large ++ List.take (2 ^ 23 - 1 - (2 ^ 23 - 2)) [1, 2]).length ≤ 2 ^ 23 := by
    simp [length]
  have first : Placed (fun _ => false) (((opened ⟨none, none⟩ arrays).write large).write [1, 2])
      (.read264Stream 7 0 (2 ^ 23)) := fun rb _ _ =>
    ⟨rfl, rfl, (min_le_left _ _).trans (by rw [all]; exact room)⟩
  obtain ⟨third, readAll, gotAll⟩ := second.read first
  have kept := gotAll.keeps
  have delivered := gotAll.delivered
  rw [all, List.drop_eq_nil_of_le short] at kept
  rw [all, List.take_of_length_le short] at delivered
  have again : Placed (fun _ => false) (third.write [9]) (.read264Stream 7 0 1) := by
    refine fun rb _ _ => ⟨rfl, ?_, (min_le_left _ _).trans ?_⟩
    · have elements := gotAll.elements (by simp)
      simp only [HwDecoder.elements, StreamSession.write, HwDecoder.write264Stream, elements,
        Option.getD_some]
    · have same := gotAll.arrays 7
      change toSizeT 1 ≤ (third.arrays 7).length
      rw [one, same]
      exact (by decide : 1 ≤ 2 ^ 23).trans room
  obtain ⟨last, readOne, gotOne⟩ := (kept.write [9]).read again
  refine ⟨last, ?_, ?_, ?_⟩
  · simp only [after, cutRun, machine, Transducer.run, call, readAll, readOne]
  · rw [gotOne.delivered, one]
    simp [StreamSession.write, delivered, opened]
  · rw [gotOne.written]
    simp [StreamSession.write, gotAll.written, opened]

/-- No whole units, in order, begin with the bytes that were delivered. -/
theorem cutRun_notWhole :
    ¬ HandsOverWhole (fun _ => false) ⟨none, none⟩ (fun _ => List.replicate (2 ^ 23) 0)
      (cutRun (List.replicate (2 ^ 23 - 2) 0)) := by
  intro handover
  have length : (List.replicate (2 ^ 23 - 2) (0 : UInt8)).length = 2 ^ 23 - 2 :=
    List.length_replicate
  have room : 2 ^ 23 ≤ (List.replicate (2 ^ 23) (0 : UInt8)).length :=
    (List.length_replicate).ge
  generalize List.replicate (2 ^ 23 - 2) (0 : UInt8) = large at handover length
  obtain ⟨session, ran, whole⟩ := handover _ [] (List.append_nil _).symm
  obtain ⟨kept, sublist, delivered⟩ := whole.delivers
  obtain ⟨session', ran', got, written⟩ :=
    cutRun_delivered length (fun _ => List.replicate (2 ^ 23) 0) room
  obtain rfl := Option.some.inj (ran.symm.trans ran')
  rw [got] at delivered
  rw [written] at sublist
  cases sublist with
  | cons _ rest =>
      have short := rest.flatten.length_le
      have long := delivered.length_le
      simp only [List.length_append, length] at long
      exact absurd (long.trans short) (by decide)
  | cons_cons _ rest =>
      rw [List.flatten_cons, List.prefix_append_right_inj] at delivered
      have cases := List.mem_sublists.mpr rest
      revert delivered
      fin_cases cases <;> decide

end StreamSession

end AirCast.Mirror
