import AirCast.Http.HttpdConnections

/-! # The connection table over all events

The counter, the flags, the descriptors and the user data stay in step through every
event, except where a response that asks to disconnect is not the last of its segment: the
loop goes on with the user data it has just destroyed.  The table is sound after every
step of a run exactly if no step does that. -/

set_option autoImplicit false

namespace AirCast.Http

open AirCast.SlotTable

variable {n : ℕ}

/-! ## What the table shows -/

def fdTable (s : Httpd n) (i : Fin n) : Option ℕ :=
  if (s.connections i).connected then some (s.connections i).socketFd else none

def userTable (s : Httpd n) (i : Fin n) : Option ℕ :=
  if (s.connections i).connected then (s.connections i).userData else none

def acceptedFds (calls : List HttpdCall) : List ℕ :=
  calls.filterMap fun | .accept fd => some fd | _ => none

def closedFds (calls : List HttpdCall) : List ℕ :=
  calls.filterMap fun | .close fd => some fd | _ => none

def createdUsers (calls : List HttpdCall) : List ℕ :=
  calls.filterMap fun | .connInit userData => userData | _ => none

def destroyedUsers (calls : List HttpdCall) : List ℕ :=
  calls.filterMap fun | .connDestroy userData => userData | _ => none

/-- The later call does not hand on user data that the earlier one destroyed. -/
def NotAfterDestroy (earlier later : HttpdCall) : Prop :=
  ∀ u index, earlier = .connDestroy (some u) → later ≠ .connRequest (some u) index

def connectedCount (s : Httpd n) : ℕ :=
  (Finset.univ.filter fun i => (s.connections i).connected = true).card

structure TableInvariant (s : Httpd n) : Prop where
  counted : s.openConnections = connectedCount s
  lower : 0 ≤ s.openConnections
  upper : s.openConnections ≤ n
  /-- user data is destroyed once, when its slot is given up -/
  users : ∀ u ∈ createdUsers s.calls,
    (destroyedUsers s.calls).count u = if ∃ i, userTable s i = some u then 0 else 1
  notAfter : s.calls.Pairwise NotAfterDestroy
  fds : ∀ fd ∈ acceptedFds s.calls,
    (closedFds s.calls).count fd = if ∃ i, fdTable s i = some fd then 0 else 1
  /-- the thread gives up every slot before it ends -/
  ended : s.running = false → ∀ i, (s.connections i).connected = false

/-! ## The inductive invariant -/

/-- The ledgers of descriptors and user data; the descriptors in `pending` have been
accepted and are not yet in the table. -/
structure Sound (pending : List ℕ) (s : Httpd n) : Prop where
  counted : s.openConnections = occupied (fdTable s)
  fds : ∃ before, acceptedFds s.calls = before ++ pending ∧
    Balanced (fdTable s) before (closedFds s.calls)
  users : Balanced (userTable s) (createdUsers s.calls) (destroyedUsers s.calls)
  owned : ∀ i, (s.connections i).connected = true → (s.connections i).userData ≠ none
  distinct : (acceptedFds s.calls).Nodup
  newFd : ∀ fd ∈ acceptedFds s.calls, fd < s.accepted
  newUser : ∀ u ∈ createdUsers s.calls, u < s.accepted ∧ u ∉ pending
  notAfter : s.calls.Pairwise NotAfterDestroy

theorem fdTable_isSome (s : Httpd n) (i : Fin n) :
    (fdTable s i).isSome = (s.connections i).connected := by
  unfold fdTable
  cases (s.connections i).connected <;> rfl

theorem occupied_connected (s : Httpd n) : occupied (fdTable s) = connectedCount s := by
  simp only [occupied, connectedCount, fdTable_isSome]

theorem sound_shows {s : Httpd n} (sound : Sound [] s)
    (ended : s.running = false → ∀ i, (s.connections i).connected = false) : TableInvariant s := by
  have counted := sound.counted
  have bound := occupied_le (fdTable s)
  rw [Fintype.card_fin] at bound
  obtain ⟨before, all, balanced⟩ := sound.fds
  rw [List.append_nil] at all
  refine ⟨by rw [counted, occupied_connected], by omega, by omega, ?_, sound.notAfter, ?_, ended⟩
  · intro u created
    split
    · rename_i held
      obtain ⟨i, holds⟩ := held
      exact (sound.users.held i u holds).2
    · rename_i gone
      exact sound.users.done u created fun i holds => gone ⟨i, holds⟩
  · intro fd accepted
    split
    · rename_i held
      obtain ⟨i, holds⟩ := held
      exact (balanced.held i fd holds).2
    · rename_i gone
      exact balanced.done fd (all ▸ accepted) fun i holds => gone ⟨i, holds⟩

/-! ## Appending calls -/

theorem acceptedFds_append (a b : List HttpdCall) :
    acceptedFds (a ++ b) = acceptedFds a ++ acceptedFds b := List.filterMap_append

theorem closedFds_append (a b : List HttpdCall) :
    closedFds (a ++ b) = closedFds a ++ closedFds b := List.filterMap_append

theorem createdUsers_append (a b : List HttpdCall) :
    createdUsers (a ++ b) = createdUsers a ++ createdUsers b := List.filterMap_append

theorem destroyedUsers_append (a b : List HttpdCall) :
    destroyedUsers (a ++ b) = destroyedUsers a ++ destroyedUsers b := List.filterMap_append

theorem notAfter_quiet {calls more : List HttpdCall} (before : calls.Pairwise NotAfterDestroy)
    (quiet : ∀ call ∈ more, ∀ u index, call ≠ .connRequest u index) :
    (calls ++ more).Pairwise NotAfterDestroy := by
  rw [List.pairwise_append]
  refine ⟨before, ?_, fun a _ b member u index _ => quiet b member (some u) index⟩
  rw [List.pairwise_iff_getElem]
  intro i j _ inside _ u index _
  exact quiet _ (List.getElem_mem inside) (some u) index

theorem notAfter_request {calls : List HttpdCall} (before : calls.Pairwise NotAfterDestroy)
    {u index : ℕ} (live : (destroyedUsers calls).count u = 0) :
    (calls ++ [HttpdCall.connRequest (some u) index]).Pairwise NotAfterDestroy := by
  rw [List.pairwise_append]
  refine ⟨before, List.pairwise_singleton _ _, ?_⟩
  intro a member b single v at' destroys same
  rw [List.mem_singleton] at single
  subst single
  rw [HttpdCall.connRequest.injEq, Option.some.injEq] at same
  obtain ⟨rfl, -⟩ := same
  rw [List.count_eq_zero] at live
  refine live (List.mem_filterMap.mpr ⟨a, member, ?_⟩)
  rw [destroys]

section Operations

variable {s : Httpd n} {pending : List ℕ}

def sameSlot (a b : HttpConnection) : Prop :=
  a.connected = b.connected ∧ a.socketFd = b.socketFd ∧ a.userData = b.userData

theorem tables_congr {t : Httpd n} (same : ∀ i, sameSlot (t.connections i) (s.connections i)) :
    fdTable t = fdTable s ∧ userTable t = userTable s := by
  constructor
  · funext i
    obtain ⟨connected, fd, -⟩ := same i
    rw [fdTable, fdTable, connected, fd]
  · funext i
    obtain ⟨connected, -, user⟩ := same i
    rw [userTable, userTable, connected, user]

theorem setRequest_same (i : Fin n) (request : Option HttpRequest) (j : Fin n) :
    sameSlot ((s.setRequest i request).connections j) (s.connections j) := by
  unfold Httpd.setRequest
  by_cases here : j = i
  · subst here
    simp [sameSlot]
  · simp [sameSlot, here]

theorem setRequest_sound (sound : Sound pending s) (i : Fin n) (request : Option HttpRequest) :
    Sound pending (s.setRequest i request) := by
  obtain ⟨fds, users⟩ := tables_congr (setRequest_same (s := s) i request)
  obtain ⟨counted, fdsBalanced, usersBalanced, owned, distinct, newFd, newUser, notAfter⟩ := sound
  refine ⟨?_, ?_, ?_, ?_, distinct, newFd, newUser, notAfter⟩
  · rw [fds]
    exact counted
  · rw [fds]
    exact fdsBalanced
  · rw [users]
    exact usersBalanced
  · intro j connected
    obtain ⟨same, -, user⟩ := setRequest_same (s := s) i request j
    rw [user]
    exact owned j (same ▸ connected)

theorem remove_tables (i : Fin n) :
    fdTable (s.removeConnection i) = Function.update (fdTable s) i none ∧
      userTable (s.removeConnection i) = Function.update (userTable s) i none := by
  constructor
  · funext j
    by_cases here : j = i
    · subst here
      simp [fdTable, Httpd.removeConnection]
    · simp [fdTable, Httpd.removeConnection, here]
  · funext j
    by_cases here : j = i
    · subst here
      simp [userTable, Httpd.removeConnection]
    · simp [userTable, Httpd.removeConnection, here]

theorem fdTable_connected {i : Fin n} (connected : (s.connections i).connected = true) :
    fdTable s i = some (s.connections i).socketFd := by
  rw [fdTable, if_pos connected]

theorem userTable_connected (sound : Sound pending s) {i : Fin n}
    (connected : (s.connections i).connected = true) :
    ∃ u, (s.connections i).userData = some u ∧ userTable s i = some u := by
  obtain ⟨u, known⟩ := Option.ne_none_iff_exists'.mp (sound.owned i connected)
  exact ⟨u, known, by rw [userTable, if_pos connected, known]⟩

theorem remove_sound (sound : Sound pending s) {i : Fin n}
    (connected : (s.connections i).connected = true) : Sound pending (s.removeConnection i) := by
  obtain ⟨fds, users⟩ := remove_tables (s := s) i
  obtain ⟨u, known, held⟩ := userTable_connected sound connected
  have calls : (s.removeConnection i).calls =
      s.calls ++ [.connDestroy (some u), .close (s.connections i).socketFd] := by
    rw [Httpd.removeConnection, known]
  have released := occupied_release (fdTable_connected connected)
  have counted := sound.counted
  have accepts : acceptedFds (s.removeConnection i).calls = acceptedFds s.calls := by
    rw [calls, acceptedFds_append]
    simp [acceptedFds]
  refine ⟨?_, ?_, ?_, ?_, ?_, ?_, ?_, ?_⟩
  · rw [fds]
    simp only [Httpd.removeConnection]
    omega
  · obtain ⟨before, all, balanced⟩ := sound.fds
    refine ⟨before, accepts.trans all, ?_⟩
    rw [fds, calls, closedFds_append]
    simpa [closedFds] using balanced.release (fdTable_connected connected)
  · rw [users, calls, createdUsers_append, destroyedUsers_append]
    simpa [createdUsers, destroyedUsers] using sound.users.release held
  · intro j still
    by_cases here : j = i
    · subst here
      simp [Httpd.removeConnection] at still
    · simp only [Httpd.removeConnection, Function.update_of_ne here] at still ⊢
      exact sound.owned j still
  · rw [accepts]
    exact sound.distinct
  · rw [accepts]
    exact sound.newFd
  · rw [calls, createdUsers_append]
    simpa [createdUsers, Httpd.removeConnection] using sound.newUser
  · rw [calls]
    exact notAfter_quiet sound.notAfter (by simp)

theorem remove_connected (i j : Fin n) :
    ((s.removeConnection i).connections j).connected =
      (if j = i then false else (s.connections j).connected) := by
  by_cases here : j = i
  · subst here
    simp [Httpd.removeConnection]
  · simp [Httpd.removeConnection, here]

/-- The loop over all slots, as far as it has come. -/
theorem removeSome_sound (slots : List (Fin n)) :
    ∀ s : Httpd n, Sound pending s →
      let after := slots.foldl
        (fun s i => if (s.connections i).connected then s.removeConnection i else s) s
      Sound pending after ∧ (∀ j, j ∈ slots → (after.connections j).connected = false) ∧
        (∀ j, (s.connections j).connected = false → (after.connections j).connected = false) ∧
        after.running = s.running := by
  induction slots with
  | nil => intro s sound; exact ⟨sound, by simp, fun _ h => h, rfl⟩
  | cons i rest ih =>
      intro s sound
      simp only [List.foldl_cons]
      by_cases connected : (s.connections i).connected = true
      · rw [if_pos connected]
        obtain ⟨after, gone, kept, running⟩ := ih (s.removeConnection i)
          (remove_sound sound connected)
        have freed : ((s.removeConnection i).connections i).connected = false := by
          rw [remove_connected, if_pos rfl]
        refine ⟨after, ?_, ?_, running⟩
        · intro j member
          rcases List.mem_cons.mp member with rfl | member
          · exact kept j freed
          · exact gone j member
        · intro j free
          refine kept j ?_
          rw [remove_connected]
          split
          · rfl
          · exact free
      · rw [if_neg connected]
        obtain ⟨after, gone, kept, running⟩ := ih s sound
        refine ⟨after, ?_, kept, running⟩
        intro j member
        rcases List.mem_cons.mp member with rfl | member
        · exact kept j (by simpa using connected)
        · exact gone j member

theorem removeAll_sound (sound : Sound pending s) :
    Sound pending s.removeAll ∧ (∀ j, (s.removeAll.connections j).connected = false) ∧
      s.removeAll.running = s.running := by
  obtain ⟨after, gone, -, running⟩ := removeSome_sound (List.finRange n) s sound
  exact ⟨after, fun j => gone j (List.mem_finRange j), running⟩

end Operations

section Accepting

variable {s : Httpd n}

/-- The connection is refused, and its descriptor closed. -/
theorem refuse_sound {fd : ℕ} (sound : Sound [fd] s) (calls : List HttpdCall)
    (closes : closedFds calls = [fd]) (noAccept : acceptedFds calls = [])
    (noUser : createdUsers calls = [] ∧ destroyedUsers calls = [])
    (quiet : ∀ call ∈ calls, ∀ u index, call ≠ .connRequest u index) {t : Httpd n}
    (after : t.calls = s.calls ++ calls)
    (tables : fdTable t = fdTable s ∧ userTable t = userTable s)
    (open' : t.openConnections = s.openConnections) (accepted : t.accepted = s.accepted)
    (owned : ∀ i, (t.connections i).connected = true → (t.connections i).userData ≠ none) :
    Sound [] t := by
  obtain ⟨before, split, balanced⟩ := sound.fds
  have distinct := sound.distinct
  rw [split] at distinct
  have new : fd ∉ before := by
    rw [List.nodup_append] at distinct
    exact fun member => distinct.2.2 fd member fd (List.mem_singleton_self fd) rfl
  have accepts : acceptedFds t.calls = acceptedFds s.calls := by
    rw [after, acceptedFds_append, noAccept, List.append_nil]
  have creates : createdUsers t.calls = createdUsers s.calls := by
    rw [after, createdUsers_append, noUser.1, List.append_nil]
  refine ⟨?_, ⟨before ++ [fd], ?_, ?_⟩, ?_, owned, ?_, ?_, ?_, ?_⟩
  · rw [open', tables.1]
    exact sound.counted
  · rw [accepts, split, List.append_nil]
  · rw [after, closedFds_append, closes, tables.1]
    exact balanced.refuse new
  · rw [creates, after, destroyedUsers_append, noUser.2, tables.2, List.append_nil]
    exact sound.users
  · rw [accepts]
    exact sound.distinct
  · rw [accepts, accepted]
    exact sound.newFd
  · rw [creates, accepted]
    exact fun u member => ⟨(sound.newUser u member).1, List.not_mem_nil⟩
  · rw [after]
    exact notAfter_quiet sound.notAfter quiet

theorem find_free {i : Fin n}
    (found : (List.finRange n).find? (fun i => !(s.connections i).connected) = some i) :
    (s.connections i).connected = false := by
  have := List.find?_some found
  simpa using this

theorem find_none
    (full : (List.finRange n).find? (fun i => !(s.connections i).connected) = none) (i : Fin n) :
    (s.connections i).connected = true := by
  have := List.find?_eq_none.mp full i (List.mem_finRange i)
  simpa using this

theorem take_tables {i : Fin n} (fd : ℕ) {t : Httpd n}
    (after : t.connections = Function.update s.connections i
      { s.connections i with connected := true, socketFd := fd, userData := some fd }) :
    fdTable t = Function.update (fdTable s) i (some fd) ∧
      userTable t = Function.update (userTable s) i (some fd) := by
  constructor
  · funext j
    by_cases here : j = i
    · subst here
      simp [fdTable, after]
    · simp [fdTable, after, here]
  · funext j
    by_cases here : j = i
    · subst here
      simp [userTable, after]
    · simp [userTable, after, here]

theorem take_sound {fd : ℕ} (sound : Sound [fd] s) {i : Fin n}
    (free : (s.connections i).connected = false) {t : Httpd n}
    (after : t.connections = Function.update s.connections i
      { s.connections i with connected := true, socketFd := fd, userData := some fd })
    (calls : t.calls = s.calls ++ [.connInit (some fd)])
    (open' : t.openConnections = s.openConnections + 1) (accepted : t.accepted = s.accepted) :
    Sound [] t := by
  obtain ⟨fds, users⟩ := take_tables fd after
  have freeFd : fdTable s i = none := by rw [fdTable, free]; rfl
  have freeUser : userTable s i = none := by rw [userTable, free]; rfl
  obtain ⟨before, split, balanced⟩ := sound.fds
  have distinct := sound.distinct
  rw [split, List.nodup_append] at distinct
  have new : fd ∉ before := fun member =>
    distinct.2.2 fd member fd (List.mem_singleton_self fd) rfl
  have newUser : fd ∉ createdUsers s.calls := fun member =>
    (sound.newUser fd member).2 (List.mem_singleton_self fd)
  have accepts : acceptedFds t.calls = acceptedFds s.calls := by
    rw [calls, acceptedFds_append]
    simp [acceptedFds]
  refine ⟨?_, ⟨before ++ [fd], ?_, ?_⟩, ?_, ?_, ?_, ?_, ?_, ?_⟩
  · rw [fds, occupied_acquire freeFd, open', sound.counted]
    push_cast
    rfl
  · rw [accepts, split, List.append_nil]
  · rw [fds, calls, closedFds_append]
    simpa [closedFds] using balanced.acquire freeFd new
  · rw [users, calls, createdUsers_append, destroyedUsers_append]
    simpa [createdUsers, destroyedUsers] using sound.users.acquire freeUser newUser
  · intro j connected
    by_cases here : j = i
    · subst here
      simp [after]
    · simp only [after, Function.update_of_ne here] at connected ⊢
      exact sound.owned j connected
  · rw [accepts]
    exact sound.distinct
  · rw [accepts, accepted]
    exact sound.newFd
  · rw [calls, createdUsers_append, accepted]
    intro u member
    rcases List.mem_append.mp member with member | single
    · exact ⟨(sound.newUser u member).1, List.not_mem_nil⟩
    · rw [List.mem_singleton.mp single]
      refine ⟨sound.newFd fd ?_, List.not_mem_nil⟩
      rw [split]
      exact List.mem_append_right _ (List.mem_singleton_self fd)
  · rw [calls]
    exact notAfter_quiet sound.notAfter (by simp)

theorem add_sound {fd : ℕ} (sound : Sound [fd] s) (room : s.openConnections < n)
    (initialised : Bool) :
    let added := s.addConnection fd initialised
    Sound [] (if added.2 then added.1 else added.1.closeSocket fd) := by
  unfold Httpd.addConnection
  cases found : (List.finRange n).find? (fun i => !(s.connections i).connected) with
  | none =>
      -- a full table is not selected
      have full := find_none found
      have all : connectedCount s = n := by
        rw [connectedCount, Finset.filter_true_of_mem fun i _ => full i, Finset.card_univ,
          Fintype.card_fin]
      rw [sound.counted, occupied_connected, all] at room
      exact absurd room (lt_irrefl _)
  | some i =>
      have free := find_free found
      cases initialised with
      | true =>
          dsimp only
          rw [if_pos rfl, if_pos rfl]
          exact take_sound sound free rfl rfl rfl rfl
      | false =>
          dsimp only
          rw [if_neg Bool.false_ne_true, if_neg Bool.false_ne_true]
          have calls : (({ s with
              connections := Function.update s.connections i
                { s.connections i with userData := none }
              calls := s.calls ++ [.connInit none] } : Httpd n).closeSocket fd).calls =
                s.calls ++ [.connInit none, .close fd] := by
            simp [Httpd.closeSocket]
          refine refuse_sound sound [.connInit none, .close fd] rfl rfl ⟨rfl, rfl⟩ (by simp)
            calls ⟨?_, ?_⟩ rfl rfl ?_
          · funext j
            by_cases here : j = i
            · subst here
              simp [fdTable, Httpd.closeSocket]
            · simp [fdTable, Httpd.closeSocket, here]
          · funext j
            by_cases here : j = i
            · subst here
              simp [userTable, Httpd.closeSocket, free]
            · simp [userTable, Httpd.closeSocket, here]
          · intro j connected
            by_cases here : j = i
            · subst here
              simp [Httpd.closeSocket, free] at connected
            · simp only [Httpd.closeSocket, Function.update_of_ne here] at connected ⊢
              exact sound.owned j connected

theorem forceStop_sound {pending : List ℕ} (sound : Sound pending s) (id : ℤ) :
    Sound pending (s.forceStopAirplay id) ∧ (s.forceStopAirplay id).running = s.running ∧
      ∀ j, (s.connections j).connected = false →
        ((s.forceStopAirplay id).connections j).connected = false := by
  obtain ⟨removed, gone, running⟩ := removeAll_sound sound
  unfold Httpd.forceStopAirplay
  split
  · split
    · exact ⟨removed, running, fun j _ => gone j⟩
    · exact ⟨sound, rfl, fun _ free => free⟩
  · split
    · exact ⟨sound, rfl, fun _ free => free⟩
    · exact ⟨removed, running, fun j _ => gone j⟩

theorem forceStop_open {pending : List ℕ} (sound : Sound pending s) (id : ℤ)
    (room : s.openConnections < n) : (s.forceStopAirplay id).openConnections < n := by
  obtain ⟨removed, gone, -⟩ := removeAll_sound sound
  have emptied : s.removeAll.openConnections ≤ s.openConnections := by
    have none : connectedCount s.removeAll = 0 := by
      rw [connectedCount, Finset.card_eq_zero, Finset.filter_eq_empty_iff]
      intro j _
      simp [gone j]
    have all := sound.counted
    rw [removed.counted, occupied_connected, none]
    omega
  unfold Httpd.forceStopAirplay
  split
  · split
    · omega
    · exact room
  · split
    · exact room
    · omega

/-- The descriptor that `accept` has just returned. -/
theorem newSocket_sound (sound : Sound [] s) : Sound [s.accepted] s.newSocket := by
  obtain ⟨before, all, balanced⟩ := sound.fds
  rw [List.append_nil] at all
  have accepts : acceptedFds (s.calls ++ [.accept s.accepted]) =
      acceptedFds s.calls ++ [s.accepted] := by
    rw [acceptedFds_append]
    rfl
  have closes : closedFds (s.calls ++ [.accept s.accepted]) = closedFds s.calls := by
    rw [closedFds_append]
    simp [closedFds]
  have creates : createdUsers (s.calls ++ [.accept s.accepted]) = createdUsers s.calls := by
    rw [createdUsers_append]
    simp [createdUsers]
  have destroys : destroyedUsers (s.calls ++ [.accept s.accepted]) = destroyedUsers s.calls := by
    rw [destroyedUsers_append]
    simp [destroyedUsers]
  unfold Httpd.newSocket
  refine ⟨sound.counted, ⟨before, ?_, ?_⟩, ?_, sound.owned, ?_, ?_, ?_, ?_⟩
  · rw [accepts, all]
  · dsimp only
    rw [closes]
    exact balanced
  · dsimp only
    rw [creates, destroys]
    exact sound.users
  · dsimp only
    rw [accepts, List.nodup_append]
    refine ⟨sound.distinct, List.nodup_singleton _, ?_⟩
    intro fd member other single same
    rw [List.mem_singleton] at single
    exact absurd (sound.newFd fd member) (by omega)
  · dsimp only
    rw [accepts]
    intro fd member
    rcases List.mem_append.mp member with member | single
    · exact (sound.newFd fd member).trans (Nat.lt_succ_self _)
    · rw [List.mem_singleton.mp single]
      exact Nat.lt_succ_self _
  · dsimp only
    rw [creates]
    intro u member
    have below := (sound.newUser u member).1
    refine ⟨below.trans (Nat.lt_succ_self _), fun single => ?_⟩
    rw [List.mem_singleton] at single
    omega
  · exact notAfter_quiet sound.notAfter (by simp)

/-- Every slot is given up once the thread has ended. -/
def Ended (s : Httpd n) : Prop := s.running = false → ∀ i, (s.connections i).connected = false

theorem endThread_sound (sound : Sound [] s) : Sound [] s.endThread ∧ Ended s.endThread := by
  obtain ⟨removed, gone, -⟩ := removeAll_sound sound
  obtain ⟨counted, fds, users, owned, distinct, newFd, newUser, notAfter⟩ := removed
  exact ⟨⟨counted, fds, users, owned, distinct, newFd, newUser, notAfter⟩, fun _ => gone⟩

theorem addConnection_running (fd : ℕ) (initialised : Bool) :
    (s.addConnection fd initialised).1.running = s.running := by
  unfold Httpd.addConnection
  split
  · rfl
  · cases initialised <;> rfl

theorem preempt_sound {pending : List ℕ} (sound : Sound pending s) (mirroring : Bool)
    (room : s.openConnections < n) :
    Sound pending (s.preempt mirroring) ∧ (s.preempt mirroring).openConnections < n ∧
      (s.preempt mirroring).running = s.running := by
  unfold Httpd.preempt
  split
  · obtain ⟨stopped, running, -⟩ := forceStop_sound sound s.mId
    exact ⟨stopped, forceStop_open sound s.mId room, running⟩
  · exact ⟨sound, room, rfl⟩

theorem acceptConnection_sound (sound : Sound [] s) (running : s.running = true)
    (room : s.openConnections < n) (outcome : Httpd.Accept) :
    Sound [] (s.acceptConnection outcome) ∧ Ended (s.acceptConnection outcome) := by
  have alive : ∀ t : Httpd n, t.running = s.running → Ended t := by
    intro t same stopped
    rw [same, running] at stopped
    exact absurd stopped Bool.true_eq_false.mp
  have accepted := newSocket_sound sound
  cases outcome with
  | failed => exact endThread_sound sound
  | unnamed =>
      exact ⟨refuse_sound accepted [.close s.accepted] rfl rfl ⟨rfl, rfl⟩ (by simp) rfl ⟨rfl, rfl⟩
        rfl rfl sound.owned, alive _ rfl⟩
  | client mirroring initialised =>
      obtain ⟨ready, readyRoom, same⟩ := preempt_sound accepted mirroring room
      refine ⟨add_sound ready readyRoom initialised, alive _ ?_⟩
      have added := addConnection_running (s := s.newSocket.preempt mirroring) s.accepted initialised
      dsimp only [Httpd.acceptConnection]
      split
      · exact added.trans same
      · exact added.trans same

end Accepting

section Dispatch

variable {s : Httpd n} {i : Fin n}

theorem connRequest_sound (sound : Sound [] s) (connected : (s.connections i).connected = true)
    (index : ℕ) : Sound [] (s.connRequest i index) := by
  obtain ⟨u, known, held⟩ := userTable_connected sound connected
  have live := (sound.users.held i u held).2
  have calls : (s.connRequest i index).calls = s.calls ++ [.connRequest (some u) index] := by
    rw [Httpd.connRequest, known]
  have accepts : acceptedFds (s.connRequest i index).calls = acceptedFds s.calls := by
    rw [calls, acceptedFds_append]
    simp [acceptedFds]
  have closes : closedFds (s.connRequest i index).calls = closedFds s.calls := by
    rw [calls, closedFds_append]
    simp [closedFds]
  have creates : createdUsers (s.connRequest i index).calls = createdUsers s.calls := by
    rw [calls, createdUsers_append]
    simp [createdUsers]
  have destroys : destroyedUsers (s.connRequest i index).calls = destroyedUsers s.calls := by
    rw [calls, destroyedUsers_append]
    simp [destroyedUsers]
  refine ⟨sound.counted, ?_, ?_, sound.owned, ?_, ?_, ?_, ?_⟩
  · rw [accepts, closes]
    exact sound.fds
  · rw [creates, destroys]
    exact sound.users
  · rw [accepts]
    exact sound.distinct
  · rw [accepts]
    exact sound.newFd
  · rw [creates]
    exact sound.newUser
  · rw [calls]
    exact notAfter_request sound.notAfter live

/-- No response but the last asks to disconnect. -/
def DisconnectsLast (responses : Httpd.Responses) (left index : ℕ) : Prop :=
  ∀ j, index ≤ j → j + 1 < index + left → responses j ≠ some true

theorem dispatchFrom_sound (responses : Httpd.Responses) :
    ∀ (left index : ℕ) (s : Httpd n), Sound [] s → (s.connections i).connected = true →
      DisconnectsLast responses left index →
        Sound [] (Httpd.dispatchFrom responses i left index s) := by
  intro left
  induction left with
  | zero => intro index s sound _ _; exact sound
  | succ left ih =>
      intro index s sound connected last
      have asked := connRequest_sound sound connected index
      simp only [Httpd.dispatchFrom]
      by_cases disconnects : responses index = some true
      · rw [if_pos disconnects]
        have only : left = 0 := by
          by_contra more
          exact last index le_rfl (by omega) disconnects
        rw [only]
        exact remove_sound asked connected
      · rw [if_neg disconnects]
        exact ih (index + 1) _ asked connected fun j lower upper =>
          last j (by omega) (by omega)

theorem dispatchFrom_calls (responses : Httpd.Responses) :
    ∀ (left index : ℕ) (s : Httpd n),
      ∃ more, (Httpd.dispatchFrom responses i left index s).calls = s.calls ++ more := by
  intro left
  induction left with
  | zero => intro index s; exact ⟨[], (List.append_nil _).symm⟩
  | succ left ih =>
      intro index s
      simp only [Httpd.dispatchFrom]
      split
      · obtain ⟨more, calls⟩ := ih (index + 1) ((s.connRequest i index).removeConnection i)
        rw [calls]
        simp only [Httpd.removeConnection, Httpd.connRequest, List.append_assoc]
        exact ⟨_, rfl⟩
      · obtain ⟨more, calls⟩ := ih (index + 1) (s.connRequest i index)
        rw [calls]
        simp only [Httpd.connRequest, List.append_assoc]
        exact ⟨_, rfl⟩

/-- Where the loop goes on after a disconnect, destroyed user data is used. -/
theorem dispatchFrom_last (responses : Httpd.Responses) :
    ∀ (left index : ℕ) (s : Httpd n), Sound [] s → (s.connections i).connected = true →
      (Httpd.dispatchFrom responses i left index s).calls.Pairwise NotAfterDestroy →
        DisconnectsLast responses left index := by
  intro left
  induction left with
  | zero => intro index s _ _ _ j lower upper; omega
  | succ left ih =>
      intro index s sound connected fenced
      have asked := connRequest_sound sound connected index
      simp only [Httpd.dispatchFrom] at fenced
      by_cases disconnects : responses index = some true
      · cases left with
        | zero => intro j lower upper; omega
        | succ left =>
            exfalso
            obtain ⟨u, known, -⟩ := userTable_connected sound connected
            rw [if_pos disconnects] at fenced
            simp only [Httpd.dispatchFrom] at fenced
            have used : ∃ more, (Httpd.dispatchFrom responses i (left + 1) (index + 1)
                ((s.connRequest i index).removeConnection i)).calls =
                  (s.connRequest i index).calls ++ (.connDestroy (some u) ::
                    .close (s.connections i).socketFd ::
                      .connRequest (some u) (index + 1) :: more) := by
              simp only [Httpd.dispatchFrom]
              split
              · obtain ⟨more, calls⟩ := dispatchFrom_calls (i := i) responses left (index + 2)
                  ((((s.connRequest i index).removeConnection i).connRequest i
                    (index + 1)).removeConnection i)
                rw [calls]
                simp only [Httpd.removeConnection, Httpd.connRequest, Function.update_self, known,
                  List.append_assoc, List.cons_append, List.nil_append]
                exact ⟨_, rfl⟩
              · obtain ⟨more, calls⟩ := dispatchFrom_calls (i := i) responses left (index + 2)
                  (((s.connRequest i index).removeConnection i).connRequest i (index + 1))
                rw [calls]
                simp only [Httpd.removeConnection, Httpd.connRequest, Function.update_self, known,
                  List.append_assoc, List.cons_append, List.nil_append]
                exact ⟨_, rfl⟩
            obtain ⟨more, calls⟩ := used
            simp only [Httpd.dispatchFrom] at calls
            rw [calls, List.pairwise_append] at fenced
            obtain ⟨-, rest, -⟩ := fenced
            rw [List.pairwise_cons] at rest
            exact rest.1 (.connRequest (some u) (index + 1)) (by simp) u (index + 1) rfl rfl
      · rw [if_neg disconnects] at fenced
        have rest := ih (index + 1) _ asked connected fenced
        intro j lower upper
        rcases Nat.eq_or_lt_of_le lower with rfl | later
        · exact disconnects
        · exact rest j later (by omega)

theorem dispatchFrom_running (responses : Httpd.Responses) :
    ∀ (left index : ℕ) (s : Httpd n),
      (Httpd.dispatchFrom responses i left index s).running = s.running := by
  intro left
  induction left with
  | zero => intro index s; rfl
  | succ left ih =>
      intro index s
      simp only [Httpd.dispatchFrom]
      split
      · exact ih (index + 1) _
      · exact ih (index + 1) _

end Dispatch

/-! ## All events -/

/-- The segment that completes a request is answered without a disconnect before the last
of its requests. -/
def SafeEvent (s : Httpd n) : HttpdEvent n → Prop
  | .receive i (.segment bytes responses) =>
      s.running = true → (s.connections i).connected = true → s.mId ≠ 1 →
        ∀ request, receiveHttp (s.currentRequest i) bytes = some (.complete request) →
          DisconnectsLast responses (httpRequestGetRequestCount request) 1
  | _ => True

def Kept : Option (Httpd n) → Prop
  | none => True
  | some s => Sound [] s ∧ Ended s

def Shown : Option (Httpd n) → Prop
  | none => True
  | some s => TableInvariant s

theorem serve_kept {s : Httpd n} {i : Fin n} (sound : Sound [] s) (running : s.running = true)
    (connected : (s.connections i).connected = true) (received : Httpd.Received)
    (safe : SafeEvent s (.receive i received)) : Kept (s.serve i received) := by
  have alive : ∀ t : Httpd n, t.running = s.running → Ended t := by
    intro t same stopped
    rw [same, running] at stopped
    exact absurd stopped Bool.true_eq_false.mp
  cases received with
  | closed => exact ⟨remove_sound sound connected, alive _ rfl⟩
  | segment bytes responses =>
      simp only [Httpd.serve]
      by_cases mirror : s.mId = 1
      · rw [if_pos mirror]
        exact ⟨sound, alive s rfl⟩
      · rw [if_neg mirror]
        cases outcome : receiveHttp (s.currentRequest i) bytes with
        | none => exact trivial
        | some taken =>
            cases taken with
            | skipped => exact ⟨setRequest_sound sound i _, alive _ rfl⟩
            | invalidMethod => exact ⟨setRequest_sound sound i _, alive _ rfl⟩
            | parseError => exact ⟨remove_sound sound connected, alive _ rfl⟩
            | waiting request => exact ⟨setRequest_sound sound i _, alive _ rfl⟩
            | complete request =>
                have still : ((s.setRequest i (some request)).connections i).connected = true := by
                  rw [(setRequest_same i (some request) i).1, connected]
                have dispatched := dispatchFrom_sound responses _ 1 _
                  (setRequest_sound sound i (some request)) still
                  (safe running connected mirror request outcome)
                exact ⟨setRequest_sound dispatched i none,
                  alive _ (dispatchFrom_running responses _ 1 _)⟩

theorem httpdStep_kept {s : Httpd n} (sound : Sound [] s) (ended : Ended s) (event : HttpdEvent n)
    (safe : SafeEvent s event) : Kept (httpdStep s event) := by
  cases event with
  | start =>
      obtain ⟨counted, fds, users, owned, distinct, newFd, newUser, notAfter⟩ := sound
      exact ⟨⟨counted, fds, users, owned, distinct, newFd, newUser, notAfter⟩,
        fun stopped => absurd stopped Bool.true_eq_false.mp⟩
  | accept outcome =>
      simp only [httpdStep]
      by_cases open' : s.running = true ∧ s.openConnections < n
      · rw [if_pos open']
        exact acceptConnection_sound sound open'.1 open'.2 outcome
      · rw [if_neg open']
        exact ⟨sound, ended⟩
  | receive i received =>
      simp only [httpdStep]
      by_cases selected : s.running = true ∧ (s.connections i).connected = true
      · rw [if_pos selected]
        exact serve_kept sound selected.1 selected.2 received safe
      · rw [if_neg selected]
        exact ⟨sound, ended⟩
  | stop =>
      simp only [httpdStep]
      by_cases running : s.running = true
      · rw [if_pos running]
        exact endThread_sound sound
      · rw [if_neg running]
        exact ⟨sound, ended⟩
  | forceStopAirplay id =>
      obtain ⟨stopped, running, gone⟩ := forceStop_sound sound id
      refine ⟨stopped, fun halted j => gone j ?_⟩
      rw [running] at halted
      exact ended halted j

theorem httpdStep_safe {s : Httpd n} (sound : Sound [] s) (event : HttpdEvent n)
    (shown : Shown (httpdStep s event)) : SafeEvent s event := by
  cases event with
  | receive i received =>
      cases received with
      | closed => exact trivial
      | segment bytes responses =>
          intro running connected mirror request outcome
          simp only [httpdStep, if_pos (And.intro running connected), Httpd.serve, if_neg mirror,
            outcome, Option.map_some] at shown
          have still : ((s.setRequest i (some request)).connections i).connected = true := by
            rw [(setRequest_same i (some request) i).1, connected]
          exact dispatchFrom_last responses _ 1 _ (setRequest_sound sound i (some request)) still
            shown.notAfter
  | _ => exact trivial

theorem httpdInit_sound (id : ℤ) : Sound [] (httpdInit n id) ∧ Ended (httpdInit n id) := by
  have fds : fdTable (httpdInit n id) = fun _ => none := rfl
  have users : userTable (httpdInit n id) = fun _ => none := rfl
  refine ⟨⟨?_, ⟨[], rfl, ?_⟩, ?_, ?_, ?_, ?_, ?_, ?_⟩, fun _ _ => rfl⟩
  · rw [fds, occupied_empty]
    rfl
  · rw [fds]
    exact balanced_empty
  · rw [users]
    exact balanced_empty
  · exact fun i connected => absurd connected Bool.false_ne_true
  · exact List.nodup_nil
  · exact fun fd member => absurd member List.not_mem_nil
  · exact fun u member => absurd member List.not_mem_nil
  · exact List.Pairwise.nil

/-- The table is sound after every step exactly if no response but the last of a segment
disconnects. -/
theorem table_invariant_iff (n : ℕ) (id : ℤ) (events : List (HttpdEvent n)) :
    (∀ front back, events = front ++ back →
        Shown ((httpdMachine n).run (some (httpdInit n id)) front).1) ↔
      (httpdMachine n).Admissible (Alive SafeEvent) (some (httpdInit n id)) events := by
  refine (httpdMachine n).run_states_iff (Alive SafeEvent) Kept Shown ?_ ?_ ?_ events _
    (httpdInit_sound id)
  · intro state kept
    cases state with
    | none => exact trivial
    | some s => exact sound_shows kept.1 kept.2
  · intro state event kept safe
    cases state with
    | none => exact trivial
    | some s => exact httpdStep_kept kept.1 kept.2 event safe
  · intro state event kept shown
    cases state with
    | none => exact trivial
    | some s => exact httpdStep_safe kept.1 event shown

def doubleDisconnect : List (HttpdEvent 1) :=
  [.start, .accept (.client false true),
    .receive 0 (.segment
      (bytesOf "OPTIONS * RTSP/1.0\r\nCSeq: 0\r\n\r\nOPTIONS * RTSP/1.0\r\nCSeq: 1\r\n\r\n")
      fun _ => some true)]

/-- The connection is removed twice: one slot, and -1 connections open. -/
theorem doubleDisconnect_breaks_table :
    ∃ s, ((httpdMachine 1).run (some (httpdInit 1 0)) doubleDisconnect).1 = some s ∧
      s.openConnections = -1 ∧
      s.calls = [.accept 0, .connInit (some 0), .connRequest (some 0) 1, .connDestroy (some 0),
        .close 0, .connRequest (some 0) 2, .connDestroy (some 0), .close 0] ∧
      ¬ TableInvariant s := by
  have reached : ((httpdMachine 1).run (some (httpdInit 1 0)) doubleDisconnect).1.map
      (fun s => (s.openConnections, s.calls)) =
      some (-1, [.accept 0, .connInit (some 0), .connRequest (some 0) 1, .connDestroy (some 0),
        .close 0, .connRequest (some 0) 2, .connDestroy (some 0), .close 0]) := by
    decide
  obtain ⟨s, state, shows⟩ := Option.map_eq_some_iff.mp reached
  rw [Prod.mk.injEq] at shows
  refine ⟨s, state, shows.1, shows.2, fun invariant => ?_⟩
  have lower := invariant.lower
  rw [shows.1] at lower
  exact absurd lower (by decide)

end AirCast.Http
