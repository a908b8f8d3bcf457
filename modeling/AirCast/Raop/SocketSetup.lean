import AirCast.Lib.LoopProgram
import AirCast.Raop.AirplayPorts

/-! # Set-up of a server socket

`netutils_init_socket` of `netutils.c`.  For IPv4 a bind that fails is made again on
the next port, so the loop goes on as long as the kernel refuses; for IPv6 the
function gives up at once. -/

set_option autoImplicit false

namespace AirCast.Raop

/-- The answers of the kernel: `bindFails` to an attempt on a port, `anyPort` the port that an
attempt on port 0 takes. -/
structure Kernel where
  socket : Option ℕ
  bindFails : ℕ → Port → Bool
  anyPort : ℕ → Port
  nameFails : Bool

/-- The attempts to bind so far, and the ports that the descriptors are bound to. -/
structure Sockets where
  attempts : ℕ
  bound : ℕ → Option Port

def htons (port : Port) : Port := port <<< 8 ||| port >>> 8

def ntohs (port : Port) : Port := port <<< 8 ||| port >>> 8

section calls

variable (kernel : Kernel) (fd : ℕ)

def Kernel.portOf (attempt : ℕ) (port : Port) : Port :=
  if port = 0 then kernel.anyPort attempt else port

def Kernel.bind (sin_port : Port) : Program Sockets Bool :=
  .action fun s =>
    let port := ntohs sin_port
    if kernel.bindFails s.attempts port then some (false, { s with attempts := s.attempts + 1 })
    else some (true,
      { attempts := s.attempts + 1
        bound := Function.update s.bound fd (some (kernel.portOf s.attempts port)) })

def Kernel.getsockname : Program Sockets (Option Port) :=
  .action fun s => some (if kernel.nameFails then none else (s.bound fd).map htons, s)

def closesocket : Program Sockets Unit :=
  .action fun s => some ((), { s with bound := Function.update s.bound fd none })

/-- One attempt behind the label `retry`. -/
def retry (port : Port) : Program Sockets (Port ⊕ Port) := do
  let ok ← kernel.bind fd (htons port)
  return if ok then .inr port else .inl (port + 1)

/-- The end of both branches: the descriptor, or `none` for `-1`, and `*port`. -/
def nameSocket (port : Port) : Program Sockets (Option ℕ × Port) := do
  match ← kernel.getsockname fd with
  | none =>
      closesocket fd
      return (none, port)
  | some sin_port => return (some fd, ntohs sin_port)

end calls

/-- `netutils_init_socket`; `use_udp` reaches the call of `socket` only. -/
def initSocket (kernel : Kernel) (port : Port) (use_ipv6 : Bool) :
    Program Sockets (Option ℕ × Port) :=
  match kernel.socket with
  | none => return (none, port)
  | some fd =>
      if use_ipv6 then do
        let ok ← kernel.bind fd (htons port)
        if ok then nameSocket kernel fd port
        else
          closesocket fd
          return (none, port)
      else do
        let port ← .loop (retry kernel fd) port
        nameSocket kernel fd port

@[simp] theorem ntohs_htons (port : Port) : ntohs (htons port) = port := by
  ext i inside
  simp [ntohs, htons]
  grind

section attempts

variable {kernel : Kernel} {fd : ℕ}

def Sockets.refused (s : Sockets) : Sockets := { s with attempts := s.attempts + 1 }

def Sockets.taken (s : Sockets) (fd : ℕ) (port : Port) : Sockets where
  attempts := s.attempts + 1
  bound := Function.update s.bound fd (some port)

theorem ends_retry {port : Port} {next : Port ⊕ Port} {s t : Sockets} :
    (retry kernel fd port).Ends s next t ↔
      (kernel.bindFails s.attempts port = true ∧ next = .inl (port + 1) ∧ t = s.refused) ∨
        (kernel.bindFails s.attempts port = false ∧ next = .inr port ∧
          t = s.taken fd (kernel.portOf s.attempts port)) := by
  rw [retry, Program.ends_bind]
  simp only [Kernel.bind, Program.ends_action, Program.ends_pure, ntohs_htons]
  cases kernel.bindFails s.attempts port with
  | true =>
      simp only [if_true, Option.some.injEq, Prod.mk.injEq, true_and, reduceCtorEq, false_and,
        or_false]
      constructor
      · rintro ⟨ok, u, ⟨rfl, rfl⟩, rfl, rfl⟩
        exact ⟨rfl, rfl⟩
      · rintro ⟨rfl, rfl⟩
        exact ⟨false, s.refused, ⟨rfl, rfl⟩, rfl, rfl⟩
  | false =>
      simp only [Bool.false_eq_true, if_false, Option.some.injEq, Prod.mk.injEq, true_and,
        false_and, false_or]
      constructor
      · rintro ⟨ok, u, ⟨rfl, rfl⟩, rfl, rfl⟩
        exact ⟨rfl, rfl⟩
      · rintro ⟨rfl, rfl⟩
        exact ⟨true, s.taken fd (kernel.portOf s.attempts port), ⟨rfl, rfl⟩, rfl, rfl⟩

def portAt (port : Port) (number : ℕ) : Port := port + BitVec.ofNat 16 number

@[simp] theorem portAt_zero (port : Port) : portAt port 0 = port := BitVec.add_zero port

theorem portAt_succ (port : Port) (number : ℕ) :
    portAt (port + 1) number = portAt port (number + 1) := by
  unfold portAt
  rw [BitVec.ofNat_add, BitVec.add_assoc]
  exact congrArg (port + ·) (BitVec.add_comm _ _)

/-- The attempt is the first that does not fail. -/
def Kernel.Succeeds (kernel : Kernel) (attempts : ℕ) (port : Port) (number : ℕ) : Prop :=
  kernel.bindFails (attempts + number) (portAt port number) = false ∧
    ∀ earlier < number, kernel.bindFails (attempts + earlier) (portAt port earlier) = true

theorem succeeds_zero {attempts : ℕ} {port : Port} :
    kernel.Succeeds attempts port 0 ↔ kernel.bindFails attempts port = false := by
  simp [Kernel.Succeeds]

theorem succeeds_succ {attempts number : ℕ} {port : Port} :
    kernel.Succeeds attempts port (number + 1) ↔
      kernel.bindFails attempts port = true ∧ kernel.Succeeds (attempts + 1) (port + 1) number := by
  unfold Kernel.Succeeds
  simp only [portAt_succ, Nat.add_assoc, Nat.add_comm 1, Nat.forall_lt_succ_left, Nat.add_zero,
    portAt_zero]
  exact and_left_comm

theorem exists_succeeds {attempts number : ℕ} {port : Port}
    (free : kernel.bindFails (attempts + number) (portAt port number) = false) :
    ∃ first ≤ number, kernel.Succeeds attempts port first := by
  classical
  have found : ∃ n, kernel.bindFails (attempts + n) (portAt port n) = false := ⟨number, free⟩
  refine ⟨Nat.find found, Nat.find_min' found free, Nat.find_spec found, fun earlier before => ?_⟩
  simpa using Nat.find_min found before

def Kernel.behind (kernel : Kernel) (fd : ℕ) (s : Sockets) (port : Port) (number : ℕ) :
    Sockets where
  attempts := s.attempts + number + 1
  bound := Function.update s.bound fd (some (kernel.portOf (s.attempts + number) port))

theorem behind_refused {s : Sockets} {port : Port} {number : ℕ} :
    kernel.behind fd s.refused port number = kernel.behind fd s port (number + 1) := by
  simp only [Kernel.behind, Sockets.refused, Nat.add_assoc, Nat.add_comm 1]

theorem succeeds_of_ends {s t : Sockets} {port last : Port}
    (ends : (Program.loop (retry kernel fd) port).Ends s last t) :
    ∃ number, kernel.Succeeds s.attempts port number ∧ last = portAt port number ∧
      t = kernel.behind fd s last number := by
  refine Program.loop_induction (fun port s last t => ∃ number,
    kernel.Succeeds s.attempts port number ∧ last = portAt port number ∧
      t = kernel.behind fd s last number) ?_ ?_ ends
  · rintro port s next u last t round ⟨number, succeeds, rfl, rfl⟩
    obtain ⟨fails, same, rfl⟩ | ⟨_, same, _⟩ := ends_retry.mp round
    · obtain rfl := Sum.inl.inj same
      exact ⟨number + 1, succeeds_succ.mpr ⟨fails, succeeds⟩, portAt_succ port number,
        behind_refused⟩
    · cases same
  · intro port s last t round
    obtain ⟨_, same, _⟩ | ⟨free, same, rfl⟩ := ends_retry.mp round
    · cases same
    · obtain rfl := Sum.inr.inj same
      exact ⟨0, succeeds_zero.mpr free, (portAt_zero _).symm, rfl⟩

theorem ends_of_succeeds : ∀ {number : ℕ} {s : Sockets} {port : Port},
    kernel.Succeeds s.attempts port number →
      (Program.loop (retry kernel fd) port).Ends s (portAt port number)
        (kernel.behind fd s (portAt port number) number) := by
  intro number
  induction number with
  | zero =>
      intro s port succeeds
      rw [portAt_zero]
      exact Program.ends_loop.mpr
        (.inr (ends_retry.mpr (.inr ⟨succeeds_zero.mp succeeds, rfl, rfl⟩)))
  | succ number ih =>
      intro s port succeeds
      obtain ⟨fails, later⟩ := succeeds_succ.mp succeeds
      have rest := ih (s := s.refused) later
      rw [portAt_succ, behind_refused] at rest
      exact Program.ends_loop.mpr
        (.inl ⟨port + 1, s.refused, ends_retry.mpr (.inl ⟨fails, rfl, rfl⟩), rest⟩)

theorem initSocket_some (socket : kernel.socket = some fd) (port : Port) :
    initSocket kernel port false = (do
      let port ← .loop (retry kernel fd) port
      nameSocket kernel fd port) := by
  rw [initSocket, socket]
  rfl

theorem nameSocket_ends (s : Sockets) (port : Port) :
    ∃ result t, (nameSocket kernel fd port).Ends s result t ∧
      ∀ server_fd ∈ result.1, t.bound server_fd = some result.2 := by
  cases named : (if kernel.nameFails then none else (s.bound fd).map htons) with
  | none =>
      have call : (kernel.getsockname fd).Ends s none s :=
        Program.ends_action.mpr (by rw [named])
      have closes : (closesocket fd).Ends s () { s with bound := Function.update s.bound fd none } :=
        Program.ends_action.mpr rfl
      refine ⟨(none, port), _, (Program.ends_bind_of_ends call).mpr
        ((Program.ends_bind_of_ends closes).mpr (Program.ends_pure.mpr ⟨rfl, rfl⟩)), ?_⟩
      simp
  | some sin_port =>
      have call : (kernel.getsockname fd).Ends s (some sin_port) s :=
        Program.ends_action.mpr (by rw [named])
      refine ⟨(some fd, ntohs sin_port), s,
        (Program.ends_bind_of_ends call).mpr (Program.ends_pure.mpr ⟨rfl, rfl⟩), ?_⟩
      split_ifs at named
      obtain ⟨bound, held, rfl⟩ := Option.map_eq_some_iff.mp named
      simpa using held

end attempts

/-- For IPv4 the function returns, with the port of the descriptor that it returns, if and only
if there is no socket or some attempt to bind does not fail. -/
theorem initSocket_ends_iff (kernel : Kernel) (port : Port) (s : Sockets) :
    ((∃ result t, (initSocket kernel port false).Ends s result t) ∧
        ∀ result t, (initSocket kernel port false).Ends s result t →
          ∀ server_fd ∈ result.1, t.bound server_fd = some result.2) ↔
      kernel.socket = none ∨
        ∃ number, kernel.bindFails (s.attempts + number) (portAt port number) = false := by
  cases socket : kernel.socket with
  | none =>
      have ends : (initSocket kernel port false).Ends s (none, port) s := by
        rw [initSocket, socket]
        exact Program.ends_pure.mpr ⟨rfl, rfl⟩
      refine iff_of_true ⟨⟨_, _, ends⟩, fun result t found => ?_⟩ (.inl rfl)
      obtain ⟨rfl, -⟩ := found.unique ends
      simp
  | some fd =>
      rw [initSocket_some socket]
      simp only [reduceCtorEq, false_or]
      constructor
      · rintro ⟨⟨result, t, ends⟩, -⟩
        obtain ⟨last, u, loop, -⟩ := Program.ends_bind.mp ends
        obtain ⟨number, succeeds, -⟩ := succeeds_of_ends loop
        exact ⟨number, succeeds.1⟩
      · rintro ⟨number, free⟩
        obtain ⟨first, -, succeeds⟩ := exists_succeeds free
        have loop := @ends_of_succeeds kernel fd _ _ _ succeeds
        obtain ⟨result, t, rest, bound⟩ := @nameSocket_ends kernel fd
          (kernel.behind fd s (portAt port first) first) (portAt port first)
        have ends := (Program.ends_bind_of_ends loop).mpr rest
        refine ⟨⟨result, t, ends⟩, fun other u found => ?_⟩
        obtain ⟨rfl, rfl⟩ := ends.unique found
        exact bound

def refusing : Kernel where
  socket := some 3
  bindFails _ _ := true
  anyPort _ := 0
  nameFails := false

theorem refusing_retries :
    ¬ ∃ result t, (initSocket refusing 7000 false).Ends ⟨0, fun _ => none⟩ result t := by
  rintro ⟨result, t, ends⟩
  obtain ⟨last, u, loop, -⟩ := Program.ends_bind.mp ends
  obtain ⟨number, succeeds, -⟩ := succeeds_of_ends loop
  exact absurd succeeds.1 (by simp [refusing])

theorem initSocket_ends {kernel : Kernel} {fd number : ℕ} {port : Port} {s : Sockets}
    (socket : kernel.socket = some fd) (named : kernel.nameFails = false)
    (succeeds : kernel.Succeeds s.attempts port number) (listens : Bool) :
    ∃ bound t, (initSocket kernel port false).Ends s (some fd, bound) t ∧
      netutilsInitSocket
        ⟨true, number, kernel.anyPort (s.attempts + number), true, listens⟩ port = some bound := by
  refine ⟨kernel.portOf (s.attempts + number) (portAt port number),
    kernel.behind fd s (portAt port number) number, ?_,
    congrArg some (bindRetry_eq _ _ _)⟩
  have call : (kernel.getsockname fd).Ends (kernel.behind fd s (portAt port number) number)
      (some (htons (kernel.portOf (s.attempts + number) (portAt port number))))
      (kernel.behind fd s (portAt port number) number) :=
    Program.ends_action.mpr (by simp [named, Kernel.behind])
  rw [initSocket_some socket]
  refine (Program.ends_bind_of_ends (ends_of_succeeds succeeds)).mpr
    ((Program.ends_bind_of_ends call).mpr (Program.ends_pure.mpr ⟨?_, rfl⟩))
  rw [ntohs_htons]

end AirCast.Raop
