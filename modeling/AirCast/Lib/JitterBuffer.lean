import AirCast.Lib.Transducer

/-! # The ideal jitter buffer over unbounded sequence numbers

Packets carry integers that never wrap.  A synchronised buffer knows the number
it hands out next and every packet accepted since the window was opened; it
hands numbers out one by one, with the packet accepted under that number or
with nothing (silence).  A packet `cap` or more ahead opens a new window.

Every accepted packet is tagged with its arrival, so that the emissions of a
whole run can be compared packet by packet: `run_emits_once`. -/

set_option autoImplicit false

namespace AirCast.JitterBuffer

variable {α δ π : Type*}

structure Window (α : Type*) where
  first : ℤ
  accepted : ℤ → Option α

/-- What the buffer does with an arriving number. -/
inductive Verdict where
  | late
  | duplicate
  | fresh
  | restart
  deriving DecidableEq, Repr

namespace Window

def start (n : ℤ) (a : α) : Window α :=
  ⟨n, Function.update (fun _ => none) n (some a)⟩

def accept (w : Window α) (n : ℤ) (a : α) : Window α :=
  { w with accepted := Function.update w.accepted n (some a) }

def classify (cap : ℕ) (w : Window α) (n : ℤ) : Verdict :=
  if n < w.first then .late
  else if w.first + cap ≤ n then .restart
  else if (w.accepted n).isSome then .duplicate
  else .fresh

def Pending (cap : ℕ) (w : Window α) : Prop :=
  ∃ k < cap, (w.accepted (w.first + (k : ℕ))).isSome

instance (cap : ℕ) (w : Window α) : Decidable (w.Pending cap) :=
  inferInstanceAs (Decidable (∃ k < cap, (w.accepted (w.first + (k : ℕ))).isSome))

/-- The next number goes out if its packet is there; a missing packet is given
up when no resend can come, or when the window is full up to its last number. -/
def Emits (cap : ℕ) (noResend : Bool) (w : Window α) : Prop :=
  (w.accepted w.first).isSome ∨
    (w.Pending cap ∧ (noResend = true ∨ (w.accepted (w.first + (cap - 1))).isSome))

instance (cap : ℕ) (noResend : Bool) (w : Window α) : Decidable (w.Emits cap noResend) :=
  inferInstanceAs (Decidable (_ ∨ _))

end Window

abbrev Buffer (α : Type*) := Option (Window α)

def verdict (cap : ℕ) : Buffer α → ℤ → Verdict
  | none, _ => .restart
  | some w, n => w.classify cap n

def place (cap : ℕ) (b : Buffer α) (n : ℤ) (a : α) : Buffer α :=
  match verdict cap b n, b with
  | .late, b => b
  | .duplicate, b => b
  | .fresh, b => b.map fun w => w.accept n a
  | .restart, _ => some (.start n a)

def flush (b : Buffer α) : Option ℤ → Buffer α
  | none => none
  | some n => b.map fun _ => ⟨n, fun _ => none⟩

structure Emission (α : Type*) where
  number : ℤ
  content : Option α

def emit (cap : ℕ) (noResend : Bool) : Buffer α → Buffer α × Option (Emission α)
  | none => (none, none)
  | some w =>
      if w.Emits cap noResend then
        (some { w with first := w.first + 1 }, some ⟨w.first, w.accepted w.first⟩)
      else (some w, none)

/-! ## The machine: arrivals are decoded in order of acceptance -/

/-- `arrivals` counts the packets offered so far and tags the next one. -/
structure Ideal (δ α : Type*) where
  decoder : δ
  arrivals : ℕ
  buffer : Buffer (ℕ × α)

/-- `reject` is an arrival that is no packet. -/
inductive Op (π : Type*) where
  | offer (n : ℤ) (payload : π)
  | reject
  | emit (noResend : Bool)
  | flush (target : Option ℤ)

def step (cap : ℕ) (decode : δ → π → δ × α) (s : Ideal δ α) :
    Op π → Ideal δ α × Option (Emission (ℕ × α))
  | .offer n payload =>
      match verdict cap s.buffer n with
      | .late | .duplicate => ({ s with arrivals := s.arrivals + 1 }, none)
      | .fresh | .restart =>
          let decoded := decode s.decoder payload
          ({ decoder := decoded.1
             arrivals := s.arrivals + 1
             buffer := place cap s.buffer n (s.arrivals, decoded.2) }, none)
  | .reject => (s, none)
  | .emit noResend =>
      let out := emit cap noResend s.buffer
      ({ s with buffer := out.1 }, out.2)
  | .flush target => ({ s with buffer := flush s.buffer target }, none)

def machine (cap : ℕ) (decode : δ → π → δ × α) :
    Transducer (Ideal δ α) (Op π) (Option (Emission (ℕ × α))) :=
  ⟨step cap decode⟩

/-! ## No arrival is handed out twice -/

def Waiting (s : Ideal δ α) (tag : ℕ) : Prop :=
  ∃ w, s.buffer = some w ∧
    ∃ n, w.first ≤ n ∧ (w.accepted n).map Prod.fst = some tag

def Tagged (s : Ideal δ α) : Prop :=
  ∀ w, s.buffer = some w → ∀ n tag, (w.accepted n).map Prod.fst = some tag →
    tag < s.arrivals ∧ ∀ m, (w.accepted m).map Prod.fst = some tag → m = n

theorem accepted_start (n m : ℤ) (a : ℕ × α) (tag : ℕ)
    (found : ((Window.start n a).accepted m).map Prod.fst = some tag) :
    m = n ∧ tag = a.1 := by
  simp only [Window.start, Function.update_apply] at found
  split at found
  · rename_i same
    exact ⟨same, by simpa using found.symm⟩
  · simp at found

theorem accepted_accept (w : Window (ℕ × α)) (n m : ℤ) (a : ℕ × α) (tag : ℕ)
    (found : ((w.accept n a).accepted m).map Prod.fst = some tag) :
    (m = n ∧ tag = a.1) ∨ (m ≠ n ∧ (w.accepted m).map Prod.fst = some tag) := by
  simp only [Window.accept, Function.update_apply] at found
  split at found
  · rename_i same
    exact Or.inl ⟨same, by simpa using found.symm⟩
  · rename_i different
    exact Or.inr ⟨different, found⟩

/-- One step keeps the tags unique, and whatever waits afterwards waited before
or has just arrived. -/
theorem step_tagged (cap : ℕ) (decode : δ → π → δ × α) (s : Ideal δ α) (op : Op π)
    (tagged : Tagged s) :
    Tagged (step cap decode s op).1 ∧ s.arrivals ≤ (step cap decode s op).1.arrivals ∧
      ∀ tag, Waiting (step cap decode s op).1 tag → Waiting s tag ∨ s.arrivals ≤ tag := by
  have older : ∀ w, s.buffer = some w → ∀ n tag,
      (w.accepted n).map Prod.fst = some tag → tag < s.arrivals :=
    fun w hw n tag found => (tagged w hw n tag found).1
  cases op with
  | offer n payload =>
      have skipped : Tagged { s with arrivals := s.arrivals + 1 } := by
        intro w hw m tag found
        obtain ⟨small, unique⟩ := tagged w hw m tag found
        exact ⟨Nat.lt_succ_of_lt small, unique⟩
      have opened : ∀ decoder : δ, ∀ a : α,
          Tagged (⟨decoder, s.arrivals + 1, some (.start n (s.arrivals, a))⟩ : Ideal δ α) ∧
            ∀ tag, Waiting (⟨decoder, s.arrivals + 1,
                some (.start n (s.arrivals, a))⟩ : Ideal δ α) tag → s.arrivals ≤ tag := by
        intro decoder a
        constructor
        · intro w hw m tag found
          cases Option.some.inj hw
          obtain ⟨rfl, rfl⟩ := accepted_start n m _ tag found
          exact ⟨Nat.lt_succ_self _, fun k other => (accepted_start m k _ _ other).1⟩
        · rintro tag ⟨w, hw, m, _, found⟩
          cases Option.some.inj hw
          obtain ⟨_, rfl⟩ := accepted_start n m _ tag found
          exact le_rfl
      cases hb : s.buffer with
      | none =>
          simp only [step, hb, verdict, place]
          refine ⟨(opened _ _).1, Nat.le_succ _, fun tag waiting => Or.inr ((opened _ _).2 tag waiting)⟩
      | some w =>
          cases hv : w.classify cap n with
          | late =>
              simp only [step, hb, verdict, hv]
              exact ⟨by simpa [hb] using skipped, Nat.le_succ _, fun tag h => Or.inl (by
                simpa [Waiting, hb] using h)⟩
          | duplicate =>
              simp only [step, hb, verdict, hv]
              exact ⟨by simpa [hb] using skipped, Nat.le_succ _, fun tag h => Or.inl (by
                simpa [Waiting, hb] using h)⟩
          | restart =>
              simp only [step, hb, verdict, hv, place]
              refine ⟨(opened _ _).1, Nat.le_succ _,
                fun tag waiting => Or.inr ((opened _ _).2 tag waiting)⟩
          | fresh =>
              simp only [step, hb, verdict, hv, place, Option.map_some]
              refine ⟨?_, Nat.le_succ _, ?_⟩
              · intro w' hw' m tag found
                cases Option.some.inj hw'
                rcases accepted_accept w n m _ tag found with ⟨rfl, rfl⟩ | ⟨_, found⟩
                · refine ⟨Nat.lt_succ_self _, fun k other => ?_⟩
                  rcases accepted_accept w m k _ _ other with ⟨same, _⟩ | ⟨_, other⟩
                  · exact same
                  · exact absurd (older w hb k _ other) (lt_irrefl _)
                · obtain ⟨small, unique⟩ := tagged w hb m tag found
                  refine ⟨Nat.lt_succ_of_lt small, fun k other => ?_⟩
                  rcases accepted_accept w n k _ _ other with ⟨_, equal⟩ | ⟨_, other⟩
                  · exact absurd small (by rw [equal]; exact lt_irrefl _)
                  · exact unique k other
              · rintro tag ⟨w', hw', m, ahead, found⟩
                cases Option.some.inj hw'
                rcases accepted_accept w n m _ tag found with ⟨_, rfl⟩ | ⟨_, found⟩
                · exact Or.inr le_rfl
                · exact Or.inl ⟨w, hb, m, ahead, found⟩
  | reject => exact ⟨tagged, le_rfl, fun tag waiting => Or.inl waiting⟩
  | emit noResend =>
      cases hb : s.buffer with
      | none =>
          simp only [step, hb, emit]
          exact ⟨by simp [Tagged], le_rfl, fun tag h => by
            obtain ⟨w, hw, _⟩ := h
            simp at hw⟩
      | some w =>
          simp only [step, hb, emit]
          split
          · refine ⟨?_, le_rfl, ?_⟩
            · intro w' hw' m tag found
              cases Option.some.inj hw'
              exact tagged w hb m tag found
            · rintro tag ⟨w', hw', m, ahead, found⟩
              cases Option.some.inj hw'
              refine Or.inl ⟨w, hb, m, ?_, found⟩
              dsimp only at ahead
              omega
          · refine ⟨?_, le_rfl, ?_⟩
            · intro w' hw' m tag found
              cases Option.some.inj hw'
              exact tagged w hb m tag found
            · rintro tag ⟨w', hw', rest⟩
              cases Option.some.inj hw'
              exact Or.inl ⟨w, hb, rest⟩
  | flush target =>
      simp only [step]
      refine ⟨?_, le_rfl, ?_⟩
      · intro w hw m tag found
        cases target with
        | none => simp [flush] at hw
        | some n =>
            cases hb : s.buffer with
            | none => simp [flush, hb] at hw
            | some old =>
                simp only [flush, hb, Option.map_some] at hw
                cases Option.some.inj hw
                simp at found
      · rintro tag ⟨w, hw, m, _, found⟩
        cases target with
        | none => simp [flush] at hw
        | some n =>
            cases hb : s.buffer with
            | none => simp [flush, hb] at hw
            | some old =>
                simp only [flush, hb, Option.map_some] at hw
                cases Option.some.inj hw
                simp at found

theorem step_emits (cap : ℕ) (decode : δ → π → δ × α) (s : Ideal δ α) (op : Op π)
    (tagged : Tagged s) (e : Emission (ℕ × α)) (tag : ℕ)
    (out : (step cap decode s op).2 = some e) (content : e.content.map Prod.fst = some tag) :
    Waiting s tag ∧ tag < s.arrivals ∧ ¬ Waiting (step cap decode s op).1 tag := by
  cases op with
  | offer n payload =>
      cases hv : verdict cap s.buffer n <;> simp [step, hv] at out
  | reject => simp [step] at out
  | flush target => simp [step] at out
  | emit noResend =>
      cases hb : s.buffer with
      | none => simp [step, hb, emit] at out
      | some w =>
          simp only [step, hb, emit] at out ⊢
          split at out
          · rename_i emits
            rw [if_pos emits]
            cases Option.some.inj out
            dsimp only at content
            obtain ⟨small, unique⟩ := tagged w hb w.first tag content
            refine ⟨⟨w, hb, w.first, le_rfl, content⟩, small, ?_⟩
            rintro ⟨w', hw', m, ahead, found⟩
            cases Option.some.inj hw'
            have same := unique m found
            dsimp only at ahead
            omega
          · simp at out

def tags (answers : List (Option (Emission (ℕ × α)))) : List ℕ :=
  answers.filterMap fun answer => answer.bind fun e => e.content.map Prod.fst

theorem run_tags (cap : ℕ) (decode : δ → π → δ × α) :
    ∀ (ops : List (Op π)) (s : Ideal δ α), Tagged s →
      (tags ((machine cap decode).run s ops).2).Nodup ∧
        ∀ tag ∈ tags ((machine cap decode).run s ops).2, Waiting s tag ∨ s.arrivals ≤ tag := by
  intro ops
  induction ops with
  | nil => intro s _; simp [tags]
  | cons op rest ih =>
      intro s tagged
      obtain ⟨nextTagged, arrivals, waits⟩ := step_tagged cap decode s op tagged
      obtain ⟨restNodup, restWaits⟩ := ih _ nextTagged
      have restOld : ∀ tag ∈ tags ((machine cap decode).run (step cap decode s op).1 rest).2,
          Waiting s tag ∨ s.arrivals ≤ tag := by
        intro tag member
        rcases restWaits tag member with waiting | young
        · exact waits tag waiting
        · exact Or.inr (arrivals.trans young)
      have split : tags ((machine cap decode).run s (op :: rest)).2 =
          tags [(step cap decode s op).2] ++
            tags ((machine cap decode).run (step cap decode s op).1 rest).2 := by
        rw [Transducer.run_cons]
        simp only [tags, machine]
        rw [← List.filterMap_append]
        rfl
      rw [split]
      cases out : (step cap decode s op).2 with
      | none =>
          have silent : tags [(none : Option (Emission (ℕ × α)))] = [] := by simp [tags]
          rw [silent]
          exact ⟨restNodup, restOld⟩
      | some e =>
          cases content : e.content.map Prod.fst with
          | none =>
              have silent : tags [some e] = [] := by simp [tags, content]
              rw [silent]
              exact ⟨restNodup, restOld⟩
          | some tag =>
              have single : tags [some e] = [tag] := by simp [tags, content]
              obtain ⟨waiting, small, gone⟩ := step_emits cap decode s op tagged e tag out content
              rw [single]
              refine ⟨List.nodup_cons.mpr ⟨fun member => ?_, restNodup⟩, ?_⟩
              · rcases restWaits tag member with again | young
                · exact gone again
                · exact absurd (arrivals.trans young) (Nat.not_le.mpr small)
              · intro other member
                rcases List.mem_cons.mp member with rfl | member
                · exact Or.inl waiting
                · exact restOld other member

theorem run_emits_once (cap : ℕ) (decode : δ → π → δ × α) (decoder : δ) (ops : List (Op π)) :
    (tags ((machine cap decode).run ⟨decoder, 0, none⟩ ops).2).Nodup := by
  refine (run_tags cap decode ops ⟨decoder, 0, none⟩ ?_).1
  intro w hw
  simp at hw

section Map

variable {β ε ρ : Type*}

def Window.map (f : α → β) (w : Window α) : Window β := ⟨w.first, fun n => (w.accepted n).map f⟩

def Emission.map (f : α → β) (e : Emission α) : Emission β := ⟨e.number, e.content.map f⟩

def Op.map (code : ρ → π) : Op ρ → Op π
  | .offer n payload => .offer n (code payload)
  | .reject => .reject
  | .emit noResend => .emit noResend
  | .flush target => .flush target

variable (f : α → β) (cap : ℕ)

theorem verdict_map (b : Buffer α) (n : ℤ) :
    verdict cap (b.map (Window.map f)) n = verdict cap b n := by
  cases b with
  | none => rfl
  | some w => simp only [Option.map_some, verdict, Window.classify, Window.map, Option.isSome_map]

theorem place_map (b : Buffer α) (n : ℤ) (a : α) :
    place cap (b.map (Window.map f)) n (f a) = (place cap b n a).map (Window.map f) := by
  have opened : Window.start n (f a) = (Window.start n a).map f := by
    simp only [Window.start, Window.map, Window.mk.injEq, true_and]
    funext m
    by_cases same : m = n <;> simp [same]
  simp only [place, verdict_map]
  cases verdict cap b n with
  | late | duplicate => rfl
  | restart => exact congrArg some opened
  | fresh =>
      cases b with
      | none => rfl
      | some w =>
          simp only [Option.map_some, Window.accept, Window.map, Option.some.injEq,
            Window.mk.injEq, true_and]
          funext m
          by_cases same : m = n <;> simp [same]

theorem flush_map (b : Buffer α) (target : Option ℤ) :
    flush (b.map (Window.map f)) target = (flush b target).map (Window.map f) := by
  cases target with
  | none => rfl
  | some n => cases b <;> rfl

theorem emit_map (noResend : Bool) (b : Buffer α) :
    emit cap noResend (b.map (Window.map f)) =
      ((emit cap noResend b).1.map (Window.map f),
        (emit cap noResend b).2.map (Emission.map f)) := by
  cases b with
  | none => rfl
  | some w =>
      have same : (w.map f).Emits cap noResend ↔ w.Emits cap noResend := by
        simp only [Window.Emits, Window.Pending, Window.map, Option.isSome_map]
      simp only [Option.map_some, emit, same]
      split <;> rfl

/-- One machine holds what `f` makes of the content of the other. -/
def Mapped (R : δ → ε → Prop) (s : Ideal δ β) (t : Ideal ε α) : Prop :=
  R s.decoder t.decoder ∧ s.arrivals = t.arrivals ∧
    s.buffer = t.buffer.map (Window.map (Prod.map id f))

/-- Two machines whose decoders do the same to their packets go on alike. -/
theorem step_map {decode : δ → π → δ × β} {decode' : ε → ρ → ε × α} {R : δ → ε → Prop}
    {code : ρ → π} (decodes : ∀ d e payload, R d e →
      R (decode d (code payload)).1 (decode' e payload).1 ∧
        (decode d (code payload)).2 = f (decode' e payload).2)
    {s : Ideal δ β} {t : Ideal ε α} (mapped : Mapped f R s t) (op : Op ρ) :
    Mapped f R (step cap decode s (op.map code)).1 (step cap decode' t op).1 ∧
      (step cap decode s (op.map code)).2 =
        (step cap decode' t op).2.map (Emission.map (Prod.map id f)) := by
  obtain ⟨related, arrivals, buffer⟩ := mapped
  cases op with
  | reject => exact ⟨⟨related, arrivals, buffer⟩, rfl⟩
  | flush target =>
      refine ⟨⟨related, arrivals, ?_⟩, rfl⟩
      rw [Op.map, step, step, buffer, flush_map]
  | emit noResend =>
      have both := emit_map (Prod.map id f : ℕ × α → ℕ × β) cap noResend t.buffer
      rw [Op.map, step, step, buffer, both]
      exact ⟨⟨related, arrivals, rfl⟩, rfl⟩
  | offer n payload =>
      obtain ⟨next, content⟩ := decodes s.decoder t.decoder payload related
      have same : verdict cap s.buffer n = verdict cap t.buffer n := by
        rw [buffer, verdict_map]
      have placed : place cap s.buffer n (s.arrivals, (decode s.decoder (code payload)).2) =
          (place cap t.buffer n (t.arrivals, (decode' t.decoder payload).2)).map
            (Window.map (Prod.map id f)) := by
        rw [buffer, arrivals, content]
        exact place_map (Prod.map id f) cap t.buffer n (t.arrivals, (decode' t.decoder payload).2)
      simp only [Op.map, step, same]
      cases verdict cap t.buffer n with
      | late | duplicate => exact ⟨⟨related, congrArg (· + 1) arrivals, buffer⟩, rfl⟩
      | fresh | restart => exact ⟨⟨next, congrArg (· + 1) arrivals, placed⟩, rfl⟩

end Map

end AirCast.JitterBuffer
