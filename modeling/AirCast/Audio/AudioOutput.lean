import AirCast.Audio.CircularBuffer

/-! # No audio lost or reordered

Every chunk is in one place, and the bytes accepted are those delivered, those left
in the chunk being drained, the chunks of the full queue and the bytes in the chunk
being filled, in this order.  Each step of either thread keeps that. -/

set_option autoImplicit false

namespace AirCast.Audio

namespace CircularBuffer

variable {chunksCount chunkSize : ℕ}

/-! ## The invariant -/

def filling (buffer : CircularBuffer) : Bytes :=
  match buffer.pushChunk with
  | some chunk => (buffer.chunk chunk).take buffer.pushChunkSize
  | none => []

def draining (chunkSize : ℕ) (buffer : CircularBuffer) : Bytes :=
  match buffer.popChunk with
  | some chunk => (buffer.chunk chunk).drop (chunkSize - buffer.popChunkSize)
  | none => []

/-- What holds of the producer's variables at each place of its loop. -/
def Pushing (chunkSize : ℕ) (buffer : CircularBuffer) : Prop :=
  match buffer.producer with
  | .idle => buffer.pushChunk ≠ none → buffer.pushChunkSize < chunkSize
  | .loop buf pushed =>
      pushed ≤ buf.length ∧ (buffer.pushChunk ≠ none → buffer.pushChunkSize < chunkSize)
  | .copy buf pushed =>
      pushed < buf.length ∧ buffer.pushChunk ≠ none ∧ buffer.pushChunkSize < chunkSize
  | .handOver buf pushed =>
      pushed ≤ buf.length ∧ buffer.pushChunk ≠ none ∧ buffer.pushChunkSize = chunkSize

/-- What holds of the consumer's variables at each place of its loop. -/
def Popping (chunkSize : ℕ) (buffer : CircularBuffer) : Prop :=
  match buffer.consumer with
  | .idle => buffer.popChunk ≠ none → 0 < buffer.popChunkSize ∧ buffer.popChunkSize ≤ chunkSize
  | .loop bufSize popped => popped.length ≤ bufSize ∧
      (buffer.popChunk ≠ none → 0 < buffer.popChunkSize ∧ buffer.popChunkSize ≤ chunkSize)
  | .copy bufSize popped => popped.length < bufSize ∧ buffer.popChunk ≠ none ∧
      0 < buffer.popChunkSize ∧ buffer.popChunkSize ≤ chunkSize
  | .giveBack bufSize popped => popped.length ≤ bufSize ∧ buffer.popChunk ≠ none ∧
      buffer.popChunkSize = 0

structure Sound (chunksCount chunkSize : ℕ) (buffer : CircularBuffer)
    (free full : List ℕ) : Prop where
  freeHolds : buffer.freeQueue.Holds chunksCount free
  fullHolds : buffer.fullQueue.Holds chunksCount full
  onePlace : (free ++ full ++ buffer.pushChunk.toList ++ buffer.popChunk.toList).Perm
    (List.range chunksCount)
  sizes : ∀ i, (buffer.chunk i).length = chunkSize
  pushing : buffer.Pushing chunkSize
  popping : buffer.Popping chunkSize
  stream : buffer.accepted = buffer.delivered ++ buffer.draining chunkSize ++
    full.flatMap buffer.chunk ++ buffer.filling

variable {buffer : CircularBuffer} {free full : List ℕ}

theorem Sound.pushChunk_alone (sound : buffer.Sound chunksCount chunkSize free full) {chunk : ℕ}
    (here : buffer.pushChunk = some chunk) :
    chunk ∉ full ∧ buffer.popChunk ≠ some chunk := by
  have nodup := sound.onePlace.nodup_iff.mpr List.nodup_range
  rw [here, Option.toList_some, List.append_assoc, List.append_assoc,
    List.nodup_append] at nodup
  obtain ⟨-, nodup, -⟩ := nodup
  rw [← List.append_assoc, List.nodup_append] at nodup
  obtain ⟨nodup, -, apart⟩ := nodup
  rw [List.nodup_append] at nodup
  refine ⟨fun member => nodup.2.2 chunk member chunk (List.mem_singleton_self _) rfl, ?_⟩
  intro drained
  exact apart chunk (List.mem_append_right _ (List.mem_singleton_self _)) chunk
    (by simp [drained]) rfl

theorem Sound.room (sound : buffer.Sound chunksCount chunkSize free full)
    (held : buffer.pushChunk ≠ none ∨ buffer.popChunk ≠ none) :
    free.length < chunksCount ∧ full.length < chunksCount := by
  have total := sound.onePlace.length_eq
  have one : 0 < buffer.pushChunk.toList.length + buffer.popChunk.toList.length := by
    rcases held with push | pop
    · obtain ⟨chunk, here⟩ := Option.ne_none_iff_exists'.mp push
      simp [here]
    · obtain ⟨chunk, here⟩ := Option.ne_none_iff_exists'.mp pop
      simp [here]
  simp only [List.length_append, List.length_range] at total
  omega

section producing

variable {buf : Bytes} {pushed : ℕ}

theorem Sound.producer (sound : buffer.Sound chunksCount chunkSize free full)
    (producer : Producer) (frames : List OutputFrame)
    (same : frames.flatMap OutputFrame.accepted ++ producer.accepted = buffer.accepted)
    (pushing : ({ buffer with producer := producer, frames := frames }).Pushing chunkSize) :
    ({ buffer with producer := producer, frames := frames }).Sound chunksCount chunkSize
      free full :=
  ⟨sound.freeHolds, sound.fullHolds, sound.onePlace, sound.sizes, pushing, sound.popping,
    same.trans sound.stream⟩

theorem Sound.takeFree {chunk : ℕ} {freeQueue : CircularFifo ℕ}
    (sound : buffer.Sound chunksCount chunkSize (chunk :: free) full)
    (loop : buffer.producer = .loop buf pushed) (more : pushed < buf.length)
    (nothing : buffer.pushChunk = none) (positive : 0 < chunkSize)
    (taken : freeQueue.Holds chunksCount free) :
    ({ buffer with
        freeQueue := freeQueue
        pushChunk := some chunk
        pushChunkSize := 0
        producer := .copy buf pushed }).Sound chunksCount chunkSize free full := by
  refine ⟨taken, sound.fullHolds, ?_, sound.sizes, ⟨more, by simp, positive⟩, sound.popping, ?_⟩
  · refine (List.perm_iff_count.mpr fun i => ?_).trans sound.onePlace
    simp only [nothing, List.count_append, List.count_cons, Option.toList_some,
      Option.toList_none, List.count_nil]
    omega
  · have stream := sound.stream
    simp only [accepted, delivered, filling, draining, loop, nothing, Producer.accepted] at stream ⊢
    simpa using stream

/-- The producer copies into its chunk. -/
theorem Sound.copyIn {chunk toPush : ℕ}
    (sound : buffer.Sound chunksCount chunkSize free full)
    (copy : buffer.producer = .copy buf pushed) (here : buffer.pushChunk = some chunk)
    (enough : toPush = min (buf.length - pushed) (chunkSize - buffer.pushChunkSize)) :
    ({ buffer with
        chunk := Function.update buffer.chunk chunk
          (overwrite (buffer.chunk chunk) buffer.pushChunkSize ((buf.drop pushed).take toPush))
        pushChunkSize := buffer.pushChunkSize + toPush
        producer :=
          if buffer.pushChunkSize + toPush = chunkSize then .handOver buf (pushed + toPush)
          else .loop buf (pushed + toPush) }).Sound chunksCount chunkSize free full := by
  have pushing := sound.pushing
  simp only [Pushing, copy] at pushing
  obtain ⟨more, _, unfilled⟩ := pushing
  obtain ⟨notFull, notDrained⟩ := sound.pushChunk_alone here
  have length : ((buf.drop pushed).take toPush).length = toPush := by
    rw [List.length_take, List.length_drop]
    omega
  refine ⟨sound.freeHolds, sound.fullHolds, sound.onePlace, ?_, ?_, sound.popping, ?_⟩
  · intro i
    by_cases same : i = chunk
    · subst same
      simp only [Function.update_self, overwrite, List.length_append, List.length_take,
        List.length_drop, length, sound.sizes]
      omega
    · simp only [Function.update_of_ne same]
      exact sound.sizes i
  · simp only [Pushing]
    split_ifs with whole
    · exact ⟨by omega, by simp [here], whole⟩
    · exact ⟨by omega, fun _ => by omega⟩
  · have stream := sound.stream
    have written : ((overwrite (buffer.chunk chunk) buffer.pushChunkSize
        ((buf.drop pushed).take toPush)).take (buffer.pushChunkSize + toPush)) =
        (buffer.chunk chunk).take buffer.pushChunkSize ++ (buf.drop pushed).take toPush := by
      have inside : buffer.pushChunkSize ≤ (buffer.chunk chunk).length := by
        rw [sound.sizes]
        omega
      have cut := take_overwrite ((buf.drop pushed).take toPush) inside
      rwa [length] at cut
    have others : full.flatMap (Function.update buffer.chunk chunk
        (overwrite (buffer.chunk chunk) buffer.pushChunkSize ((buf.drop pushed).take toPush))) =
        full.flatMap buffer.chunk := by
      refine List.flatMap_congr fun i member => Function.update_of_ne ?_ _ _
      rintro rfl
      exact notFull member
    have drained : ∀ i, buffer.popChunk = some i → Function.update buffer.chunk chunk
        (overwrite (buffer.chunk chunk) buffer.pushChunkSize ((buf.drop pushed).take toPush)) i =
        buffer.chunk i := by
      rintro i other
      refine Function.update_of_ne ?_ _ _
      rintro rfl
      exact notDrained other
    have consumed : (if buffer.pushChunkSize + toPush = chunkSize then
        Producer.handOver buf (pushed + toPush) else .loop buf (pushed + toPush)).accepted =
        buf.take pushed ++ (buf.drop pushed).take toPush := by
      rw [← List.take_add]
      split_ifs <;> rfl
    simp only [accepted, delivered, filling, draining, copy, here, Producer.accepted] at stream
    simp only [accepted, delivered, filling, draining, here, consumed, Function.update_self,
      written, others]
    rw [← List.append_assoc, stream]
    cases pop : buffer.popChunk with
    | none => simp
    | some i => simp [drained i pop]

theorem Sound.handOver {chunk : ℕ} {fullQueue : CircularFifo ℕ}
    (sound : buffer.Sound chunksCount chunkSize free full)
    (handOver : buffer.producer = .handOver buf pushed) (here : buffer.pushChunk = some chunk)
    (given : fullQueue.Holds chunksCount (full ++ [chunk])) :
    ({ buffer with
        fullQueue := fullQueue
        pushChunk := none
        producer := .loop buf pushed }).Sound chunksCount chunkSize free (full ++ [chunk]) := by
  have pushing := sound.pushing
  simp only [Pushing, handOver] at pushing
  obtain ⟨bound, _, whole⟩ := pushing
  refine ⟨sound.freeHolds, given, ?_, sound.sizes, ⟨bound, fun none => absurd rfl none⟩,
    sound.popping, ?_⟩
  · refine (List.perm_iff_count.mpr fun i => ?_).trans sound.onePlace
    simp only [here, List.count_append, Option.toList_some, Option.toList_none, List.count_nil]
    omega
  · have stream := sound.stream
    have all : (buffer.chunk chunk).take buffer.pushChunkSize = buffer.chunk chunk :=
      List.take_of_length_le (by rw [sound.sizes, whole])
    simp only [accepted, delivered, filling, draining, handOver, here, Producer.accepted,
      all] at stream ⊢
    rw [stream]
    simp

end producing

theorem Sound.pushStep (positive : 0 < chunkSize)
    (sound : buffer.Sound chunksCount chunkSize free full) :
    ∃ next free' full', buffer.pushStep chunkSize = some next ∧
      next.Sound chunksCount chunkSize free' full' := by
  have pushing := sound.pushing
  unfold Pushing at pushing
  cases place : buffer.producer with
  | idle => exact ⟨buffer, free, full, by simp [CircularBuffer.pushStep, place], sound⟩
  | loop buf pushed =>
      simp only [place] at pushing
      obtain ⟨bound, room⟩ := pushing
      have ended : (buffer.frames ++ [OutputFrame.mk buf pushed]).flatMap OutputFrame.accepted ++
          Producer.idle.accepted = buffer.accepted := by
        rw [accepted, place]
        simp [Producer.accepted, OutputFrame.accepted]
      by_cases more : pushed < buf.length
      · rcases Option.eq_none_or_eq_some buffer.pushChunk with here | ⟨chunk, here⟩
        · cases free with
          | nil =>
              exact ⟨_, [], full,
                by simp [CircularBuffer.pushStep, place, more, here, sound.freeHolds.pop_nil],
                sound.producer .idle _ ended room⟩
          | cons chunk free =>
              obtain ⟨freeQueue, popped, taken⟩ := sound.freeHolds.pop_cons
              exact ⟨_, free, full,
                by simp [CircularBuffer.pushStep, place, more, here, popped],
                sound.takeFree place more here positive taken⟩
        · have held : buffer.pushChunk ≠ none := by simp [here]
          exact ⟨_, free, full, by simp [CircularBuffer.pushStep, place, more, here],
            sound.producer (.copy buf pushed) buffer.frames (by rw [accepted, place]; rfl)
              ⟨more, held, room held⟩⟩
      · exact ⟨_, free, full, by simp [CircularBuffer.pushStep, place, more],
          sound.producer .idle _ ended room⟩
  | copy buf pushed =>
      simp only [place] at pushing
      obtain ⟨chunk, here⟩ := Option.ne_none_iff_exists'.mp pushing.2.1
      exact ⟨_, free, full, by simp [CircularBuffer.pushStep, place, here],
        sound.copyIn place here rfl⟩
  | handOver buf pushed =>
      simp only [place] at pushing
      obtain ⟨chunk, here⟩ := Option.ne_none_iff_exists'.mp pushing.2.1
      obtain ⟨fullQueue, given, holds⟩ :=
        sound.fullHolds.push chunk (sound.room (Or.inl pushing.2.1)).2
      exact ⟨_, free, full ++ [chunk], by simp [CircularBuffer.pushStep, place, here, given],
        sound.handOver place here holds⟩

section consuming

variable {bufSize : ℕ} {popped : Bytes}

theorem Sound.consumer (sound : buffer.Sound chunksCount chunkSize free full)
    (consumer : Consumer) (deliveries : List Delivery)
    (same : deliveries.flatMap Delivery.popped ++ consumer.popped = buffer.delivered)
    (popping : ({ buffer with
      consumer := consumer, deliveries := deliveries }).Popping chunkSize) :
    ({ buffer with consumer := consumer, deliveries := deliveries }).Sound chunksCount chunkSize
      free full := by
  refine ⟨sound.freeHolds, sound.fullHolds, sound.onePlace, sound.sizes, sound.pushing, popping,
    sound.stream.trans ?_⟩
  rw [← same]
  rfl

theorem Sound.takeFull {chunk : ℕ} {fullQueue : CircularFifo ℕ}
    (sound : buffer.Sound chunksCount chunkSize free (chunk :: full))
    (loop : buffer.consumer = .loop bufSize popped) (more : popped.length < bufSize)
    (nothing : buffer.popChunk = none) (positive : 0 < chunkSize)
    (taken : fullQueue.Holds chunksCount full) :
    ({ buffer with
        fullQueue := fullQueue
        popChunk := some chunk
        popChunkSize := chunkSize
        consumer := .copy bufSize popped }).Sound chunksCount chunkSize free full := by
  refine ⟨sound.freeHolds, taken, ?_, sound.sizes, sound.pushing,
    ⟨more, by simp, positive, le_refl _⟩, ?_⟩
  · refine (List.perm_iff_count.mpr fun i => ?_).trans sound.onePlace
    simp only [nothing, List.count_append, List.count_cons, Option.toList_some,
      Option.toList_none, List.count_nil]
    omega
  · have stream := sound.stream
    simp only [accepted, delivered, filling, draining, loop, nothing, Consumer.popped] at stream ⊢
    simpa using stream

/-- The consumer copies out of its chunk. -/
theorem Sound.copyOut {chunk toPop : ℕ}
    (sound : buffer.Sound chunksCount chunkSize free full)
    (copy : buffer.consumer = .copy bufSize popped) (here : buffer.popChunk = some chunk)
    (enough : toPop = min (bufSize - popped.length) buffer.popChunkSize) :
    ({ buffer with
        popChunkSize := buffer.popChunkSize - toPop
        consumer :=
          if buffer.popChunkSize - toPop = 0 then
            .giveBack bufSize
              (popped ++ window (buffer.chunk chunk) (chunkSize - buffer.popChunkSize) toPop)
          else
            .loop bufSize
              (popped ++ window (buffer.chunk chunk) (chunkSize - buffer.popChunkSize) toPop)
      }).Sound chunksCount chunkSize free full := by
  have popping := sound.popping
  simp only [Popping, copy] at popping
  obtain ⟨more, held, positive, bound⟩ := popping
  have length :
      (window (buffer.chunk chunk) (chunkSize - buffer.popChunkSize) toPop).length = toPop := by
    rw [window, List.length_take, List.length_drop, sound.sizes]
    omega
  refine ⟨sound.freeHolds, sound.fullHolds, sound.onePlace, sound.sizes, sound.pushing, ?_, ?_⟩
  · simp only [Popping]
    split_ifs with drained
    · exact ⟨by rw [List.length_append, length]; omega, held, drained⟩
    · exact ⟨by rw [List.length_append, length]; omega, fun _ => ⟨by omega, by omega⟩⟩
  · have stream := sound.stream
    have delivered_ : (if buffer.popChunkSize - toPop = 0 then
        Consumer.giveBack bufSize
          (popped ++ window (buffer.chunk chunk) (chunkSize - buffer.popChunkSize) toPop)
        else .loop bufSize
          (popped ++ window (buffer.chunk chunk) (chunkSize - buffer.popChunkSize) toPop)).popped =
        popped ++ window (buffer.chunk chunk) (chunkSize - buffer.popChunkSize) toPop := by
      split_ifs <;> rfl
    have rest : (buffer.chunk chunk).drop (chunkSize - buffer.popChunkSize) =
        window (buffer.chunk chunk) (chunkSize - buffer.popChunkSize) toPop ++
          (buffer.chunk chunk).drop (chunkSize - (buffer.popChunkSize - toPop)) := by
      have offset : chunkSize - (buffer.popChunkSize - toPop) =
          chunkSize - buffer.popChunkSize + toPop := by omega
      rw [window, offset, ← List.drop_drop, List.take_append_drop]
    simp only [accepted, delivered, filling, draining, copy, here, Consumer.popped,
      rest] at stream
    simp only [accepted, delivered, filling, draining, here, delivered_]
    rw [stream]
    simp only [List.append_assoc]

theorem Sound.giveBack {chunk : ℕ} {freeQueue : CircularFifo ℕ}
    (sound : buffer.Sound chunksCount chunkSize free full)
    (giveBack : buffer.consumer = .giveBack bufSize popped)
    (here : buffer.popChunk = some chunk)
    (given : freeQueue.Holds chunksCount (free ++ [chunk])) :
    ({ buffer with
        freeQueue := freeQueue
        popChunk := none
        consumer := .loop bufSize popped }).Sound chunksCount chunkSize (free ++ [chunk]) full := by
  have popping := sound.popping
  simp only [Popping, giveBack] at popping
  obtain ⟨bound, _, drained⟩ := popping
  refine ⟨given, sound.fullHolds, ?_, sound.sizes, sound.pushing,
    ⟨bound, fun none => absurd rfl none⟩, ?_⟩
  · refine (List.perm_iff_count.mpr fun i => ?_).trans sound.onePlace
    simp only [here, List.count_append, Option.toList_some, Option.toList_none, List.count_nil]
    omega
  · have stream := sound.stream
    have nothing : (buffer.chunk chunk).drop (chunkSize - buffer.popChunkSize) = [] :=
      List.drop_eq_nil_of_le (by rw [sound.sizes, drained]; exact le_refl _)
    simp only [accepted, delivered, filling, draining, giveBack, here, Consumer.popped,
      nothing] at stream ⊢
    exact stream

end consuming

theorem Sound.popStep (positive : 0 < chunkSize)
    (sound : buffer.Sound chunksCount chunkSize free full) :
    ∃ next free' full', buffer.popStep chunkSize = some next ∧
      next.Sound chunksCount chunkSize free' full' := by
  have popping := sound.popping
  unfold Popping at popping
  cases place : buffer.consumer with
  | idle => exact ⟨buffer, free, full, by simp [CircularBuffer.popStep, place], sound⟩
  | loop bufSize popped =>
      simp only [place] at popping
      obtain ⟨bound, room⟩ := popping
      have ended : (buffer.deliveries ++ [Delivery.mk popped (bufSize - popped.length)]).flatMap
          Delivery.popped ++ Consumer.idle.popped = buffer.delivered := by
        rw [delivered, place]
        simp [Consumer.popped]
      by_cases more : popped.length < bufSize
      · rcases Option.eq_none_or_eq_some buffer.popChunk with here | ⟨chunk, here⟩
        · cases full with
          | nil =>
              exact ⟨_, free, [],
                by simp [CircularBuffer.popStep, place, more, here, sound.fullHolds.pop_nil],
                sound.consumer .idle _ ended room⟩
          | cons chunk full =>
              obtain ⟨fullQueue, gone, taken⟩ := sound.fullHolds.pop_cons
              exact ⟨_, free, full,
                by simp [CircularBuffer.popStep, place, more, here, gone],
                sound.takeFull place more here positive taken⟩
        · have held : buffer.popChunk ≠ none := by simp [here]
          exact ⟨_, free, full, by simp [CircularBuffer.popStep, place, more, here],
            sound.consumer (.copy bufSize popped) buffer.deliveries
              (by rw [delivered, place]; rfl) ⟨more, held, room held⟩⟩
      · exact ⟨_, free, full, by simp [CircularBuffer.popStep, place, more],
          sound.consumer .idle _ ended room⟩
  | copy bufSize popped =>
      simp only [place] at popping
      obtain ⟨chunk, here⟩ := Option.ne_none_iff_exists'.mp popping.2.1
      exact ⟨_, free, full, by simp [CircularBuffer.popStep, place, here],
        sound.copyOut place here rfl⟩
  | giveBack bufSize popped =>
      simp only [place] at popping
      obtain ⟨chunk, here⟩ := Option.ne_none_iff_exists'.mp popping.2.1
      obtain ⟨freeQueue, given, holds⟩ :=
        sound.freeHolds.push chunk (sound.room (Or.inr popping.2.1)).1
      exact ⟨_, free ++ [chunk], full, by simp [CircularBuffer.popStep, place, here, given],
        sound.giveBack place here holds⟩

/-! ## Every run -/

theorem Sound.step (positive : 0 < chunkSize)
    (sound : buffer.Sound chunksCount chunkSize free full) (event : Event) :
    ∃ next free' full', buffer.step chunkSize event = some next ∧
      next.Sound chunksCount chunkSize free' full' := by
  cases event with
  | outputFrame buf =>
      have pushing := sound.pushing
      unfold Pushing at pushing
      cases place : buffer.producer with
      | idle =>
          simp only [place] at pushing
          exact ⟨_, free, full, by simp only [CircularBuffer.step, place],
            sound.producer (.loop buf 0) buffer.frames (by rw [accepted, place]; rfl)
              ⟨Nat.zero_le _, pushing⟩⟩
      | loop _ _ => exact ⟨buffer, free, full, by simp only [CircularBuffer.step, place], sound⟩
      | copy _ _ => exact ⟨buffer, free, full, by simp only [CircularBuffer.step, place], sound⟩
      | handOver _ _ =>
          exact ⟨buffer, free, full, by simp only [CircularBuffer.step, place], sound⟩
  | onAudioReady bytesPerFrame numFrames =>
      have popping := sound.popping
      unfold Popping at popping
      cases place : buffer.consumer with
      | idle =>
          simp only [place] at popping
          exact ⟨_, free, full, by simp only [CircularBuffer.step, place],
            sound.consumer (.loop (bytesPerFrame * numFrames) []) buffer.deliveries
              (by rw [delivered, place]; rfl) ⟨Nat.zero_le _, popping⟩⟩
      | loop _ _ => exact ⟨buffer, free, full, by simp only [CircularBuffer.step, place], sound⟩
      | copy _ _ => exact ⟨buffer, free, full, by simp only [CircularBuffer.step, place], sound⟩
      | giveBack _ _ =>
          exact ⟨buffer, free, full, by simp only [CircularBuffer.step, place], sound⟩
  | produce => exact sound.pushStep positive
  | consume => exact sound.popStep positive

theorem flushChunks_holds {freeQueue : CircularFifo ℕ} (first count : ℕ)
    (holds : freeQueue.Holds chunksCount free) (room : free.length + count ≤ chunksCount) :
    ((List.range' first count).foldl (fun queue i => (queue.push i).getD queue)
      freeQueue).Holds chunksCount (free ++ List.range' first count) := by
  induction count generalizing first free freeQueue with
  | zero => simpa using holds
  | succ count ih =>
      obtain ⟨next, pushed, holds⟩ := holds.push first (by omega)
      rw [List.range'_succ, List.foldl_cons, pushed, Option.getD_some]
      have rest := ih (first + 1) holds
        (by rw [List.length_append, List.length_singleton]; omega)
      rwa [List.append_assoc, List.singleton_append] at rest

theorem new_sound (memory : Uninitialised chunksCount chunkSize) (some : 0 < chunksCount)
    (positive : 0 < chunkSize) :
    (new memory).Sound chunksCount chunkSize (List.range' 1 (chunksCount - 1)) [] := by
  have free := flushChunks_holds 1 (chunksCount - 1)
    (CircularFifo.empty_holds memory.freeArray memory.freeCapacity) (by simp)
  refine ⟨free, CircularFifo.empty_holds _ memory.fullCapacity, ?_,
    memory.chunkSizes, fun _ => positive, fun held => absurd rfl held, rfl⟩
  have range : List.range chunksCount = 0 :: List.range' 1 (chunksCount - 1) := by
    obtain ⟨rest, rfl⟩ := Nat.exists_eq_succ_of_ne_zero some.ne'
    rw [List.range_eq_range', List.range'_succ]
    rfl
  rw [range]
  simp only [new, Option.toList_some, Option.toList_none, List.append_nil]
  exact List.perm_append_comm

theorem after_sound (memory : Uninitialised chunksCount chunkSize) (some : 0 < chunksCount)
    (positive : 0 < chunkSize) (events : List Event) :
    ∃ buffer free full, after memory events = Option.some buffer ∧
      buffer.Sound chunksCount chunkSize free full := by
  induction events using List.reverseRecOn with
  | nil => exact ⟨_, _, _, rfl, new_sound memory some positive⟩
  | append_singleton events event ih =>
      obtain ⟨buffer, free, full, ran, sound⟩ := ih
      obtain ⟨next, free', full', stepped, sound⟩ := sound.step positive event
      refine ⟨next, free', full', ?_, sound⟩
      unfold after at ran ⊢
      rw [List.foldlM_append, ran]
      simp [stepped]

/-! ## The end of a call -/

theorem pushStep_deliveries {next : CircularBuffer}
    (ran : buffer.pushStep chunkSize = some next) : next.deliveries = buffer.deliveries := by
  unfold CircularBuffer.pushStep at ran
  split at ran
  · rw [← Option.some.inj ran]
  · split_ifs at ran
    · split at ran
      · rw [← Option.some.inj ran]
      · split at ran <;> rw [← Option.some.inj ran]
    · rw [← Option.some.inj ran]
  · obtain ⟨chunk, -, rfl⟩ := Option.map_eq_some_iff.mp ran
    rfl
  · obtain ⟨queue, -, rfl⟩ := Option.map_eq_some_iff.mp ran
    rfl

theorem popStep_frames {next : CircularBuffer}
    (ran : buffer.popStep chunkSize = some next) : next.frames = buffer.frames := by
  unfold CircularBuffer.popStep at ran
  split at ran
  · rw [← Option.some.inj ran]
  · split_ifs at ran
    · split at ran
      · rw [← Option.some.inj ran]
      · split at ran <;> rw [← Option.some.inj ran]
    · rw [← Option.some.inj ran]
  · obtain ⟨chunk, -, rfl⟩ := Option.map_eq_some_iff.mp ran
    rfl
  · obtain ⟨queue, -, rfl⟩ := Option.map_eq_some_iff.mp ran
    rfl

/-- A push ends with its whole buffer, or where there is no chunk to fill. -/
theorem Sound.pushStep_ends (sound : buffer.Sound chunksCount chunkSize free full)
    {next : CircularBuffer} (ran : buffer.pushStep chunkSize = some next) {frame : OutputFrame}
    (ended : next.frames = buffer.frames ++ [frame]) :
    frame.pushed = frame.buf.length ∨ buffer.pushChunk = none ∧ free = [] := by
  have pushing := sound.pushing
  have goesOn : buffer.frames ≠ buffer.frames ++ [frame] := by simp
  unfold CircularBuffer.pushStep at ran
  unfold Pushing at pushing
  cases place : buffer.producer with
  | idle =>
      simp only [place] at ran
      rw [← Option.some.inj ran] at ended
      exact absurd ended goesOn
  | loop buf pushed =>
      simp only [place] at ran pushing
      split_ifs at ran with more
      · split at ran
        · rw [← Option.some.inj ran] at ended
          exact absurd ended goesOn
        · rename_i here
          split at ran
          · rw [← Option.some.inj ran] at ended
            exact absurd ended goesOn
          · rename_i nothing
            refine .inr ⟨here, ?_⟩
            cases free with
            | nil => rfl
            | cons chunk free =>
                obtain ⟨freeQueue, popped, -⟩ := sound.freeHolds.pop_cons
                rw [popped] at nothing
                cases nothing
      · rw [← Option.some.inj ran] at ended
        obtain rfl : (⟨buf, pushed⟩ : OutputFrame) = frame := by simpa using ended
        exact .inl (le_antisymm pushing.1 (not_lt.mp more))
  | copy buf pushed =>
      simp only [place] at ran
      obtain ⟨chunk, -, rfl⟩ := Option.map_eq_some_iff.mp ran
      exact absurd ended goesOn
  | handOver buf pushed =>
      simp only [place] at ran
      obtain ⟨queue, -, rfl⟩ := Option.map_eq_some_iff.mp ran
      exact absurd ended goesOn

/-- A pop ends with all that was asked for, or where there is no chunk to drain. -/
theorem Sound.popStep_ends (sound : buffer.Sound chunksCount chunkSize free full)
    {next : CircularBuffer} (ran : buffer.popStep chunkSize = some next) {delivery : Delivery}
    (ended : next.deliveries = buffer.deliveries ++ [delivery]) :
    delivery.padding = 0 ∨ buffer.popChunk = none ∧ full = [] := by
  have goesOn : buffer.deliveries ≠ buffer.deliveries ++ [delivery] := by simp
  unfold CircularBuffer.popStep at ran
  cases place : buffer.consumer with
  | idle =>
      simp only [place] at ran
      rw [← Option.some.inj ran] at ended
      exact absurd ended goesOn
  | loop bufSize popped =>
      simp only [place] at ran
      split_ifs at ran with more
      · split at ran
        · rw [← Option.some.inj ran] at ended
          exact absurd ended goesOn
        · rename_i here
          split at ran
          · rw [← Option.some.inj ran] at ended
            exact absurd ended goesOn
          · rename_i nothing
            refine .inr ⟨here, ?_⟩
            cases full with
            | nil => rfl
            | cons chunk full =>
                obtain ⟨fullQueue, gone, -⟩ := sound.fullHolds.pop_cons
                rw [gone] at nothing
                cases nothing
      · rw [← Option.some.inj ran] at ended
        obtain rfl : (⟨popped, bufSize - popped.length⟩ : Delivery) = delivery := by
          simpa using ended
        exact .inl (Nat.sub_eq_zero_of_le (not_lt.mp more))
  | copy bufSize popped =>
      simp only [place] at ran
      obtain ⟨chunk, -, rfl⟩ := Option.map_eq_some_iff.mp ran
      exact absurd ended goesOn
  | giveBack bufSize popped =>
      simp only [place] at ran
      obtain ⟨queue, -, rfl⟩ := Option.map_eq_some_iff.mp ran
      exact absurd ended goesOn

/-- How many steps a call of `Push` can still take. -/
def Producer.left : Producer → ℕ
  | .idle => 0
  | .loop buf pushed => 3 * (buf.length - pushed) + 1
  | .copy buf pushed => 3 * (buf.length - pushed)
  | .handOver buf pushed => 3 * (buf.length - pushed) + 2

def Consumer.left : Consumer → ℕ
  | .idle => 0
  | .loop bufSize popped => 3 * (bufSize - popped.length) + 1
  | .copy bufSize popped => 3 * (bufSize - popped.length)
  | .giveBack bufSize popped => 3 * (bufSize - popped.length) + 2

theorem Sound.pushStep_left (sound : buffer.Sound chunksCount chunkSize free full)
    {next : CircularBuffer} (ran : buffer.pushStep chunkSize = some next)
    (busy : buffer.producer ≠ .idle) : Producer.left next.producer < Producer.left buffer.producer := by
  have pushing := sound.pushing
  unfold CircularBuffer.pushStep at ran
  unfold Pushing at pushing
  cases place : buffer.producer with
  | idle => exact absurd place busy
  | loop buf pushed =>
      simp only [place] at ran
      split_ifs at ran with more
      · split at ran
        · rw [← Option.some.inj ran]
          exact Nat.lt_succ_self _
        · split at ran
          · rw [← Option.some.inj ran]
            exact Nat.lt_succ_self _
          · rw [← Option.some.inj ran]
            exact Nat.succ_pos _
      · rw [← Option.some.inj ran]
        exact Nat.succ_pos _
  | copy buf pushed =>
      simp only [place] at ran pushing
      obtain ⟨chunk, -, rfl⟩ := Option.map_eq_some_iff.mp ran
      obtain ⟨more, -, room⟩ := pushing
      dsimp only
      split_ifs
      · simp only [Producer.left]
        omega
      · simp only [Producer.left]
        omega
  | handOver buf pushed =>
      simp only [place] at ran
      obtain ⟨queue, -, rfl⟩ := Option.map_eq_some_iff.mp ran
      exact Nat.lt_succ_self _

theorem Sound.popStep_left (sound : buffer.Sound chunksCount chunkSize free full)
    {next : CircularBuffer} (ran : buffer.popStep chunkSize = some next)
    (busy : buffer.consumer ≠ .idle) : Consumer.left next.consumer < Consumer.left buffer.consumer := by
  have popping := sound.popping
  unfold CircularBuffer.popStep at ran
  unfold Popping at popping
  cases place : buffer.consumer with
  | idle => exact absurd place busy
  | loop bufSize popped =>
      simp only [place] at ran
      split_ifs at ran with more
      · split at ran
        · rw [← Option.some.inj ran]
          exact Nat.lt_succ_self _
        · split at ran
          · rw [← Option.some.inj ran]
            exact Nat.lt_succ_self _
          · rw [← Option.some.inj ran]
            exact Nat.succ_pos _
      · rw [← Option.some.inj ran]
        exact Nat.succ_pos _
  | copy bufSize popped =>
      simp only [place] at ran popping
      obtain ⟨chunk, -, rfl⟩ := Option.map_eq_some_iff.mp ran
      obtain ⟨more, -, some_, bound⟩ := popping
      have length : (window (buffer.chunk chunk) (chunkSize - buffer.popChunkSize)
          (min (bufSize - popped.length) buffer.popChunkSize)).length =
          min (bufSize - popped.length) buffer.popChunkSize := by
        rw [window, List.length_take, List.length_drop, sound.sizes]
        omega
      dsimp only
      split_ifs
      · simp only [Consumer.left, List.length_append, length]
        omega
      · simp only [Consumer.left, List.length_append, length]
        omega
  | giveBack bufSize popped =>
      simp only [place] at ran
      obtain ⟨queue, -, rfl⟩ := Option.map_eq_some_iff.mp ran
      exact Nat.lt_succ_self _

theorem Sound.returns (positive : 0 < chunkSize) (event : Event) (Ended : CircularBuffer → Prop)
    (left : CircularBuffer → ℕ)
    (less : ∀ buffer free full next, buffer.Sound chunksCount chunkSize free full →
      buffer.step chunkSize event = some next → ¬ Ended buffer → left next < left buffer)
    (sound : buffer.Sound chunksCount chunkSize free full) :
    ∃ steps later, (List.replicate steps event).foldlM (CircularBuffer.step chunkSize) buffer =
      some later ∧ Ended later := by
  induction bound : left buffer using Nat.strong_induction_on generalizing buffer free full with
  | _ n ih =>
      by_cases ended : Ended buffer
      · exact ⟨0, buffer, rfl, ended⟩
      · obtain ⟨next, free', full', stepped, kept⟩ := sound.step positive event
        obtain ⟨steps, later, ran, done⟩ :=
          ih _ (bound ▸ less buffer free full next sound stepped ended) kept rfl
        refine ⟨steps + 1, later, ?_, done⟩
        rw [List.replicate_succ, List.foldlM_cons, stepped]
        exact ran

/-! ## Whole stereo frames -/

def Stereo : Event → Prop
  | .outputFrame buf => 4 ∣ buf.length
  | .onAudioReady bytesPerFrame _ => bytesPerFrame = 4
  | .produce => True
  | .consume => True

def Producer.Whole : Producer → Prop
  | .idle => True
  | .loop buf pushed => 4 ∣ buf.length ∧ 4 ∣ pushed ∧ pushed ≤ buf.length
  | .copy buf pushed => 4 ∣ buf.length ∧ 4 ∣ pushed ∧ pushed ≤ buf.length
  | .handOver buf pushed => 4 ∣ buf.length ∧ 4 ∣ pushed ∧ pushed ≤ buf.length

def Consumer.Whole : Consumer → Prop
  | .idle => True
  | .loop bufSize popped => 4 ∣ bufSize ∧ 4 ∣ popped.length
  | .copy bufSize popped => 4 ∣ bufSize ∧ 4 ∣ popped.length
  | .giveBack bufSize popped => 4 ∣ bufSize ∧ 4 ∣ popped.length

structure WholeFrames (buffer : CircularBuffer) : Prop where
  pushChunkSize : 4 ∣ buffer.pushChunkSize
  popChunkSize : 4 ∣ buffer.popChunkSize
  producer : Producer.Whole buffer.producer
  consumer : Consumer.Whole buffer.consumer
  frames : ∀ frame ∈ buffer.frames, frame.pushed ≤ frame.buf.length ∧ 4 ∣ frame.pushed
  deliveries : ∀ delivery ∈ buffer.deliveries,
    4 ∣ delivery.popped.length ∧ 4 ∣ delivery.padding

theorem WholeFrames.pushStep (whole : buffer.WholeFrames) (size : 4 ∣ chunkSize)
    {next : CircularBuffer} (ran : buffer.pushStep chunkSize = some next) : next.WholeFrames := by
  have producer := whole.producer
  have ended {buf : Bytes} {pushed : ℕ} (frame : pushed ≤ buf.length ∧ 4 ∣ pushed) :
      ∀ other ∈ buffer.frames ++ [⟨buf, pushed⟩],
        other.pushed ≤ other.buf.length ∧ 4 ∣ other.pushed := by
    intro other member
    rcases List.mem_append.mp member with old | new
    · exact whole.frames other old
    · rw [List.mem_singleton.mp new]
      exact frame
  unfold CircularBuffer.pushStep at ran
  cases place : buffer.producer with
  | idle =>
      simp only [place] at ran
      rwa [← Option.some.inj ran]
  | loop buf pushed =>
      simp only [place, Producer.Whole] at ran producer
      split_ifs at ran with more
      · split at ran
        · rw [← Option.some.inj ran]
          exact { whole with producer := producer }
        · split at ran
          · rw [← Option.some.inj ran]
            exact { whole with pushChunkSize := dvd_zero 4, producer := producer }
          · rw [← Option.some.inj ran]
            exact { whole with
              producer := trivial, frames := ended ⟨producer.2.2, producer.2.1⟩ }
      · rw [← Option.some.inj ran]
        exact { whole with producer := trivial, frames := ended ⟨producer.2.2, producer.2.1⟩ }
  | copy buf pushed =>
      simp only [place, Producer.Whole] at ran producer
      obtain ⟨chunk, here, rfl⟩ := Option.map_eq_some_iff.mp ran
      have filled := whole.pushChunkSize
      have toPush : 4 ∣ min (buf.length - pushed) (chunkSize - buffer.pushChunkSize) := by omega
      refine { whole with pushChunkSize := dvd_add filled toPush, producer := ?_ }
      have moved : 4 ∣ buf.length ∧
          4 ∣ pushed + min (buf.length - pushed) (chunkSize - buffer.pushChunkSize) ∧
          pushed + min (buf.length - pushed) (chunkSize - buffer.pushChunkSize) ≤ buf.length :=
        ⟨producer.1, dvd_add producer.2.1 toPush, by omega⟩
      dsimp only
      split_ifs <;> exact moved
  | handOver buf pushed =>
      simp only [place, Producer.Whole] at ran producer
      obtain ⟨fullQueue, given, rfl⟩ := Option.map_eq_some_iff.mp ran
      exact { whole with producer := producer }

theorem WholeFrames.popStep (whole : buffer.WholeFrames) (size : 4 ∣ chunkSize)
    (sizes : ∀ i, (buffer.chunk i).length = chunkSize) {next : CircularBuffer}
    (ran : buffer.popStep chunkSize = some next) : next.WholeFrames := by
  have consumer := whole.consumer
  have ended {bufSize : ℕ} {popped : Bytes} (frame : 4 ∣ bufSize ∧ 4 ∣ popped.length) :
      ∀ other ∈ buffer.deliveries ++ [⟨popped, bufSize - popped.length⟩],
        4 ∣ other.popped.length ∧ 4 ∣ other.padding := by
    intro other member
    rcases List.mem_append.mp member with old | new
    · exact whole.deliveries other old
    · rw [List.mem_singleton.mp new]
      exact ⟨frame.2, Nat.dvd_sub frame.1 frame.2⟩
  unfold CircularBuffer.popStep at ran
  cases place : buffer.consumer with
  | idle =>
      simp only [place] at ran
      rwa [← Option.some.inj ran]
  | loop bufSize popped =>
      simp only [place, Consumer.Whole] at ran consumer
      split_ifs at ran with more
      · split at ran
        · rw [← Option.some.inj ran]
          exact { whole with consumer := consumer }
        · split at ran
          · rw [← Option.some.inj ran]
            exact { whole with popChunkSize := size, consumer := consumer }
          · rw [← Option.some.inj ran]
            exact { whole with consumer := trivial, deliveries := ended consumer }
      · rw [← Option.some.inj ran]
        exact { whole with consumer := trivial, deliveries := ended consumer }
  | copy bufSize popped =>
      simp only [place, Consumer.Whole] at ran consumer
      obtain ⟨chunk, here, rfl⟩ := Option.map_eq_some_iff.mp ran
      obtain ⟨total, done⟩ := consumer
      have left := whole.popChunkSize
      refine { whole with popChunkSize := by dsimp only; omega, consumer := ?_ }
      have moved : 4 ∣ bufSize ∧ 4 ∣ (popped ++ window (buffer.chunk chunk)
          (chunkSize - buffer.popChunkSize)
          (min (bufSize - popped.length) buffer.popChunkSize)).length := by
        refine ⟨total, ?_⟩
        rw [List.length_append, window, List.length_take, List.length_drop, sizes]
        omega
      dsimp only
      split_ifs <;> exact moved
  | giveBack bufSize popped =>
      simp only [place, Consumer.Whole] at ran consumer
      obtain ⟨freeQueue, given, rfl⟩ := Option.map_eq_some_iff.mp ran
      exact { whole with consumer := consumer }

theorem WholeFrames.step (whole : buffer.WholeFrames) (size : 4 ∣ chunkSize)
    (sizes : ∀ i, (buffer.chunk i).length = chunkSize) {event : Event} (stereo : Stereo event)
    {next : CircularBuffer} (ran : buffer.step chunkSize event = some next) :
    next.WholeFrames := by
  cases event with
  | outputFrame buf =>
      simp only [CircularBuffer.step] at ran
      split at ran
      · rw [← Option.some.inj ran]
        exact { whole with producer := ⟨stereo, dvd_zero 4, Nat.zero_le _⟩ }
      · rwa [← Option.some.inj ran]
  | onAudioReady bytesPerFrame numFrames =>
      simp only [CircularBuffer.step] at ran
      split at ran
      · rw [← Option.some.inj ran]
        have frameSize : bytesPerFrame = 4 := stereo
        exact { whole with
          consumer := ⟨frameSize ▸ Nat.dvd_mul_right 4 numFrames, dvd_zero 4⟩ }
      · rwa [← Option.some.inj ran]
  | produce => exact whole.pushStep size ran
  | consume => exact whole.popStep size sizes ran

theorem after_wholeFrames (memory : Uninitialised chunksCount chunkSize)
    (some : 0 < chunksCount) (positive : 0 < chunkSize) (size : 4 ∣ chunkSize)
    (events : List Event) (stereo : ∀ event ∈ events, Stereo event) :
    ∀ buffer, after memory events = Option.some buffer → buffer.WholeFrames := by
  induction events using List.reverseRecOn with
  | nil =>
      intro buffer ran
      cases ran
      exact ⟨dvd_zero 4, dvd_zero 4, trivial, trivial, by simp [new], by simp [new]⟩
  | append_singleton events event ih =>
      intro next ran
      obtain ⟨buffer, free, full, before, sound⟩ := after_sound memory some positive events
      have whole := ih (fun other member => stereo other (List.mem_append_left _ member))
        buffer before
      unfold after at ran before
      rw [List.foldlM_append, before] at ran
      simp only [Option.bind_eq_bind, Option.bind_some, List.foldlM_cons, List.foldlM_nil] at ran
      obtain ⟨last, stepped, same⟩ := Option.bind_eq_some_iff.mp ran
      cases same
      exact whole.step size sound.sizes (stereo event (by simp)) stepped

/-! ## The audio output -/

def BUFFER_CHUNKS_COUNT : ℕ := 256

def BUFFER_CHUNK_SIZE : ℕ := 2048

structure LosesNothing (buffer : CircularBuffer) : Prop where
  inOrder : buffer.delivered <+: buffer.accepted
  wholeFrames : 4 ∣ buffer.delivered.length
  /-- What the device plays is whole frames of the stream and whole frames of silence. -/
  deliveries : ∀ delivery ∈ buffer.deliveries,
    4 ∣ delivery.popped.length ∧ 4 ∣ delivery.padding
  onePlace : ∀ chunk, buffer.places.count chunk = if chunk < BUFFER_CHUNKS_COUNT then 1 else 0
  /-- A call accepts a beginning of its buffer. -/
  frames : ∀ frame ∈ buffer.frames, frame.pushed ≤ frame.buf.length ∧ 4 ∣ frame.pushed
  /-- A call that ends now rejects something only where there is no free chunk. -/
  rejects : ∀ event next frame, buffer.step BUFFER_CHUNK_SIZE event = some next →
    next.frames = buffer.frames ++ [frame] →
      frame.pushed = frame.buf.length ∨
        buffer.pushChunk = none ∧ buffer.freeQueue.elements = []
  /-- Silence is played only where there is no full chunk. -/
  pads : ∀ event next delivery, buffer.step BUFFER_CHUNK_SIZE event = some next →
    next.deliveries = buffer.deliveries ++ [delivery] →
      delivery.padding = 0 ∨ buffer.popChunk = none ∧ buffer.fullQueue.elements = []
  /-- The call in progress returns if its thread goes on. -/
  pushReturns : ∃ steps later, (List.replicate steps Event.produce).foldlM
    (step BUFFER_CHUNK_SIZE) buffer = some later ∧ later.producer = .idle
  popReturns : ∃ steps later, (List.replicate steps Event.consume).foldlM
    (step BUFFER_CHUNK_SIZE) buffer = some later ∧ later.consumer = .idle

theorem Sound.rejects (sound : buffer.Sound chunksCount chunkSize free full) (event : Event)
    {next : CircularBuffer} (ran : buffer.step chunkSize event = some next) {frame : OutputFrame}
    (ended : next.frames = buffer.frames ++ [frame]) :
    frame.pushed = frame.buf.length ∨
      buffer.pushChunk = none ∧ buffer.freeQueue.elements = [] := by
  have goesOn : buffer.frames ≠ buffer.frames ++ [frame] := by simp
  rw [sound.freeHolds.elements_eq]
  cases event with
  | outputFrame buf =>
      simp only [CircularBuffer.step] at ran
      split at ran <;> rw [← Option.some.inj ran] at ended <;> exact absurd ended goesOn
  | onAudioReady bytesPerFrame numFrames =>
      simp only [CircularBuffer.step] at ran
      split at ran <;> rw [← Option.some.inj ran] at ended <;> exact absurd ended goesOn
  | produce => exact sound.pushStep_ends ran ended
  | consume => exact absurd ((popStep_frames ran).symm.trans ended) goesOn

theorem Sound.pads (sound : buffer.Sound chunksCount chunkSize free full) (event : Event)
    {next : CircularBuffer} (ran : buffer.step chunkSize event = some next) {delivery : Delivery}
    (ended : next.deliveries = buffer.deliveries ++ [delivery]) :
    delivery.padding = 0 ∨ buffer.popChunk = none ∧ buffer.fullQueue.elements = [] := by
  have goesOn : buffer.deliveries ≠ buffer.deliveries ++ [delivery] := by simp
  rw [sound.fullHolds.elements_eq]
  cases event with
  | outputFrame buf =>
      simp only [CircularBuffer.step] at ran
      split at ran <;> rw [← Option.some.inj ran] at ended <;> exact absurd ended goesOn
  | onAudioReady bytesPerFrame numFrames =>
      simp only [CircularBuffer.step] at ran
      split at ran <;> rw [← Option.some.inj ran] at ended <;> exact absurd ended goesOn
  | produce => exact absurd ((pushStep_deliveries ran).symm.trans ended) goesOn
  | consume => exact sound.popStep_ends ran ended

theorem Sound.places_perm (sound : buffer.Sound chunksCount chunkSize free full) :
    buffer.places.Perm (List.range chunksCount) := by
  rw [places, sound.freeHolds.elements_eq, sound.fullHolds.elements_eq]
  exact sound.onePlace

theorem WholeFrames.delivered (whole : buffer.WholeFrames) : 4 ∣ buffer.delivered.length := by
  have consumer := whole.consumer
  have calls : 4 ∣ (buffer.deliveries.flatMap Delivery.popped).length := by
    rw [List.length_flatMap]
    refine List.dvd_sum fun length member => ?_
    obtain ⟨delivery, among, rfl⟩ := List.mem_map.mp member
    exact (whole.deliveries delivery among).1
  rw [CircularBuffer.delivered, List.length_append]
  refine dvd_add calls ?_
  cases place : buffer.consumer with
  | idle => exact dvd_zero 4
  | loop bufSize popped => exact (place ▸ consumer : Consumer.Whole (.loop bufSize popped)).2
  | copy bufSize popped => exact (place ▸ consumer : Consumer.Whole (.copy bufSize popped)).2
  | giveBack bufSize popped =>
      exact (place ▸ consumer : Consumer.Whole (.giveBack bufSize popped)).2

/-- No run of the two threads fails an assert, or loses or reorders audio that there was a chunk
for. -/
theorem audioOutput_losesNothing
    (memory : Uninitialised BUFFER_CHUNKS_COUNT BUFFER_CHUNK_SIZE) (events : List Event)
    (stereo : ∀ event ∈ events, Stereo event) :
    ∃ buffer, after memory events = some buffer ∧ buffer.LosesNothing := by
  have chunks : 0 < BUFFER_CHUNKS_COUNT := by decide
  have size : 0 < BUFFER_CHUNK_SIZE := by decide
  obtain ⟨buffer, free, full, ran, sound⟩ := after_sound memory chunks size events
  have whole := after_wholeFrames memory chunks size (by decide) events stereo buffer ran
  refine ⟨buffer, ran, ?_, whole.delivered, whole.deliveries, fun chunk => ?_, whole.frames,
    fun event next frame ran => sound.rejects event ran,
    fun event next delivery ran => sound.pads event ran, ?_, ?_⟩
  · rw [sound.stream, List.append_assoc, List.append_assoc]
    exact List.prefix_append _ _
  · rw [sound.places_perm.count_eq, List.count_range]
  · exact sound.returns size .produce (fun buffer => buffer.producer = .idle)
      (fun buffer => Producer.left buffer.producer)
      fun buffer free full next sound ran busy => sound.pushStep_left ran busy
  · exact sound.returns size .consume (fun buffer => buffer.consumer = .idle)
      (fun buffer => Consumer.left buffer.consumer)
      fun buffer free full next sound ran busy => sound.popStep_left ran busy

def zeroMemory : Uninitialised BUFFER_CHUNKS_COUNT BUFFER_CHUNK_SIZE where
  chunk _ := List.replicate BUFFER_CHUNK_SIZE 0
  chunkSizes _ := List.length_replicate
  fullArray := List.replicate (BUFFER_CHUNKS_COUNT + 1) 0
  fullCapacity := List.length_replicate
  freeArray := List.replicate (BUFFER_CHUNKS_COUNT + 1) 0
  freeCapacity := List.length_replicate

/-- Two frames more than fit into all chunks, while the device asks for three chunks and then for
more than there is. -/
def overrun : List Event :=
  [[.outputFrame (List.replicate (4 * 131074) 7)], List.replicate 12 .produce,
    [.onAudioReady 4 1536], List.replicate 7 .consume, List.replicate 800 .produce,
    List.replicate 3 .consume, [.outputFrame (List.replicate (4 * 1024) 9)],
    List.replicate 8 .produce, [.onAudioReady 4 140000], List.replicate 800 .consume].flatten

theorem stereo_replicate (count : ℕ) (b : UInt8) :
    Stereo (.outputFrame (List.replicate (4 * count) b)) :=
  ⟨count, List.length_replicate⟩

theorem overrun_losesNothing :
    ∃ buffer, after zeroMemory overrun = some buffer ∧ buffer.LosesNothing := by
  refine audioOutput_losesNothing zeroMemory overrun fun event member => ?_
  simp only [overrun, List.flatten_cons, List.flatten_nil, List.mem_cons, List.mem_append,
    List.mem_replicate, List.not_mem_nil, or_false] at member
  rcases member with rfl | ⟨-, rfl⟩ | rfl | ⟨-, rfl⟩ | ⟨-, rfl⟩ | ⟨-, rfl⟩ | rfl | ⟨-, rfl⟩ | rfl |
    ⟨-, rfl⟩
  case inl => exact stereo_replicate _ _
  case inr.inr.inr.inr.inr.inr.inl => exact stereo_replicate _ _
  all_goals first | exact trivial | exact rfl

end CircularBuffer

end AirCast.Audio
