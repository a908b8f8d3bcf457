import AirCast.CString
import AirCast.Audio.CircularFifo

/-! # The audio buffer and its two threads

`CircularBuffer` between `oboe_audio_output_frame` and `onAudioReady`.  A chunk
pointer is the number of its chunk.  A push or a pop of a queue is one step of its
thread; between two of them a thread works on a chunk of its own. -/

set_option autoImplicit false

namespace AirCast.Audio

/-- Where a call of `Push` is; `buf` is its argument, `pushed` its local variable. -/
inductive Producer where
  | idle
  | loop (buf : Bytes) (pushed : ℕ)
  | copy (buf : Bytes) (pushed : ℕ)
  | handOver (buf : Bytes) (pushed : ℕ)

/-- Where a call of `Pop` is; `popped` are the bytes it has put into its buffer. -/
inductive Consumer where
  | idle
  | loop (bufSize : ℕ) (popped : Bytes)
  | copy (bufSize : ℕ) (popped : Bytes)
  | giveBack (bufSize : ℕ) (popped : Bytes)

/-- A finished `oboe_audio_output_frame`: its buffer and how much of it was accepted. -/
structure OutputFrame where
  buf : Bytes
  pushed : ℕ

/-- A finished `onAudioReady`: the bytes from the buffer and the zeros behind them. -/
structure Delivery where
  popped : Bytes
  padding : ℕ

def Producer.accepted : Producer → Bytes
  | .idle => []
  | .loop buf pushed => buf.take pushed
  | .copy buf pushed => buf.take pushed
  | .handOver buf pushed => buf.take pushed

def Consumer.popped : Consumer → Bytes
  | .idle => []
  | .loop _ popped => popped
  | .copy _ popped => popped
  | .giveBack _ popped => popped

def OutputFrame.accepted (frame : OutputFrame) : Bytes := frame.buf.take frame.pushed

structure CircularBuffer where
  fullQueue : CircularFifo ℕ
  freeQueue : CircularFifo ℕ
  chunk : ℕ → Bytes
  pushChunk : Option ℕ
  pushChunkSize : ℕ
  popChunk : Option ℕ
  popChunkSize : ℕ
  producer : Producer
  consumer : Consumer
  frames : List OutputFrame
  deliveries : List Delivery

namespace CircularBuffer

/-- The threads' steps and the calls that set them to work. -/
inductive Event where
  | outputFrame (buf : Bytes)
  | onAudioReady (bytesPerFrame numFrames : ℕ)
  | produce
  | consume

section steps

variable (chunkSize : ℕ)

/-- One step of `Push`; `none` is a failed assert or a copy to a null pointer. -/
def pushStep (buffer : CircularBuffer) : Option CircularBuffer :=
  match buffer.producer with
  | .idle => some buffer
  | .loop buf pushed =>
      if pushed < buf.length then
        match buffer.pushChunk with
        | some _ => some { buffer with producer := .copy buf pushed }
        | none =>
            match buffer.freeQueue.pop with
            | some (chunk, freeQueue) =>
                some { buffer with
                  freeQueue := freeQueue
                  pushChunk := some chunk
                  pushChunkSize := 0
                  producer := .copy buf pushed }
            | none =>
                some { buffer with
                  producer := .idle
                  frames := buffer.frames ++ [⟨buf, pushed⟩] }
      else
        some { buffer with
          producer := .idle
          frames := buffer.frames ++ [⟨buf, pushed⟩] }
  | .copy buf pushed =>
      buffer.pushChunk.map fun pushChunk =>
        let remainingSpace := chunkSize - buffer.pushChunkSize
        let toPush := min (buf.length - pushed) remainingSpace
        let written := overwrite (buffer.chunk pushChunk) buffer.pushChunkSize
          ((buf.drop pushed).take toPush)
        { buffer with
          chunk := Function.update buffer.chunk pushChunk written
          pushChunkSize := buffer.pushChunkSize + toPush
          producer :=
            if buffer.pushChunkSize + toPush = chunkSize then .handOver buf (pushed + toPush)
            else .loop buf (pushed + toPush) }
  | .handOver buf pushed =>
      (buffer.pushChunk.bind buffer.fullQueue.push).map fun fullQueue =>
        { buffer with
          fullQueue := fullQueue
          pushChunk := none
          producer := .loop buf pushed }

/-- One step of `Pop`, and of the padding when it returns. -/
def popStep (buffer : CircularBuffer) : Option CircularBuffer :=
  match buffer.consumer with
  | .idle => some buffer
  | .loop bufSize popped =>
      if popped.length < bufSize then
        match buffer.popChunk with
        | some _ => some { buffer with consumer := .copy bufSize popped }
        | none =>
            match buffer.fullQueue.pop with
            | some (chunk, fullQueue) =>
                some { buffer with
                  fullQueue := fullQueue
                  popChunk := some chunk
                  popChunkSize := chunkSize
                  consumer := .copy bufSize popped }
            | none =>
                some { buffer with
                  consumer := .idle
                  deliveries := buffer.deliveries ++ [⟨popped, bufSize - popped.length⟩] }
      else
        some { buffer with
          consumer := .idle
          deliveries := buffer.deliveries ++ [⟨popped, bufSize - popped.length⟩] }
  | .copy bufSize popped =>
      buffer.popChunk.map fun popChunk =>
        let toPop := min (bufSize - popped.length) buffer.popChunkSize
        let read := window (buffer.chunk popChunk) (chunkSize - buffer.popChunkSize) toPop
        { buffer with
          popChunkSize := buffer.popChunkSize - toPop
          consumer :=
            if buffer.popChunkSize - toPop = 0 then .giveBack bufSize (popped ++ read)
            else .loop bufSize (popped ++ read) }
  | .giveBack bufSize popped =>
      (buffer.popChunk.bind buffer.freeQueue.push).map fun freeQueue =>
        { buffer with
          freeQueue := freeQueue
          popChunk := none
          consumer := .loop bufSize popped }

/-- A call reaches a thread that is in no call yet. -/
def step (buffer : CircularBuffer) : Event → Option CircularBuffer
  | .outputFrame buf =>
      match buffer.producer with
      | .idle => some { buffer with producer := .loop buf 0 }
      | _ => some buffer
  | .onAudioReady bytesPerFrame numFrames =>
      match buffer.consumer with
      | .idle => some { buffer with consumer := .loop (bytesPerFrame * numFrames) [] }
      | _ => some buffer
  | .produce => buffer.pushStep chunkSize
  | .consume => buffer.popStep chunkSize

end steps

/-- Memory that was allocated and not written yet: the chunks and the arrays of the queues. -/
structure Uninitialised (chunksCount chunkSize : ℕ) where
  chunk : ℕ → Bytes
  chunkSizes : ∀ i, (chunk i).length = chunkSize
  fullArray : List ℕ
  fullCapacity : fullArray.length = chunksCount + 1
  freeArray : List ℕ
  freeCapacity : freeArray.length = chunksCount + 1

/-- The free queue after `FlushChunks`, which ignores the results of its pushes. -/
def flushChunks (chunksCount : ℕ) (freeQueue : CircularFifo ℕ) : CircularFifo ℕ :=
  (List.range' 1 (chunksCount - 1)).foldl (fun queue i => (queue.push i).getD queue) freeQueue

def new {chunksCount chunkSize : ℕ} (memory : Uninitialised chunksCount chunkSize) :
    CircularBuffer where
  fullQueue := .empty memory.fullArray
  freeQueue := flushChunks chunksCount (.empty memory.freeArray)
  chunk := memory.chunk
  pushChunk := some 0
  pushChunkSize := 0
  popChunk := none
  popChunkSize := 0
  producer := .idle
  consumer := .idle
  frames := []
  deliveries := []

/-- The buffer after some events, `none` after a failed assert. -/
def after {chunksCount chunkSize : ℕ} (memory : Uninitialised chunksCount chunkSize)
    (events : List Event) : Option CircularBuffer :=
  events.foldlM (step chunkSize) (new memory)

def accepted (buffer : CircularBuffer) : Bytes :=
  buffer.frames.flatMap OutputFrame.accepted ++ buffer.producer.accepted

def delivered (buffer : CircularBuffer) : Bytes :=
  buffer.deliveries.flatMap Delivery.popped ++ buffer.consumer.popped

def places (buffer : CircularBuffer) : List ℕ :=
  buffer.freeQueue.elements ++ buffer.fullQueue.elements ++ buffer.pushChunk.toList ++
    buffer.popChunk.toList

end CircularBuffer

end AirCast.Audio
