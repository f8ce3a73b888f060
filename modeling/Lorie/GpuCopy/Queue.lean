import Lorie.Lib.Transition
import Lorie.Lib.Counter

/-!
# The GPU copy queue: one producer, one consumer

A deferred Present copy names its two buffers, an offset and up to `maxRects` rectangles of the source (`lorie.h`).
`state->gpuCopyQueue` lives in memory shared by the X server and the renderer. The X server fills the slot at
`writeIndex` and publishes it by advancing `writeIndex` (`lorieTryScheduleGpuCopy`); the renderer's worker submits the
entry at `readIndex`, advances `readIndex`, and after a batch stores the last serial (`applyPendingGpuCopies`). Each load
and store of an index is a step of its own, so either side works with a stale view of the other.

`published`, `submitted` and `consumed` are history: no step reads them.
-/

namespace Lorie

/-! ## The entries -/

/-- `LORIE_GPU_COPY_MAX_RECTS` -/
def maxRects : Nat := 16

/-- `LORIE_GPU_COPY_QUEUE_CAPACITY` -/
def queueCapacity : Nat := 8

/-- `LorieGpuCopyRect`, and the `BoxRec` it is copied from. -/
structure LorieGpuCopyRect where
  x1 : Int16
  y1 : Int16
  x2 : Int16
  y2 : Int16
  deriving DecidableEq, Repr

/-- What `lorieTryScheduleGpuCopy` puts into an entry besides its serial. -/
structure CopyRequest where
  srcBufferId : UInt64
  dstBufferId : UInt64
  xOff : Int16
  yOff : Int16
  rects : List LorieGpuCopyRect
  deriving DecidableEq, Repr

/-- `LorieGpuCopyEntry`; `rects` are the first `numRects` of the array. -/
structure LorieGpuCopyEntry where
  serial : UInt64
  request : CopyRequest
  deriving DecidableEq, Repr

/-- `entry.numRects` -/
def LorieGpuCopyEntry.numRects (e : LorieGpuCopyEntry) : UInt16 := UInt16.ofNat e.request.rects.length

/-- The zeroed memory of a slot that was never filled. -/
def LorieGpuCopyEntry.zero : LorieGpuCopyEntry := ⟨0, ⟨0, 0, 0, 0, []⟩⟩

end Lorie

namespace Lorie.GpuCopy

open Lorie.Lib

/-! ## The two sides -/

/-- `state->gpuCopyQueue` -/
structure GpuCopyQueue where
  writeIndex : UInt32
  readIndex : UInt32
  completedSerial : UInt64
  entries : Nat → LorieGpuCopyEntry

/-- Where `lorieTryScheduleGpuCopy` stands. -/
inductive Producer where
  | idle
  /-- `writeIndex` was loaded. -/
  | loaded (writeIndex : UInt32)
  /-- The ring was found not to be full. -/
  | room (writeIndex : UInt32)
  /-- The entry is written and not yet published. -/
  | filled (writeIndex : UInt32)
  deriving DecidableEq, Repr

/-- Where `applyPendingGpuCopies` stands; `completed` is the local variable of that name. -/
inductive Consumer where
  | idle
  /-- At the loop test. -/
  | looping (completed : UInt64)
  /-- At the head entry. -/
  | head (completed : UInt64)
  /-- Both buffers of the head entry were found. -/
  | found (completed srcBufferId dstBufferId : UInt64)
  /-- The copy was submitted; `readIndex` still names it. -/
  | submitted (completed : UInt64)
  /-- Out of the loop. -/
  | leaving (completed : UInt64)
  deriving DecidableEq, Repr

structure Machine where
  queue : GpuCopyQueue
  gpuCopySerialCounter : UInt64
  producer : Producer
  consumer : Consumer
  connectionFailed : Bool
  copyWaitingForBuffer : Bool
  /-- History: the published entries, in order. -/
  published : List LorieGpuCopyEntry
  /-- History: the copies submitted with success, as the worker read them. -/
  submitted : List LorieGpuCopyEntry
  /-- History: how often `readIndex` was advanced. -/
  consumed : Nat

/-- The zeroed shared region and an idle worker. -/
def Machine.init : Machine :=
  { queue := ⟨0, 0, 0, fun _ => .zero⟩, gpuCopySerialCounter := 0, producer := .idle, consumer := .idle,
    connectionFailed := false, copyWaitingForBuffer := false, published := [], submitted := [], consumed := 0 }

inductive Action where
  /-- `writeIndex = pvfb->state->gpuCopyQueue.writeIndex` -/
  | loadWriteIndex
  /-- `readIndex = pvfb->state->gpuCopyQueue.readIndex`, and the test for a full ring. -/
  | loadReadIndex
  /-- The assignments to `*entry`. -/
  | fillEntry (r : CopyRequest)
  /-- The release store of `writeIndex + 1`. -/
  | publish
  /-- `applyPendingGpuCopies` up to and including `lockSharedState`. -/
  | enter (locked : Bool)
  /-- The loop test. -/
  | test
  /-- `findBuffer` of the two buffers of the head entry. -/
  | findBuffers (present : Bool)
  /-- `begin`, the draws and `submit`. -/
  | submit (ok : Bool)
  /-- `completed = entry.serial; ++readIndex` -/
  | advance
  /-- The store of `completedSerial` after the loop. -/
  | store
  /-- `threadLoop` on `stateChanged`. -/
  | reattach
  deriving DecidableEq, Repr

namespace Machine

/-- The slot of an index. -/
def slot (i : UInt32) : Nat := i.toNat % queueCapacity

/-- The entry at `readIndex`. -/
def headEntry (m : Machine) : LorieGpuCopyEntry := m.queue.entries (slot m.queue.readIndex)

/-- One atomic step of the X server or of the worker. -/
def step (m : Machine) : Action → Option Machine
  | .loadWriteIndex =>
    match m.producer with
    | .idle => some { m with producer := .loaded m.queue.writeIndex }
    | _ => none
  | .loadReadIndex =>
    match m.producer with
    | .loaded w =>
      -- "queue-full": the caller falls back to the CPU copy
      if UInt32.ofNat queueCapacity ≤ w - m.queue.readIndex then some { m with producer := .idle }
      else some { m with producer := .room w }
    | _ => none
  | .fillEntry r =>
    match m.producer with
    | .room w =>
      let serial := m.gpuCopySerialCounter + 1
      some { m with
        gpuCopySerialCounter := serial
        queue := { m.queue with entries := Function.update m.queue.entries (slot w) ⟨serial, r⟩ }
        producer := .filled w }
    | _ => none
  | .publish =>
    match m.producer with
    | .filled w =>
      some { m with
        queue := { m.queue with writeIndex := w + 1 }
        producer := .idle
        published := m.published ++ [m.queue.entries (slot w)] }
    | _ => none
  | .enter locked =>
    match m.consumer with
    | .idle =>
      if m.connectionFailed ∨ m.queue.readIndex = m.queue.writeIndex then some m
      else if locked then some { m with consumer := .looping 0 }
      else some { m with connectionFailed := true }
    | _ => none
  | .test =>
    match m.consumer with
    | .looping completed =>
      if m.queue.readIndex = m.queue.writeIndex then some { m with consumer := .leaving completed }
      else some { m with consumer := .head completed }
    | _ => none
  | .findBuffers present =>
    match m.consumer with
    | .head completed =>
      if present then
        some { m with consumer := .found completed m.headEntry.request.srcBufferId m.headEntry.request.dstBufferId }
      else some { m with copyWaitingForBuffer := true, consumer := .leaving completed }
    | _ => none
  | .submit ok =>
    match m.consumer with
    | .found completed src dst =>
      -- the entry is a reference into shared memory: its rectangles are read here, its serial only in `advance`
      if ok ∧ m.headEntry.numRects ≤ UInt16.ofNat maxRects then
        let r := { m.headEntry.request with srcBufferId := src, dstBufferId := dst }
        some { m with
          consumer := .submitted completed
          submitted := m.submitted ++ [{ m.headEntry with request := r }] }
      else some { m with connectionFailed := true, consumer := .leaving completed }
    | _ => none
  | .advance =>
    match m.consumer with
    | .submitted _ =>
      some { m with
        consumer := .looping m.headEntry.serial
        queue := { m.queue with readIndex := m.queue.readIndex + 1 }
        consumed := m.consumed + 1 }
    | _ => none
  | .store =>
    match m.consumer with
    | .leaving completed =>
      some { m with
        consumer := .idle
        queue := { m.queue with completedSerial := if completed = 0 then m.queue.completedSerial else completed } }
    | _ => none
  | .reattach =>
    match m.consumer with
    | .idle => some { m with connectionFailed := false, copyWaitingForBuffer := false }
    | _ => none

/-- `lorieGpuCopyIsDone` -/
def lorieGpuCopyIsDone (m : Machine) (serial : UInt64) : Bool := decide (serial ≤ m.queue.completedSerial)

end Machine

end Lorie.GpuCopy
