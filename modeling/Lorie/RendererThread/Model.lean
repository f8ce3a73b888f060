import Lorie.Lib.Holdings
import Mathlib.Logic.Function.Basic

/-!
# The renderer's worker and the thread that it answers

A host's looper thread gives surfaces, shared states and frames to the renderer of a connection, and waits for the worker
where it has to let go of something: `setOutputSurface`, `setSharedState`, `init` and `destroy` sleep until the worker
acknowledges. The worker sleeps until somebody signals it, takes over what was changed, and draws the outputs from a snapshot
that borrows their surfaces (`threadLoop`, `refreshOutputSurfaces`, `drawOutputs`). The X server clears `waitForNextFrame`,
schedules copies and takes the pixel lock in its own memory.

A section under `stateLock` is one step, and so is what a thread does between two of them, as far as others can tell. Who waits
on a condition variable is asleep until it is signalled or wakes by itself. A lock that the X server holds in shared memory
stops the worker, until it is released or the connection is seen to be down.

The environment chooses what fails: allocations, the graphics backend and the lock. Which pixels are drawn, the storage of the
buffers (counted here) and the notification of executed copies are left out.

History: `log` (what was done with the resources of Android and the backend), `records` (what happened to the records of
outputs), `results` (of `setOutputSurface`) and `lost` (resources of a record that was freed with them). No step reads them.
-/

namespace Lorie.RendererThread

open Lorie.Lib

/-- `LORIE_MAX_FAMILY_LAYERS` -/
def maxFamilyLayers : Nat := 256

/-- What `graphics->surface` made of a window; surfaces are numbered. -/
structure Surface where
  number : Nat
  window : Nat
  deriving DecidableEq, Repr

/-- A mapping of the X server's shared state; mappings are numbered, the memory is that of a region. -/
structure Mapping where
  number : Nat
  region : Nat
  deriving DecidableEq, Repr

/-- What the renderer and its connection acquire. -/
inductive Resource where
  | device
  /-- A reference on a window. -/
  | window (w : Nat)
  | surface (f : Surface)
  | mapping (m : Mapping)
  /-- The descriptor of the connection. -/
  | socket (fd : Nat)
  deriving DecidableEq, Repr

/-- A surface needs its window. -/
def parents : Resource → List Resource
  | .surface f => [.window f.window]
  | _ => []

/-- The `frame` of an `EVENT_OUTPUT_FRAME`. -/
structure Frame where
  revision : Nat
  presentation : Nat
  width : Nat
  height : Nat
  deriving DecidableEq, Repr

/-- `Renderer::Output` -/
structure Output where
  id : Nat
  window : Option Nat
  pending : Option Nat
  surface : Option Surface
  changed : Bool
  released : Bool
  frame : Frame
  layerCount : Nat
  pendingCount : Nat
  drawnRevision : Nat
  presented : Nat
  deriving DecidableEq, Repr

/-- A record as `calloc` leaves it. -/
def Output.new (id : Nat) : Output :=
  { id := id, window := none, pending := none, surface := none, changed := false, released := false,
    frame := ⟨0, 0, 0, 0⟩, layerCount := 0, pendingCount := 0, drawnRevision := 0, presented := 0 }

/-- `Renderer::Draw` -/
structure Draw where
  id : Nat
  surface : Surface
  window : Option Nat
  frame : Frame
  layerCount : Nat
  deriving DecidableEq, Repr

/-- Where the worker stands. -/
inductive Worker where
  /-- There is no thread yet. -/
  | absent
  /-- In `initThread`. -/
  | starting
  /-- Before the loop takes `stateLock`. -/
  | testing
  /-- In the `pthread_cond_wait` of `threadLoop`. -/
  | asleep
  /-- Before `applyPendingGpuCopies`. -/
  | draining
  /-- In `lockSharedState`, for the copies. -/
  | lockingCopies
  /-- In `applyPendingGpuCopiesLocked`. -/
  | copying
  /-- The copies are applied, the snapshot is not yet taken. -/
  | snapshotting
  /-- Before the next draw; `rendered` when one was presented. -/
  | drawing (rendered : Bool) (draws : List Draw)
  /-- In `lockSharedState`, for a draw. -/
  | lockingDraw (rendered : Bool) (d : Draw) (draws : List Draw)
  /-- The pixel lock is held for a draw. -/
  | painting (rendered : Bool) (d : Draw) (draws : List Draw)
  /-- The draw is submitted, or failed; `complete` when no layer missed its buffer. -/
  | presenting (ok complete rendered : Bool) (d : Draw) (draws : List Draw)
  /-- The draw is presented, its revision not yet recorded. -/
  | recording (ok complete presented rendered : Bool) (d : Draw) (draws : List Draw)
  /-- In the loop over `removedBuffers`. -/
  | retiring
  /-- Before `releaseGraphics`. -/
  | releasing
  /-- After `releaseGraphics`. -/
  | released
  | exited
  deriving DecidableEq, Repr

/-- What the host's thread waits for. -/
inductive Request where
  /-- `init` -/
  | init
  /-- `setOutputSurface` -/
  | surface (id : Nat) (window : Option Nat) (release : Bool)
  /-- `setSharedState`, of `disconnect` or of a new state -/
  | shared (disconnecting : Bool)
  deriving DecidableEq, Repr

/-- Where the host's thread stands. -/
inductive Host where
  /-- `init` has not made the thread yet. -/
  | born
  | idle
  /-- In a `pthread_cond_wait` on `stateChangeFinishCond`, not yet signalled when `asleep`. -/
  | waiting (r : Request) (asleep : Bool)
  /-- In the `pthread_join` of `destroy`. -/
  | joining
  /-- The connection is freed. -/
  | gone
  deriving DecidableEq, Repr

/-- `lorie_shared_server_state` -/
structure Shared where
  /-- How often the X server holds `lock`, which is recursive. -/
  locked : Nat
  /-- The entries of `gpuCopyQueue` that were not consumed. -/
  copies : Nat
  waitForNextFrame : Bool
  surfaceAvailable : Bool
  deriving DecidableEq, Repr

/-- What happens to the record of an output. -/
inductive Record where
  | created (id : Nat)
  /-- A frame is set. -/
  | framed (id presentation : Nat)
  /-- `presentationCallback` is called. -/
  | acknowledged (id presentation : Nat) (presented : Bool)
  | removed (id : Nat)
  deriving DecidableEq, Repr

structure State where
  outputs : List Output
  initialized : Bool
  stopping : Bool
  stateChanged : Bool
  pendingState : Option Mapping
  state : Option Mapping
  connectionFailed : Bool
  copyWaitingForBuffer : Bool
  /-- The lengths of `addedBuffers`, `buffers` and `removedBuffers` -/
  addedBuffers : Nat
  buffers : Nat
  removedBuffers : Nat
  drawCapacity : Nat
  graphicsDevice : Bool
  peerFd : Option Nat
  /-- The `fd` of the connection -/
  fd : Option Nat
  /-- The connection is shut down, by its peer or here. -/
  down : Bool
  worker : Worker
  host : Host
  /-- `lorieConnectionDestroy` has begun. -/
  leaving : Bool
  /-- The shared state of each X server, by its region -/
  shared : Nat → Shared
  nextNumber : Nat
  log : List (Access Resource)
  records : List Record
  results : List (Nat × Bool)
  lost : List Resource

def State.init : State where
  outputs := []
  initialized := false
  stopping := false
  stateChanged := false
  pendingState := none
  state := none
  connectionFailed := false
  copyWaitingForBuffer := false
  addedBuffers := 0
  buffers := 0
  removedBuffers := 0
  drawCapacity := 0
  graphicsDevice := false
  peerFd := none
  fd := none
  down := false
  worker := .absent
  host := .born
  leaving := false
  shared := fun _ => ⟨0, 0, false, false⟩
  nextNumber := 0
  log := []
  records := []
  results := []
  lost := []

/-- What becomes of the next copy of the queue. -/
inductive CopyOutcome where
  | copied
  /-- A buffer of it is missing. -/
  | missing
  | failed
  deriving DecidableEq, Repr

inductive Action where
  /-- `init`: `pthread_create`, or it fails. -/
  | create (created : Bool)
  /-- `setOutputSurface`; the record can be allocated or not. -/
  | setOutputSurface (id : Nat) (window : Option Nat) (release memory : Bool)
  /-- `setOutputFrame` of a layer -/
  | setOutputLayer (id : Nat)
  /-- `setOutputFrame` of a frame -/
  | setOutputFrame (id : Nat) (f : Frame)
  /-- `addBuffer` -/
  | addBuffer
  /-- `removeBuffer` of a buffer that is attached, or of one that is not yet. -/
  | removeBuffer (attached : Bool)
  /-- `LorieConnection::connect` with a descriptor, after its `disconnect`. -/
  | connect (fd : Nat)
  /-- `LorieConnection::receive` of an `EVENT_SHARED_SERVER_STATE`. -/
  | receiveState (region : Nat)
  /-- `LorieConnection::disconnect` -/
  | disconnect
  /-- `lorieConnectionDestroy` -/
  | leave
  /-- `destroy` up to `pthread_join`. -/
  | destroy
  /-- `pthread_join` returns. -/
  | join
  /-- The host's thread returns from `pthread_cond_wait`. -/
  | resume
  /-- A waiting host wakes by itself. -/
  | wakeHost
  /-- The sleeping worker wakes by itself, or a server signals it. -/
  | wakeWorker
  /-- The peer closes the connection. -/
  | hangup
  /-- The X server takes the pixel lock. -/
  | serverLock (region : Nat)
  | serverUnlock (region : Nat)
  /-- `lorieTryScheduleGpuCopy` -/
  | schedule (region : Nat)
  /-- `lorieRedraw` clears `waitForNextFrame`. -/
  | redraw (region : Nat)
  /-- `initThread`: the device is made or not, and then the loop goes as in `pass`. -/
  | start (created : Bool)
  /-- The loop, with `stateLock` held; outputs for which the backend makes no surface. -/
  | pass (failing : List Nat)
  /-- `applyPendingGpuCopies` up to the lock. -/
  | drain
  /-- `lockSharedState` takes the lock, or fails. -/
  | lock (error : Bool)
  /-- `lockSharedState` asks whether the peer is there. -/
  | poll
  /-- `applyPendingGpuCopiesLocked` at the head of the queue; the buffers that `findBuffer` attaches. -/
  | copy (outcome : CopyOutcome) (moved : Nat)
  /-- The snapshot of `drawOutputs`; the array of draws can grow or not. -/
  | snapshot (memory : Bool)
  /-- `graphics->acquire` for the next draw -/
  | acquire (ok : Bool)
  /-- The pass over the layers, up to the unlock; whether it was submitted, and all buffers found. -/
  | paint (ok found : Bool) (moved : Nat)
  /-- `graphics->present` -/
  | present (presented : Bool)
  /-- `drawnRevision` is recorded and the presentation acknowledged. -/
  | record
  /-- The draws are done. -/
  | endDraw
  /-- The next of `removedBuffers` is released. -/
  | retire
  /-- `releaseGraphics` -/
  | releaseGraphics
  /-- The worker says that it has stopped. -/
  | exit
  deriving DecidableEq, Repr

/-! ## Records -/

/-- Change the record of an output. -/
def update (id : Nat) (g : Output → Output) (outputs : List Output) : List Output :=
  outputs.map fun o => if o.id = id then g o else o

/-- `setOutputFrame` of a layer -/
def Output.addLayer (o : Output) : Output :=
  if o.pendingCount < maxFamilyLayers then { o with pendingCount := o.pendingCount + 1 } else o

/-- `setOutputFrame` of a frame -/
def Output.commit (f : Frame) (o : Output) : Output :=
  { o with frame := f, layerCount := o.pendingCount, pendingCount := 0 }

/-- `setOutputSurface` of a record -/
def Output.request (window : Option Nat) (release : Bool) (o : Output) : Output :=
  { o with pending := window, released := release, changed := true }

/-- The record has a surface and its frame is not drawn. -/
def Output.needsDraw (o : Output) : Bool := o.surface.isSome && o.drawnRevision ≠ o.frame.revision

/-- `invalidateOutputs` of a record -/
def Output.invalidate (o : Output) : Output := { o with drawnRevision := 0 }

/-- `graphics->surface` of the window that is taken over -/
def Output.surfaceFor (failing : List Nat) (number : Nat) (o : Output) : Option Surface :=
  if o.id ∈ failing then none else o.pending.map fun w => ⟨number, w⟩

/-- `refreshOutputSurfaces` of a record -/
def Output.refresh (failing : List Nat) (number : Nat) (o : Output) : Output :=
  if o.changed then
    { o with
      surface := o.surfaceFor failing number
      window := o.pending
      pending := none
      drawnRevision := 0
      changed := false }
  else o

/-- What `refreshOutputSurfaces` releases and makes. -/
def Output.refreshed (failing : List Nat) (number : Nat) (o : Output) : List (Access Resource) :=
  if o.changed then
    o.surface.toList.map (fun f => Access.release (.surface f)) ++
      o.window.toList.map (fun w => Access.release (.window w)) ++
      o.pending.toList.flatMap (fun w => [Access.use .device, Access.use (.window w)]) ++
      (o.surfaceFor failing number).toList.map fun f => Access.acquire (.surface f)
  else []

/-- The draw of a record with a surface -/
def Output.draw (o : Output) : Option Draw :=
  if o.needsDraw then o.surface.map fun f => ⟨o.id, f, o.window, o.frame, o.layerCount⟩ else none

/-- The presentation of a draw is to be acknowledged. -/
def Output.acknowledges (d : Draw) (complete : Bool) (o : Output) : Bool :=
  d.frame.presentation ≠ 0 && complete && o.presented ≠ d.frame.presentation

/-- The revision of a draw is recorded, and its presentation if it is acknowledged. -/
def Output.drew (d : Draw) (complete : Bool) (o : Output) : Output :=
  { o with
    drawnRevision := d.frame.revision
    presented := if o.acknowledges d complete then d.frame.presentation else o.presented }

/-- `refreshOutputSurfaces` over the records, each with a number of its own. -/
def refreshOutputs (failing : List Nat) : Nat → List Output → List Output
  | _, [] => []
  | n, o :: os => o.refresh failing n :: refreshOutputs failing (n + 1) os

def refreshedOutputs (failing : List Nat) : Nat → List Output → List (Access Resource)
  | _, [] => []
  | n, o :: os => o.refreshed failing n ++ refreshedOutputs failing (n + 1) os

/-- `outputSurfacesChanged` -/
def outputSurfacesChanged (outputs : List Output) : Bool := outputs.any (·.changed)

/-- `hasOutputSurface` -/
def hasOutputSurface (outputs : List Output) : Bool := outputs.any (·.surface.isSome)

/-- `outputsNeedDraw` -/
def outputsNeedDraw (outputs : List Output) : Bool := outputs.any (·.needsDraw)

/-- What a record owns. -/
def Output.resources (o : Output) : List Resource :=
  o.surface.toList.map Resource.surface ++ o.window.toList.map Resource.window ++ o.pending.toList.map Resource.window

/-- `releaseGraphics` of a record -/
def Output.clear (o : Output) : Output := { o with surface := none, window := none, pending := none }

namespace State

variable (s : State)

/-! ## Signals and the shared memory -/

/-- `pthread_cond_signal(stateCond)` -/
def signal : State := if s.worker = .asleep then { s with worker := .testing } else s

/-- `pthread_cond_broadcast(&stateChangeFinishCond)` -/
def broadcast : State :=
  match s.host with
  | .waiting r _ => { s with host := .waiting r false }
  | _ => s

/-- More accesses of resources. -/
def note (as : List (Access Resource)) : State := { s with log := s.log ++ as }

/-- A shared state changes. -/
def changeAt (region : Nat) (g : Shared → Shared) : State :=
  { s with shared := Function.update s.shared region (g (s.shared region)) }

/-- The shared state that is mapped changes. -/
def change (g : Shared → Shared) : State :=
  match s.state with
  | some m => s.changeAt m.region g
  | none => s

/-- The shared state is read or written. -/
def useState : List (Access Resource) := s.state.toList.map fun m => Access.use (.mapping m)

/-- The peer's descriptor is polled or shut down. -/
def usePeer : List (Access Resource) := s.peerFd.toList.map fun fd => Access.use (.socket fd)

/-- What the mapped shared state reads; without one nothing is asked. -/
def mapped : Shared := (s.state.map fun m => s.shared m.region).getD ⟨0, 0, false, false⟩

/-- The worker holds the pixel lock. -/
def holdsLock : Bool :=
  match s.worker with
  | .copying | .painting .. => true
  | _ => false

/-- `connectionFailed = true`, and the connection is shut down. -/
def fail : State :=
  { s with connectionFailed := true, down := s.down || s.peerFd.isSome }.note s.usePeer

/-! ## The host's thread -/

/-- The request has not been answered yet; `stopping` ends every wait. -/
def unanswered : Request → Bool
  | .init => !s.initialized && !s.stopping
  | .surface id _ _ => (s.outputs.any fun o => o.id = id && o.changed) && !s.stopping
  | .shared _ => s.stateChanged && !s.stopping

/-- The end of `setOutputSurface` -/
def finishSurface (id : Nat) (window : Option Nat) (release : Bool) : State :=
  let success := !s.stopping && (window.isNone || s.outputs.any fun o => o.id = id && o.surface.isSome)
  let t := { s with host := .idle, results := s.results ++ [(id, success)] }
  if release then
    match s.outputs.find? fun o => o.id = id with
    | some o =>
      { t with
        outputs := s.outputs.eraseP fun o => o.id = id
        records := s.records ++ [.removed id]
        lost := s.lost ++ o.resources }
    | none => t
  else t

/-- The end of `setSharedState`, and in `disconnect` what comes after it. -/
def finishShared (disconnecting : Bool) : State :=
  if disconnecting then
    { s with
      host := .idle
      peerFd := none
      fd := none
      removedBuffers := s.removedBuffers + s.buffers
      buffers := 0
      addedBuffers := 0 }.note (s.fd.toList.map fun fd => Access.release (.socket fd))
  else { s with host := .idle }

/-- The end of `init`; without a worker, `lorieConnectionCreate` destroys the connection. -/
def finishInit : State := { s with host := .idle, leaving := !s.initialized }

/-- What follows a wait. -/
def finish : Request → State
  | .init => s.finishInit
  | .surface id window release => s.finishSurface id window release
  | .shared disconnecting => s.finishShared disconnecting

/-- The test of a wait: sleep, or go on. -/
def await (r : Request) : State :=
  if s.unanswered r then { s with host := .waiting r true } else s.finish r

/-- `setOutputSurface` with an id -/
def setOutputSurface (id : Nat) (window : Option Nat) (release memory : Bool) : State :=
  let s := s.note (window.toList.map fun w => Access.acquire (.window w))
  if s.outputs.any fun o => o.id = id then
    ({ s with outputs := update id (·.request window release) s.outputs }.signal).await (.surface id window release)
  else if release || !memory then
    -- no record: the reference is given back
    { s with results := s.results ++ [(id, release)] }.note (window.toList.map fun w => Access.release (.window w))
  else
    ({ s with
      outputs := (Output.new id).request window release :: s.outputs
      records := s.records ++ [Record.created id] }.signal).await (.surface id window release)

/-- `setSharedState` -/
def setSharedState (newState : Option Mapping) (disconnecting : Bool) : State :=
  ({ s with pendingState := newState, stateChanged := true }.signal).await (.shared disconnecting)

/-- `disconnect`: the connection is shut down, and then the shared state detached. -/
def disconnect : State :=
  ({ s with down := s.down || s.fd.isSome }.note (s.fd.toList.map fun fd => Access.use (.socket fd))).setSharedState none true

/-! ## The worker -/

/-- `shouldWait` -/
def shouldWait : Bool :=
  if s.stateChanged || 0 < s.addedBuffers || 0 < s.removedBuffers || outputSurfacesChanged s.outputs then false
  else if s.connectionFailed || s.copyWaitingForBuffer then true
  else if s.state.isSome && s.mapped.copies ≠ 0 then false
  else s.state.isNone || s.mapped.waitForNextFrame || !outputsNeedDraw s.outputs

/-- `surfaceAvailable` is stored in the shared state. -/
def publishSurface : State :=
  (s.change fun h => { h with surfaceAvailable := hasOutputSurface s.outputs }).note s.useState

/-- The old mapping is given back. -/
def dropState : State :=
  if s.state ≠ s.pendingState then
    (s.change fun h => { h with surfaceAvailable := false }).note
      (s.useState ++ s.state.toList.map fun m => Access.release (.mapping m))
  else s

/-- `threadLoop` takes over a new shared state. -/
def takeState : State :=
  if s.stateChanged then
    let s := s.dropState
    { s with
      state := s.pendingState
      pendingState := none
      stateChanged := false
      connectionFailed := false
      copyWaitingForBuffer := false }.publishSurface
  else s

/-- `refreshOutputSurfaces` -/
def refreshOutputSurfaces (failing : List Nat) : State :=
  { s with
    outputs := refreshOutputs failing s.nextNumber s.outputs
    nextNumber := s.nextNumber + s.outputs.length
    log := s.log ++ refreshedOutputs failing s.nextNumber s.outputs }.publishSurface

/-- `threadLoop` attaches the buffers that were added. -/
def attachBuffers : State :=
  if 0 < s.addedBuffers then
    { s with
      buffers := s.buffers + s.addedBuffers
      addedBuffers := 0
      copyWaitingForBuffer := false
      outputs := s.outputs.map Output.invalidate }.note [.use .device]
  else s

/-- The loop from its test to the unlock before `drawOutputs`, or to the sleep. -/
def pass (failing : List Nat) : State :=
  if s.stopping then { s with worker := .releasing }
  else if s.shouldWait then { s with worker := .asleep }
  else
    let s := ((s.takeState.refreshOutputSurfaces failing).attachBuffers).broadcast
    { s with worker := if s.state.isSome then .draining else .retiring }

/-- `initThread` -/
def start (created : Bool) : State :=
  if created then
    (({ s with graphicsDevice := true, initialized := true }.note [.acquire .device]).broadcast).pass []
  else { s with worker := .releasing }

/-- `findBuffer` attaches buffers that were added. -/
def findBuffers (moved : Nat) : State :=
  { s with addedBuffers := s.addedBuffers - moved, buffers := s.buffers + min moved s.addedBuffers }.note [.use .device]

/-- The end of `drawOutputs` -/
def endDraws (rendered : Bool) : State :=
  if rendered then
    ({ s with worker := .retiring }.change fun h => { h with waitForNextFrame := true }).note s.useState
  else { s with worker := .retiring }

/-- The snapshot -/
def snapshot (memory : Bool) : State :=
  let s := s.note s.useState
  let count := (s.outputs.filter (·.surface.isSome)).length
  if s.connectionFailed || s.copyWaitingForBuffer || s.mapped.waitForNextFrame then { s with worker := .retiring }
  else if s.drawCapacity < count && !memory then { s with worker := .retiring }
  else
    { s with
      drawCapacity := max s.drawCapacity count
      worker := .drawing false (s.outputs.filterMap Output.draw) }

/-- The recording of a draw, the callback and what follows a failure. -/
def recordDraw (ok complete presented rendered : Bool) (d : Draw) (draws : List Draw) : State :=
  let acknowledge := s.outputs.any fun o => o.id = d.id && o.acknowledges d complete
  let s :=
    { s with
      outputs := update d.id (·.drew d complete) s.outputs
      records := s.records ++ if acknowledge then [Record.acknowledged d.id d.frame.presentation presented] else [] }
  if ok then
    -- a presented frame is counted in the mapping
    { s with worker := .drawing (rendered || presented) draws }.note (if presented then s.useState else [])
  else s.fail.endDraws rendered

/-- What `releaseGraphics` gives back. -/
def releases : List (Access Resource) :=
  (s.outputs.flatMap fun o => o.resources.map Access.release) ++ s.state.toList.map (fun m => Access.release (.mapping m)) ++
    if s.graphicsDevice then [Access.release .device] else []

/-- `releaseGraphics` -/
def releaseGraphics : State :=
  let s := s.note s.releases
  { s with
    addedBuffers := 0
    buffers := 0
    removedBuffers := 0
    outputs := s.outputs.map Output.clear
    state := none
    drawCapacity := 0
    graphicsDevice := false
    worker := .released }

/-! ## The steps -/

/-- The host's thread may call the renderer. -/
def calls : Bool := s.host = .idle && !s.leaving

/-- A step of the host's thread. -/
def hostStep : Action → Option State
  | .create created =>
    if s.host = .born then
      if created then some { s with worker := .starting, host := .waiting .init true }
      else some { s with stopping := true, host := .idle, leaving := true }
    else none
  | .setOutputSurface id window release memory =>
    if s.calls then
      if id = 0 then some { s with results := s.results ++ [(id, false)] }
      else some (s.setOutputSurface id window release memory)
    else if s.host = .idle ∧ (s.outputs.head?.map (·.id)) = some id ∧ window = none ∧ release then
      some (s.setOutputSurface id window release memory)
    else none
  | .setOutputLayer id => if s.calls then some ({ s with outputs := update id (·.addLayer) s.outputs }.signal) else none
  | .setOutputFrame id f =>
    if s.calls then
      let found := s.outputs.any fun o => o.id = id
      some ({ s with
        outputs := update id (·.commit f) s.outputs
        records := s.records ++ if found then [Record.framed id f.presentation] else [] }.signal)
    else none
  | .addBuffer => if s.calls then some ({ s with addedBuffers := s.addedBuffers + 1 }.signal) else none
  | .removeBuffer attached =>
    if s.calls then
      if attached ∧ 0 < s.buffers then
        some ({ s with buffers := s.buffers - 1, removedBuffers := s.removedBuffers + 1 }.signal)
      else if ¬attached ∧ 0 < s.addedBuffers then some ({ s with addedBuffers := s.addedBuffers - 1 }.signal)
      else some s.signal
    else none
  | .connect fd =>
    if s.calls ∧ s.fd = none then
      some ({ s with fd := some fd, peerFd := some fd, down := false }.note [.acquire (.socket fd)])
    else none
  | .receiveState region =>
    if s.calls ∧ s.fd.isSome then
      let m : Mapping := ⟨s.nextNumber, region⟩
      some (({ s with nextNumber := s.nextNumber + 1 }.note [.acquire (.mapping m)]).setSharedState (some m) false)
    else none
  | .disconnect => if s.calls then some s.disconnect else none
  | .leave => if s.calls then some { s with leaving := true }.disconnect else none
  | .destroy =>
    if s.host = .idle ∧ s.leaving ∧ s.outputs = [] then some ({ s with stopping := true, host := .joining }.signal)
    else none
  | .join =>
    if s.host = .joining ∧ (s.worker = .exited ∨ s.worker = .absent) then some { s with host := .gone } else none
  | .resume =>
    match s.host with
    | .waiting r false => some (s.await r)
    | _ => none
  | _ => none

/-- A step of the environment: the peer, the X server and wakeups without a cause. -/
def environmentStep : Action → Option State
  | .wakeHost =>
    match s.host with
    | .waiting r true => some { s with host := .waiting r false }
    | _ => none
  | .wakeWorker => if s.worker = .asleep then some { s with worker := .testing } else none
  | .hangup => if s.fd.isSome then some { s with down := true } else none
  | .serverLock region =>
    if 0 < (s.shared region).locked ∨ ¬(s.holdsLock ∧ s.state.map (·.region) = some region) then
      some (s.changeAt region fun h => { h with locked := h.locked + 1 })
    else none
  | .serverUnlock region =>
    if 0 < (s.shared region).locked then
      some (s.changeAt region fun h => { h with locked := h.locked - 1 })
    else none
  | .schedule region =>
    some (s.changeAt region fun h => { h with copies := h.copies + 1 })
  | .redraw region =>
    some (s.changeAt region fun h => { h with waitForNextFrame := false })
  | _ => none

/-- A step of the worker. -/
def workerStep : Action → Option State
  | .start created => if s.worker = .starting then some (s.start created) else none
  | .pass failing => if s.worker = .testing then some (s.pass failing) else none
  | .drain =>
    if s.worker = .draining then
      let s := s.note s.useState
      if s.connectionFailed || s.mapped.copies = 0 then some { s with worker := .snapshotting }
      else some { s with worker := .lockingCopies }
    else none
  | .lock error =>
    match s.worker with
    | .lockingCopies =>
      let s := s.note s.useState
      if error then some { s.fail with worker := .snapshotting }
      else if s.mapped.locked = 0 then some { s with worker := .copying }
      else none
    | .lockingDraw rendered d draws =>
      let s := s.note s.useState
      if error then some (s.fail.endDraws rendered)
      else if s.mapped.locked = 0 then some { s with worker := .painting rendered d draws }
      else none
    | _ => none
  | .poll =>
    match s.worker with
    | .lockingCopies =>
      let s := s.note s.usePeer
      if s.down || s.peerFd.isNone then some { s.fail with worker := .snapshotting } else some s
    | .lockingDraw rendered _ _ =>
      let s := s.note s.usePeer
      if s.down || s.peerFd.isNone then some (s.fail.endDraws rendered) else some s
    | _ => none
  | .copy outcome moved =>
    if s.worker = .copying then
      let s := s.note s.useState
      if s.mapped.copies = 0 then some { s with worker := .snapshotting }
      else
        let s := s.findBuffers moved
        match outcome with
        | .copied => some (s.change fun h => { h with copies := h.copies - 1 })
        | .missing => some { s with copyWaitingForBuffer := true, worker := .snapshotting }
        | .failed => some { s.fail with worker := .snapshotting }
    else none
  | .snapshot memory => if s.worker = .snapshotting then some (s.snapshot memory) else none
  | .acquire ok =>
    match s.worker with
    | .drawing rendered (d :: draws) =>
      let s := s.note (d.window.toList.map (fun w => Access.use (.window w)) ++ [Access.use (.surface d.surface)])
      if ok then some { s with worker := .lockingDraw rendered d draws } else some (s.fail.endDraws rendered)
    | _ => none
  | .paint ok found moved =>
    match s.worker with
    | .painting rendered d draws =>
      let complete := d.frame.width ≠ 0 && d.frame.height ≠ 0 && d.layerCount ≠ 0 && found
      some (({ s with worker := .presenting ok complete rendered d draws }.findBuffers moved).note
        (.use (.surface d.surface) :: s.useState))
    | _ => none
  | .present presented =>
    match s.worker with
    | .presenting ok complete rendered d draws =>
      some ({ s with worker := .recording ok complete (ok && presented) rendered d draws }.note
        (if ok then [.use (.surface d.surface)] else []))
    | _ => none
  | .record =>
    match s.worker with
    | .recording ok complete presented rendered d draws =>
      some (s.recordDraw ok complete presented rendered d draws)
    | _ => none
  | .endDraw =>
    match s.worker with
    | .drawing rendered [] => some (s.endDraws rendered)
    | _ => none
  | .retire =>
    if s.worker = .retiring then
      if 0 < s.removedBuffers then some { s with removedBuffers := s.removedBuffers - 1 }
      else some { s with worker := .testing }
    else none
  | .releaseGraphics => if s.worker = .releasing then some s.releaseGraphics else none
  | .exit => if s.worker = .released then some ({ s with stopping := true, worker := .exited }.broadcast) else none
  | _ => none

end State

/-- One step of one of the threads. -/
def step (s : State) (a : Action) : Option State := s.hostStep a <|> s.environmentStep a <|> s.workerStep a

end Lorie.RendererThread
