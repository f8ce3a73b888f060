import Lorie.Lib.Transition
import Lorie.GpuCopy.Queue
import Mathlib.Algebra.Group.Nat.Defs

/-!
# Outputs: publishing, committing and drawing frames

The X server publishes the frame of an output selection as a run of layer events that a frame event ends
(`loriePublishOutputs`); the renderer collects the layers in the record of the output and commits them with the frame
(`setOutputFrame`); its worker drains the GPU copies, snapshots the frames that are not drawn yet, draws each and records
its revision (`threadLoop`, `drawOutputs`).

Three threads take part: the X thread, the looper (`LorieConnection`, whose calls are serialised) and the worker. What
the looper waits for the worker to do (a new surface, a new shared state) is one step of both, with the worker at the
top of its loop, and the worker then goes on with its pass (`changed`). The steps under the state lock are one step.

The environment chooses what a published frame shows, whether buffers came or went, and where a copy, a lock or the
connection fails. Graphics calls succeed, except the acquisition of a target (`abandon`); so does the `realloc` of the
snapshot. A begin, a draw, a submit or a present that fails is left out here, `RendererThread` has them.

History: `Frame.copies` and `Frame.sent`, `Output.shown`, and the renderer's `delivered`. No step reads them. A copy is
named by its number; the ring holds the copies that were scheduled and not executed.
-/

namespace Lorie.Outputs

open Lorie.Lib

/-- `LORIE_MAX_FAMILY_LAYERS` -/
def maxFamilyLayers : Nat := 256

/-- The `layer` of an `EVENT_OUTPUT_LAYER`. -/
structure Layer where
  window : Nat
  x : Int
  y : Int
  width : Nat
  height : Nat
  alpha : Bool
  bufferId : Nat
  deriving DecidableEq, Repr

/-- `LorieShellRect` -/
structure ShellRect where
  left : Int
  top : Int
  right : Int
  bottom : Int
  deriving DecidableEq, Repr

/-- The `frame` of an `EVENT_OUTPUT_FRAME`. -/
structure Frame where
  window : Nat
  width : Nat
  height : Nat
  bufferId : Nat
  revision : Nat
  presentation : Nat
  viewport : ShellRect
  /-- History: the copies into buffers of the frame's layers that were scheduled before it was published. -/
  copies : List Nat
  /-- History: the layers that were sent for it. -/
  sent : List Layer
  deriving DecidableEq, Repr

/-- The zeroed frame of a new record. -/
def Frame.zero : Frame := ⟨0, 0, 0, 0, 0, 0, ⟨0, 0, 0, 0⟩, [], []⟩

inductive Event where
  /-- `EVENT_SHARED_SERVER_STATE` -/
  | sharedServerState
  /-- `EVENT_OUTPUT_LAYER` -/
  | layer (output : Nat) (l : Layer)
  /-- `EVENT_OUTPUT_FRAME` -/
  | frame (output : Nat) (f : Frame)
  deriving DecidableEq, Repr

/-! ## The X server -/

/-- `OutputSelection` -/
structure Selection where
  id : Nat
  window : Nat
  revision : Nat
  deriving DecidableEq, Repr

structure Server where
  connects : Nat
  /-- The connection that was installed last. -/
  conn : Nat
  /-- The connection still takes events. -/
  connected : Bool
  selections : List Selection

/-- `lorie_shared_server_state` -/
structure Shared where
  /-- The destination buffers of the copies that were scheduled, in order. -/
  scheduled : List Nat
  /-- How many copies the worker executed. -/
  executed : Nat
  surfaceAvailable : Bool
  waitForNextFrame : Bool

/-! ## The renderer -/

/-- What was drawn on a surface: the snapshot, and the number of copies that were executed before. -/
structure Shown where
  frame : Frame
  layers : List Layer
  executed : Nat
  deriving DecidableEq, Repr

/-- `Renderer::Output` -/
structure Output where
  id : Nat
  surface : Option Nat
  frame : Frame
  layers : List Layer
  pendingLayers : List Layer
  drawnRevision : Nat
  /-- History: what was drawn last on the surface. -/
  shown : Option Shown
  deriving DecidableEq, Repr

/-- A record as `calloc` leaves it. -/
def Output.new (id : Nat) : Output := ⟨id, none, .zero, [], [], 0, none⟩

/-- `Renderer::Draw` -/
structure Draw where
  id : Nat
  frame : Frame
  layers : List Layer
  deriving DecidableEq, Repr

/-- Where the worker stands in `threadLoop` and `drawOutputs`. -/
inductive Worker where
  /-- At the top of the loop. -/
  | top
  /-- In `applyPendingGpuCopies`. -/
  | drain
  /-- The copies are drained, the snapshot is not yet taken. -/
  | drained
  /-- Before the next draw; `rendered` when one was presented. -/
  | drawing (rendered : Bool) (draws : List Draw)
  /-- The draw is presented, its revision not yet recorded. -/
  | drawn (d : Draw) (draws : List Draw)
  deriving DecidableEq, Repr

structure Renderer where
  attached : Option Nat
  lastAttached : Nat
  mapped : Bool
  connectionFailed : Bool
  copyWaitingForBuffer : Bool
  /-- A surface or the shared state was changed for this pass of the worker. -/
  changed : Bool
  outputs : List Output
  worker : Worker
  /-- History: the layers of an output that were delivered on this connection since its last frame. -/
  delivered : Nat → List Layer

structure State where
  server : Server
  shared : Shared
  renderer : Renderer
  /-- The events of a connection that were not delivered yet. -/
  chan : Nat → List Event

def State.init : State where
  server := ⟨0, 0, false, []⟩
  shared := ⟨[], 0, false, false⟩
  renderer := ⟨none, 0, false, false, false, false, [], .top, fun _ => []⟩
  chan := fun _ => []

/-- What `loriePublishOutputs` finds for a selection: the window, the layers that `appendLayer` collected (`bufferId` not
set), each with the buffer that exports it if there is one, and the selection's presentation and viewport. -/
structure Family where
  drawable : Nat
  width : Nat
  height : Nat
  layers : List (Layer × Option Nat)
  presentation : Nat
  viewport : ShellRect
  deriving DecidableEq, Repr

inductive Action where
  /-- `LORIE_OUTPUT_BIND`, also of an output that is bound already. -/
  | bind (id window : Nat)
  /-- `LORIE_OUTPUT_RELEASE` -/
  | release (id : Nat)
  /-- `lorieTryScheduleGpuCopy` into a buffer -/
  | schedule (dstBufferId : Nat)
  /-- `lorieRedraw` clears `waitForNextFrame`. -/
  | redraw
  /-- `loriePublishOutputs` for one output, and after how many events the connection breaks, if it does. -/
  | publish (id : Nat) (family : Family) (cut : Option Nat)
  /-- `lorieServerConnect` -/
  | connect
  /-- The work item of `lorieServerConnect`. -/
  | install
  /-- The connection takes no more events. -/
  | hangup
  /-- `LorieConnection::connect` with the descriptor of a later connection. -/
  | attach (conn : Nat)
  /-- `LorieConnection::disconnect` -/
  | detach
  /-- `LorieConnection::receive` of the next event. -/
  | receive
  /-- `setOutputSurface`; a surface is named by a number. -/
  | setOutputSurface (id : Nat) (window : Option Nat) (release : Bool)
  /-- `threadLoop` up to `drawOutputs`; whether buffers were added or removed. -/
  | loop (added removed : Bool)
  /-- The worker executes the next copy. -/
  | copy
  /-- `applyPendingGpuCopies` returns; a copy that is left `failed` or misses a buffer. -/
  | endDrain (failed : Bool)
  /-- The snapshot under the state lock. -/
  | snapshot
  /-- The next draw, through `present`. -/
  | draw
  /-- `drawnRevision` is recorded. -/
  | record
  /-- No target to draw on, or the shared lock is lost. -/
  | abandon
  /-- The draws are done. -/
  | endDraw
  deriving DecidableEq, Repr

/-! ## What the X server sends -/

/-- The layers that `loriePublishOutputs` sends: those with a buffer. -/
def Family.sent (family : Family) : List Layer :=
  family.layers.filterMap fun lb => lb.2.map fun b => { lb.1 with bufferId := b }

/-- The size of a frame: the window's, grown to hold every layer. -/
def Family.size (family : Family) : Nat × Nat :=
  if family.layers.isEmpty then (0, 0)
  else family.layers.foldl (fun size lb =>
    (max size.1 (lb.1.x + lb.1.width).toNat, max size.2 (lb.1.y + lb.1.height).toNat)) (family.width, family.height)

/-- The buffer of the window itself. -/
def Family.bufferId (family : Family) : Nat :=
  (((family.sent.filter fun l : Layer => l.window = family.drawable).getLast?).map (·.bufferId)).getD 0

/-- The copies that a frame with these layers is to show. -/
def copiesInto (scheduled : List Nat) (layers : List Layer) : List Nat :=
  (List.range scheduled.length).filter fun i =>
    (scheduled[i]?).any fun b => layers.any fun l => l.bufferId = b

/-- The frame event of a selection, with its next revision. -/
def Selection.frame (o : Selection) (family : Family) (scheduled : List Nat) : Frame where
  window := o.window
  width := family.size.1
  height := family.size.2
  bufferId := family.bufferId
  revision := (o.revision + 1) % 2 ^ 64
  presentation := family.presentation
  viewport := family.viewport
  copies := copiesInto scheduled family.sent
  sent := family.sent

/-- The events of a published frame. -/
def frameEvents (id : Nat) (f : Frame) : List Event := f.sent.map (.layer id) ++ [.frame id f]

/-- `LORIE_OUTPUT_BIND`: a new selection in place of the old one, or at the end. -/
def Server.bind (v : Server) (id window : Nat) : Server :=
  let new : Selection := ⟨id, window, 0⟩
  { v with
    selections :=
      if v.selections.any fun o : Selection => o.id = id then
        v.selections.map fun o : Selection => if o.id = id then new else o
      else v.selections ++ [new] }

/-- The selection's next revision is taken. -/
def Server.nextRevision (v : Server) (id : Nat) : Server :=
  { v with
    selections := v.selections.map fun o : Selection =>
      if o.id = id then { o with revision := (o.revision + 1) % 2 ^ 64 } else o }

/-! ## The records -/

/-- Change the record of an output; there is one for each id. -/
def update (id : Nat) (g : Output → Output) (outputs : List Output) : List Output :=
  outputs.map fun o => if o.id = id then g o else o

/-- `setOutputFrame` of a layer -/
def Output.addLayer (l : Layer) (o : Output) : Output :=
  if o.pendingLayers.length < maxFamilyLayers then { o with pendingLayers := o.pendingLayers ++ [l] } else o

/-- `setOutputFrame` of a frame -/
def Output.commit (f : Frame) (o : Output) : Output :=
  { o with frame := f, layers := o.pendingLayers, pendingLayers := [] }

/-- `refreshOutputSurfaces` of a changed record -/
def Output.refresh (window : Option Nat) (o : Output) : Output :=
  { o with surface := window, drawnRevision := 0, shown := none }

/-- `invalidateOutputs` of a record -/
def Output.invalidate (o : Output) : Output := { o with drawnRevision := 0 }

/-- A draw of the snapshot is presented. -/
def Output.show (d : Draw) (executed : Nat) (o : Output) : Output :=
  { o with shown := some ⟨d.frame, d.layers, executed⟩ }

/-- The revision of a draw is recorded. -/
def Output.drew (d : Draw) (o : Output) : Output := { o with drawnRevision := d.frame.revision }

/-- The record has a surface and its frame is not drawn. -/
def Output.needsDraw (o : Output) : Bool := o.surface.isSome && o.drawnRevision ≠ o.frame.revision

/-- `hasOutputSurface` -/
def hasOutputSurface (outputs : List Output) : Bool := outputs.any (·.surface.isSome)

/-- `outputsNeedDraw` -/
def outputsNeedDraw (outputs : List Output) : Bool := outputs.any (·.needsDraw)

/-- The snapshot of `drawOutputs` -/
def snapshots (outputs : List Output) : List Draw :=
  (outputs.filter (·.needsDraw)).map fun o => ⟨o.id, o.frame, o.layers⟩

/-! ## The steps -/

/-- The records, with a new one for the output if there is none. -/
def Renderer.withRecord (r : Renderer) (id : Nat) : List Output :=
  if r.outputs.any fun o : Output => o.id = id then r.outputs else .new id :: r.outputs

namespace State

/-- Events are written to the current connection, all or those before it breaks. -/
def send (s : State) (es : List Event) (cut : Option Nat) : State :=
  if s.server.connected then
    match cut with
    | none => { s with chan := Function.update s.chan s.server.conn (s.chan s.server.conn ++ es) }
    | some n =>
      { s with
        chan := Function.update s.chan s.server.conn (s.chan s.server.conn ++ es.take n)
        server := { s.server with connected := false } }
  else s

/-- `setSharedState` with what the worker does for it. -/
def setSharedState (s : State) (mapped : Bool) : State :=
  { s with
    renderer := { s.renderer with
      mapped := mapped, connectionFailed := false, copyWaitingForBuffer := false, changed := true }
    shared := { s.shared with
      surfaceAvailable :=
        if mapped then hasOutputSurface s.renderer.outputs
        else if s.renderer.mapped then false
        else s.shared.surfaceAvailable } }

/-- `setOutputSurface` with what the worker does for it. -/
def setOutputSurface (s : State) (id : Nat) (window : Option Nat) (release : Bool) : State :=
  if release && !(s.renderer.outputs.any fun o : Output => o.id = id) then s
  else
    let outputs := update id (·.refresh window) (s.renderer.withRecord id)
    { s with
      renderer := { s.renderer with
        outputs := if release then outputs.filter fun o : Output => o.id ≠ id else outputs
        changed := true }
      shared := { s.shared with
        surfaceAvailable := if s.renderer.mapped then hasOutputSurface outputs else s.shared.surfaceAvailable } }

/-- What `LorieConnection::receive` does with an event. -/
def deliver (s : State) : Event → State
  | .sharedServerState => s.setSharedState true
  | .layer id l =>
    { s with renderer := { s.renderer with
      outputs := update id (·.addLayer l) s.renderer.outputs
      delivered := Function.update s.renderer.delivered id (s.renderer.delivered id ++ [l]) } }
  | .frame id f =>
    { s with renderer := { s.renderer with
      outputs := update id (·.commit f) s.renderer.outputs
      delivered := Function.update s.renderer.delivered id [] } }

/-- `shouldWait`, where `changed` also stands for `stateChanged` and `outputSurfacesChanged`. -/
def shouldWait (s : State) (buffersChanged : Bool) : Bool :=
  if s.renderer.changed || buffersChanged then false
  else if s.renderer.connectionFailed || s.renderer.copyWaitingForBuffer then true
  else if s.renderer.mapped && s.shared.executed ≠ s.shared.scheduled.length then false
  else !s.renderer.mapped || s.shared.waitForNextFrame || !outputsNeedDraw s.renderer.outputs

/-- One step of one of the threads. -/
def step (s : State) : Action → Option State
  | .bind id window =>
    if id ≠ 0 then some { s with server := s.server.bind id window } else none
  | .release id =>
    some { s with server := { s.server with selections := s.server.selections.filter fun o : Selection => o.id ≠ id } }
  | .schedule b =>
    if s.shared.scheduled.length - s.shared.executed < queueCapacity then
      some { s with shared := { s.shared with scheduled := s.shared.scheduled ++ [b] } }
    else none
  | .redraw => some { s with shared := { s.shared with waitForNextFrame := false } }
  | .publish id family cut =>
    match s.server.selections.find? fun o : Selection => o.id = id with
    | none => none
    | some o =>
      if s.server.connected ∧ s.shared.surfaceAvailable ∧ family.layers.length ≤ maxFamilyLayers then
        let sent := frameEvents id (o.frame family s.shared.scheduled)
        some (State.send { s with server := s.server.nextRevision id } sent cut)
      else none
  | .connect => some { s with server := { s.server with connects := s.server.connects + 1 } }
  | .install =>
    if s.server.conn < s.server.connects then
      let server := { s.server with conn := s.server.conn + 1, connected := true, selections := [] }
      some (State.send { s with server := server } [.sharedServerState] none)
    else none
  | .hangup => some { s with server := { s.server with connected := false } }
  | .attach conn =>
    if s.renderer.worker = .top ∧ s.renderer.lastAttached < conn ∧ conn ≤ s.server.connects then
      let renderer := { s.renderer with attached := some conn, lastAttached := conn, delivered := fun _ => [] }
      some (setSharedState { s with renderer := renderer } false)
    else none
  | .detach =>
    if s.renderer.worker = .top then
      let renderer := { s.renderer with attached := none, delivered := fun _ => [] }
      some (setSharedState { s with renderer := renderer } false)
    else none
  | .receive =>
    match s.renderer.attached with
    | none => none
    | some k =>
      match s.chan k with
      | [] => none
      | e :: es =>
        if e = .sharedServerState ∧ s.renderer.worker ≠ .top then none
        else some (deliver { s with chan := Function.update s.chan k es } e)
  | .setOutputSurface id window release =>
    if id ≠ 0 ∧ s.renderer.worker = .top then some (s.setOutputSurface id window release) else none
  | .loop added removed =>
    if s.renderer.worker = .top ∧ s.shouldWait (added || removed) = false then
      some { s with renderer := { s.renderer with
        changed := false
        copyWaitingForBuffer := s.renderer.copyWaitingForBuffer && !added
        outputs := if added then s.renderer.outputs.map Output.invalidate else s.renderer.outputs
        worker := if s.renderer.mapped then .drain else .top } }
    else none
  | .copy =>
    if s.renderer.worker = .drain ∧ s.renderer.connectionFailed = false ∧
        s.shared.executed < s.shared.scheduled.length then
      some { s with shared := { s.shared with executed := s.shared.executed + 1 } }
    else none
  | .endDrain failed =>
    if s.renderer.worker = .drain then
      let left := !s.renderer.connectionFailed && s.shared.executed < s.shared.scheduled.length
      some { s with renderer := { s.renderer with
        connectionFailed := s.renderer.connectionFailed || (left && failed)
        copyWaitingForBuffer := s.renderer.copyWaitingForBuffer || (left && !failed)
        worker := .drained } }
    else none
  | .snapshot =>
    if s.renderer.worker = .drained then
      some { s with renderer := { s.renderer with
        worker :=
          if s.renderer.connectionFailed || s.renderer.copyWaitingForBuffer || s.shared.waitForNextFrame then .top
          else .drawing false (snapshots s.renderer.outputs) } }
    else none
  | .draw =>
    match s.renderer.worker with
    | .drawing _ (d :: ds) =>
      some { s with renderer := { s.renderer with
        outputs := update d.id (·.show d s.shared.executed) s.renderer.outputs
        worker := .drawn d ds } }
    | _ => none
  | .record =>
    match s.renderer.worker with
    | .drawn d ds =>
      some { s with renderer := { s.renderer with
        outputs := update d.id (·.drew d) s.renderer.outputs
        worker := .drawing true ds } }
    | _ => none
  | .abandon =>
    match s.renderer.worker with
    | .drawing rendered (_ :: _) =>
      some { s with
        renderer := { s.renderer with connectionFailed := true, worker := .top }
        shared := { s.shared with waitForNextFrame := s.shared.waitForNextFrame || rendered } }
    | _ => none
  | .endDraw =>
    match s.renderer.worker with
    | .drawing rendered [] =>
      some { s with
        renderer := { s.renderer with worker := .top }
        shared := { s.shared with waitForNextFrame := s.shared.waitForNextFrame || rendered } }
    | _ => none

end State

end Lorie.Outputs
