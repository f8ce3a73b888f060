import Lorie.Lib.Transition
import Mathlib.Data.List.FinRange
import Mathlib.Logic.Function.Basic

/-!
# Data exchange between the X server and the host

The state of `data_exchange.c` and the part of the X server it works with: the windows that exist and the owners of the
two selections. Everything runs on the X thread; a command of the host, a request of a client, a timer or deferred work is
one operation.

What the X server and the kernel answer is part of the action (`Answers`): properties, files, the targets under a point
of an output. Texts are named by their atoms, and the contents of selections are left out. A change of a property that an
operation makes may be followed by the callback of that property at any time. Counters are unbounded.

`FreeResource` of a window takes it out of the table of windows, tells the selections that it owned
(`SelectionWindowDestroy`), and clears them; the callback may free other windows. `free` goes down with the number of
windows, which only falls on the way. A tree of windows goes window by window; the server's own windows have no children.

- `Transfer`, `Offer`, `Drag`, `Export`, `State`: the static variables of the file, under its names;
- history, which no function reads: `log`, `closed`, `requests`, `answered`, `abandoned`, `exports`.
-/

namespace Lorie.DataExchange

open Lorie.Lib

/-! ## Values -/

/-- A window of the server itself (`CLIENT_ID` is 0) or of a client. -/
inductive Window where
  | server (n : Nat)
  | client (c n : Nat)
  deriving DecidableEq, Repr

/-- `CLIENT_ID(window) != 0` -/
def Window.clientOwned : Window → Bool
  | server _ => false
  | client _ _ => true

/-- `LorieDataChannel`, with its selection: `CLIPBOARD` or `XdndSelection` -/
inductive Channel where
  | clipboard
  | drag
  deriving DecidableEq, Repr

/-- The atoms that the functions look at. -/
inductive Atom where
  | targets
  | timestamp
  | incr
  /-- `XA_ATOM` -/
  | atom
  /-- `dataProperty` -/
  | data
  | copy
  | other (n : Nat)
  deriving DecidableEq, Repr, Inhabited

inductive Operation where
  | enable
  | offer
  | read
  | request
  | reply
  | enter
  | move
  | leave
  | drop
  | status
  | finish
  | cancel
  | begin
  | other
  deriving DecidableEq, Repr

/-- `LorieDataEvent` -/
structure Event where
  operation : Operation
  channel : Nat
  serial : Nat := 0
  offer : Nat := 0
  output : Nat := 0
  window : Option Window := none
  x : Int := 0
  y : Int := 0
  /-- The atom of the text, when the text ends. -/
  mime : Option Atom := none
  deriving DecidableEq, Repr

/-- The channel of a command, when there is one. -/
def Event.selected (e : Event) : Channel := if e.channel = 0 then .clipboard else .drag

/-- The client messages of XDND that the server sends. -/
inductive Message where
  /-- With the first three types, and whether there are more. -/
  | enter (source : Option Window) (version : Nat) (more : Bool) (types : List Atom)
  | position (source : Option Window) (x y : Int) (time : Nat)
  | leave (source : Option Window)
  | drop (source : Option Window) (time : Nat)
  | status (catcher : Option Window)
  | finished (catcher : Option Window) (success : Bool)
  deriving DecidableEq, Repr

/-- The types of client messages that are intercepted. -/
inductive MessageType where
  | enter
  | position
  | leave
  | drop
  | status
  | finished
  | other
  deriving DecidableEq, Repr

/-- What goes out: events to the host, messages and notifications to clients, and the release of a button. -/
inductive Output where
  | emit (operation : Operation) (channel : Channel) (serial generation : Nat) (mime : Option Atom) (fd : Option Nat)
      (output : Nat) (window : Option Window) (x : Bool)
  | message (destination : Window) (actual : Option Window) (m : Message)
  | notify (requestor : Window) (channel : Channel) (target : Atom) (property : Option Atom) (time : Nat)
  | releaseButton (output : Nat) (window : Option Window)
  deriving DecidableEq, Repr

/-- What has to be answered: a `LORIE_DATA_READ` by its serial, and a conversion of a selection that the bridge owns. -/
inductive Request where
  | read (serial : Nat)
  | conversion (requestor : Option Window) (channel : Channel) (target : Atom) (time : Nat)
  deriving DecidableEq, Repr

/-- What a command asks: a `LORIE_DATA_READ` whose text ends is a request. -/
def Event.asked (e : Event) : List Request := if e.operation = .read ∧ e.mime.isSome then [.read e.serial] else []

/-! ## The state -/

structure Offer where
  generation : Nat := 0
  owner : Option Window := none
  time : Nat := 0
  /-- At most `LORIE_DATA_MAX_TARGETS`. -/
  targets : List Atom := []
  /-- `local` -/
  isLocal : Bool := false
  deriving DecidableEq, Repr

structure Transfer where
  used : Bool := false
  incoming : Bool := false
  incremental : Bool := false
  targets : Bool := false
  serial : Nat := 0
  generation : Nat := 0
  ticket : Nat := 0
  queued : Bool := false
  channel : Channel := .clipboard
  fd : Option Nat := none
  requestor : Option Window := none
  target : Atom := .other 0
  property : Atom := .other 0
  time : Nat := 0
  size : Nat := 0
  offset : Nat := 0
  timer : Bool := false
  deriving DecidableEq, Repr

/-- The request that a transfer has to answer, when there is one. -/
def Transfer.request (t : Transfer) : Option Request :=
  if t.incoming then
    if t.targets then none else some (.read t.serial)
  else if t.incremental then none
  else some (.conversion t.requestor t.channel t.target t.time)

/-- `Selection` of the X server; client 0 is `serverClient`. -/
structure Selection where
  window : Option Window := none
  client : Option Nat := none
  time : Nat := 0
  deriving DecidableEq, Repr

/-- The variables of a drag over the windows of the server. -/
structure Drag where
  target : Option Window := none
  proxy : Option Window := none
  source : Option Window := none
  output : Nat := 0
  accepted : Bool := false
  passthrough : Bool := false
  positionPending : Bool := false
  dropPending : Bool := false
  moveQueued : Bool := false
  move : Event := { operation := .other, channel := 0 }
  dataRevision : Nat := 0
  positionDataRevision : Nat := 0
  version : Nat := 0
  deriving DecidableEq, Repr

/-- The variables of an export. -/
structure Export where
  catcher : Option Window := none
  source : Option Window := none
  output : Nat := 0
  window : Option Window := none
  dropped : Bool := false
  completed : Bool := false
  success : Bool := false
  timer : Bool := false
  deriving DecidableEq, Repr

/-- History of an export. -/
structure Record where
  source : Window
  catcher : Window
  output : Nat
  window : Option Window
  /-- The source dropped. -/
  dropped : Bool
  /-- What the host reported: a successful `FINISH` or not. -/
  reports : List Bool
  /-- The calls of `lorieReleaseOutputButton`. -/
  releases : List (Nat × Option Window)
  /-- At its end: whether the source is a window of a client that exists. -/
  ended : Option Bool
  /-- The messages `XdndFinished`. -/
  finishes : List Output
  deriving DecidableEq, Repr

/-- `MAX_PENDING` -/
def maxPending : Nat := 16

structure State where
  /-- The windows that exist. -/
  windows : List Window := []
  selections : Channel → Selection := fun _ => {}
  /-- The order of the two selections in the list of the X server. -/
  dragFirst : Bool := false
  enabled : Bool := false
  clipboardActive : Bool := false
  bridge : Option Window := none
  sequence : Nat := 0
  requestSequence : Nat := 0
  transferSequence : Nat := 0
  pointerOutput : Nat := 0
  pointerWindow : Option Window := none
  pointerDown : Bool := false
  offers : Channel → Offer := fun _ => {}
  transfers : Fin maxPending → Transfer := fun _ => {}
  drag : Drag := {}
  exported : Export := {}
  /-- The queued `PropertyWork`. -/
  work : List (Fin maxPending × Nat) := []
  /-- How many descriptors there have been. -/
  created : Nat := 0
  /-- History: the descriptors that were closed. -/
  closed : List Nat := []
  /-- History: what went out. -/
  log : List Output := []
  /-- History: what was asked, whether it was taken or not. -/
  requests : List Request := []
  /-- History: the serials that the host replied to. -/
  answered : List Nat := []
  /-- History: the requests whose transfers a reset dropped. -/
  abandoned : List Request := []
  /-- History: the exports, the last first. -/
  exports : List Record := []

/-! ## Answers -/

structure Property where
  type : Atom
  format : Nat
  size : Nat
  /-- Its first `CARD32`. -/
  value : Nat := 0
  /-- Its contents as atoms. -/
  atoms : List Atom := []
  deriving DecidableEq, Repr

/-- A window that takes drops. -/
structure Target where
  window : Window
  /-- `awareVersion` -/
  version : Nat
  /-- `destinationProxy` -/
  proxy : Window
  deriving DecidableEq, Repr

/-- A point of an output and the window under it that takes drops. -/
structure Point where
  target : Option Target
  x : Int
  y : Int
  deriving DecidableEq, Repr

/-- What `memfd_create` and `pwrite` answer to `bytesFile`. -/
inductive NewFile where
  | created
  | failed
  | unwritten
  deriving DecidableEq, Repr

/-- What the X server and the kernel answer to an operation. -/
structure Answers where
  /-- `currentTime` -/
  now : Nat := 0
  /-- The number of a new window. -/
  newWindow : Option Nat := none
  /-- `TimerSet` -/
  timer : Bool := true
  /-- `dixLookupProperty` -/
  property : Option Property := none
  /-- `ValidAtom` and `supportedName` -/
  supported : Atom → Bool := fun _ => true
  /-- `bytesFile` -/
  file : NewFile := .created
  pwrite : Bool := true
  pread : Bool := true
  /-- `dixChangeWindowProperty` -/
  change : Bool := true
  /-- `lorieOutputPoint`, `childAt` -/
  point : Option Point := none
  /-- `readTargets` -/
  names : Option (List Atom) := none
  /-- The size of a regular file. -/
  stat : Option Nat := none
  /-- `own` -/
  own : Bool := true
  /-- The requestor may be changed by the client, and the atoms are valid. -/
  access : Bool := true
  /-- The memory and the queue of a `PropertyWork`. -/
  queued : Bool := true

/-- `LORIE_DATA_MAX_BYTES` -/
def maxBytes : Nat := 128 * 1024 * 1024

/-- `LORIE_DATA_MAX_TARGETS` -/
def maxTargets : Nat := 64

/-- `LORIE_DATA_CHUNK` -/
def chunkSize : Nat := 65536

namespace State

variable (s : State)

/-- Before anything happened. -/
def init (dragFirst : Bool) : State := { dragFirst := dragFirst }

/-! ## Small steps -/

/-- `windowFor(id) != NULL` -/
def HasWindow (w : Option Window) : Prop := ∃ x ∈ w, x ∈ s.windows

instance (w : Option Window) : Decidable (s.HasWindow w) :=
  match w with
  | none => isFalse fun h => by obtain ⟨x, hx, -⟩ := h; cases hx
  | some x => decidable_of_iff (x ∈ s.windows) ⟨fun h => ⟨x, rfl, h⟩, fun ⟨_, hx, h⟩ => by cases hx; exact h⟩

/-- `newWindow` -/
def newWindow (a : Answers) : Option Window × State :=
  match a.newWindow with
  | some n => if .server n ∈ s.windows then (none, s) else (some (.server n), { s with windows := .server n :: s.windows })
  | none => (none, s)

def emit (operation : Operation) (channel : Channel) (serial generation : Nat) (mime : Option Atom) (fd : Option Nat)
    (output : Nat) (window : Option Window) (x : Bool) : State :=
  { s with log := s.log ++ [.emit operation channel serial generation mime fd output window x] }

/-- What `message` sends: nothing when the window is gone or of the server itself. -/
def delivered (destination actual : Option Window) (m : Message) : List Output :=
  match destination with
  | some w => if w ∈ s.windows ∧ w.clientOwned then [.message w actual m] else []
  | none => []

/-- `message` -/
def message (destination actual : Option Window) (m : Message) : State :=
  { s with log := s.log ++ s.delivered destination actual m }

/-- What `notify` sends. -/
def notified (t : Transfer) (success : Bool) : List Output :=
  match t.requestor with
  | some w =>
    if w ∈ s.windows ∧ w.clientOwned then
      [.notify w t.channel t.target (if success then some t.property else none) t.time]
    else []
  | none => []

/-- `notify` -/
def notify (t : Transfer) (success : Bool) : State := { s with log := s.log ++ s.notified t success }

/-- Writes a transfer. -/
def setTransfer (i : Fin maxPending) (t : Transfer) : State := { s with transfers := Function.update s.transfers i t }

/-- Writes an offer. -/
def setOffer (c : Channel) (o : Offer) : State := { s with offers := Function.update s.offers c o }

/-- Writes a selection of the X server. -/
def setSelection (c : Channel) (x : Selection) : State := { s with selections := Function.update s.selections c x }

/-- `close`, of a descriptor that may be -1 -/
def close (fd : Option Nat) : State := { s with closed := s.closed ++ fd.toList }

/-- A new descriptor. -/
def newFd : Option Nat × State := (some s.created, { s with created := s.created + 1 })

/-- `bytesFile` -/
def bytesFile (size : Nat) (file : NewFile) : Option Nat × State :=
  match file with
  | .failed => (none, s)
  | .unwritten => if size = 0 then s.newFd else (none, s.newFd.2.close s.newFd.1)
  | .created => s.newFd

/-- `allocate` -/
def allocate (incoming : Bool) (channel : Channel) (serial generation : Nat) (timer : Bool) :
    Option (Fin maxPending × State) :=
  ((List.finRange maxPending).find? fun i => !(s.transfers i).used).map fun i =>
    (i, { s.setTransfer i { used := true, incoming := incoming, channel := channel, serial := serial,
                            generation := generation, ticket := s.transferSequence + 1, timer := timer } with
          transferSequence := s.transferSequence + 1 })

/-- `publishTargets` -/
def publishTargets (c : Channel) (file : NewFile) : State :=
  let o := s.offers c
  let (fd, s) := s.bytesFile o.targets.length file
  (s.emit .offer c 0 o.generation none fd (if c = .drag then s.pointerOutput else 0) o.owner false).close fd

/-! ## The drag -/

/-- Changes the variables of the drag. -/
def withDrag (f : Drag → Drag) : State := { s with drag := f s.drag }

/-- `message` of `XdndLeave` to the target -/
def leaveTarget : State :=
  if s.drag.target.isSome then s.message s.drag.proxy s.drag.target (.leave s.drag.source) else s

/-- The part of `moveDrag` for another target -/
def retarget (p : Point) : State :=
  if p.target.map Target.window = s.drag.target then s
  else
    let s := s.leaveTarget.withDrag fun d =>
      { d with target := p.target.map Target.window, proxy := p.target.map Target.proxy, accepted := false,
               positionPending := false }
    match p.target with
    | some t =>
      let types := (s.offers .drag).targets
      (s.withDrag fun d => { d with version := t.version }).message (some t.proxy) (some t.window)
        (.enter s.drag.source t.version (3 < types.length) (types.take 3))
    | none => s

/-- The end of `moveDrag`: the position is sent to the target. -/
def sendPosition (p : Point) (now : Nat) : State :=
  if s.drag.target.isSome then
    (s.withDrag fun d => { d with positionPending := true, positionDataRevision := d.dataRevision }).message s.drag.proxy
      s.drag.target (.position s.drag.source p.x p.y now)
  else s

/-- `moveDrag` -/
def moveDrag (e : Event) (a : Answers) : State :=
  let s := s.withDrag fun d => { d with move := e }
  if s.drag.positionPending then s.withDrag fun d => { d with moveQueued := true }
  else
    match a.point with
    | none => s
    | some p => ((s.retarget p).withDrag fun d => { d with output := e.output }).sendPosition p a.now

/-- `dragDataPending` -/
def dragDataPending : Prop :=
  ∃ i, (s.transfers i).used = true ∧ (s.transfers i).incoming = false ∧ (s.transfers i).channel = .drag ∧
    (s.transfers i).generation = (s.offers .drag).generation

instance : Decidable s.dragDataPending :=
  inferInstanceAs (Decidable (∃ i, (s.transfers i).used = true ∧ (s.transfers i).incoming = false ∧
    (s.transfers i).channel = .drag ∧ (s.transfers i).generation = (s.offers .drag).generation))

/-- `rejectDrag` -/
def rejectDrag : State :=
  let s := (s.withDrag fun d => { d with dropPending := false }).leaveTarget
  (s.emit .finish .drag 0 (s.offers .drag).generation none none s.drag.output s.drag.target false).withDrag fun d =>
    { d with target := none }

/-- `dropDrag` -/
def dropDrag (a : Answers) : State :=
  if s.drag.positionPending then s.withDrag fun d => { d with dropPending := true }
  else if s.drag.target.isSome ∧ s.drag.accepted = false ∧ s.dragDataPending then
    s.withDrag fun d => { d with dropPending := true }
  else if s.drag.target.isSome ∧ s.drag.accepted = false ∧ s.drag.dataRevision ≠ s.drag.positionDataRevision then
    (s.withDrag fun d => { d with dropPending := true }).moveDrag s.drag.move a
  else if s.drag.target.isSome ∧ s.drag.accepted then
    (s.withDrag fun d => { d with dropPending := false }).message s.drag.proxy s.drag.target (.drop s.drag.source a.now)
  else (s.withDrag fun d => { d with dropPending := false }).rejectDrag

/-- `selectionFinished` -/
def selectionFinished (t : Transfer) (success : Bool) (a : Answers) : State :=
  if t.incoming ∨ t.channel ≠ .drag ∨ t.generation ≠ (s.offers .drag).generation ∨ s.drag.target = none then s
  else
    let s := if success then s.withDrag fun d => { d with dataRevision := d.dataRevision + 1 } else s
    if s.drag.dropPending = false then s
    else if success then s.dropDrag a
    else s.rejectDrag

/-! ## Transfers and exports -/

/-- `FreeResource` -/
abbrev Free := State → Window → State

variable (free : Free)

/-- `release`, up to `FreeResource` -/
def releaseSlot (i : Fin maxPending) : State :=
  (s.setTransfer i { s.transfers i with used := false, timer := false }).close (s.transfers i).fd

/-- `FreeResource` in `release` -/
def freeRequestor (t : Transfer) : State :=
  match t.incoming, t.requestor with
  | true, some w => free s w
  | _, _ => s

/-- The end of `release` -/
def clearFd (i : Fin maxPending) : State := s.setTransfer i { s.transfers i with fd := none }

/-- `release` -/
def release (i : Fin maxPending) : State :=
  if (s.transfers i).used = false then s
  else ((s.releaseSlot i).freeRequestor free (s.transfers i)).clearFd i

/-- The beginning of `fail` -/
def refuse (t : Transfer) : State :=
  if t.incoming then
    if t.targets then s else s.emit .reply t.channel t.serial t.generation (some t.target) none 0 none false
  else if t.incremental then s
  else s.notify t false

/-- `fail` -/
def fail (i : Fin maxPending) : State :=
  let t := s.transfers i
  ((s.refuse t).release free i).selectionFinished t false {}

/-- Changes the history of the last export. -/
def record (f : Record → Record) : State :=
  match s.exports with
  | r :: rs => { s with exports := f r :: rs }
  | [] => s

/-- Changes the variables of the export. -/
def withExport (f : Export → Export) : State := { s with exported := f s.exported }

/-- `releaseExportPointer` -/
def releaseExportPointer : State :=
  let x := s.exported
  if x.output = 0 then s
  else
    let s := { s with log := s.log ++ [Output.releaseButton x.output x.window] }.record fun r =>
      { r with releases := r.releases ++ [(x.output, x.window)] }
    { s with
      pointerDown := if s.pointerOutput = x.output ∧ s.pointerWindow = x.window then false else s.pointerDown }.withExport
        fun x => { x with output := 0, window := none }

/-- `endExport`, up to `FreeResource` -/
def finishExport : State :=
  let x := s.exported
  match x.source with
  | some w =>
    let m := Message.finished x.catcher (x.dropped && x.completed && x.success)
    ((s.message (some w) (some w) m).record fun r =>
      { r with ended := some (w ∈ s.windows ∧ w.clientOwned)
               finishes := r.finishes ++ s.delivered (some w) (some w) m }).withExport fun x =>
        { x with timer := false, source := none }
  | none => s.withExport fun x => { x with timer := false }

/-- The end of `endExport`, behind `FreeResource` -/
def leaveExport : State := (s.withExport fun x => { x with catcher := none }).releaseExportPointer

/-- `endExport` -/
def endExport : State :=
  let s := s.finishExport
  match s.exported.catcher with
  | some w => (free s w).leaveExport
  | none => s.leaveExport

/-- `exportExpired` -/
def exportExpired : State := (s.withExport fun x => { x with timer := false, success := false }).endExport free

/-- `beginExport` -/
def beginExport (a : Answers) : State :=
  let o := s.offers .drag
  match s.exported.source, o.owner with
  | none, some w =>
    if o.isLocal ∨ s.pointerDown = false then s
    else
      match s.newWindow a with
      | (none, s) => s.withExport fun x => { x with catcher := none }
      | (some c, s) =>
        { s with
          exported := { catcher := some c, source := some w, output := s.pointerOutput, window := s.pointerWindow,
                        dropped := false, completed := false, success := false, timer := a.timer }
          exports := ⟨w, c, s.pointerOutput, s.pointerWindow, false, [], [], none, []⟩ :: s.exports }
  | _, _ => s

/-! ## Selections -/

/-- `SelectionSetOwner`, `SelectionWindowDestroy` and `SelectionClientClose` -/
inductive Kind where
  | setOwner
  | windowDestroy
  | clientClose
  deriving DecidableEq, Repr

/-- `request`; a `list` asks for the targets and is not answered. -/
def request (c : Channel) (serial generation : Nat) (target : Atom) (list : Bool) (a : Answers) : State :=
  let o := s.offers c
  let owner := s.selections c
  let refused := if list then s else s.emit .reply c serial generation (some target) none 0 none false
  if o.isLocal ∨ o.generation ≠ generation ∨ owner.client = none ∨ owner.window ≠ o.owner ∨ owner.window = none then
    refused
  else
    match s.allocate true c serial generation a.timer with
    | none => refused
    | some (i, s) =>
      let s := s.setTransfer i { s.transfers i with target := target, targets := list, property := .data }
      match s.newWindow a with
      | (none, s) => s.fail free i
      | (some w, s) => s.setTransfer i { s.transfers i with requestor := some w }

/-- The loop of `selectionChanged` -/
def failAll (c : Channel) : State :=
  (List.finRange maxPending).foldl
    (fun s i => if (s.transfers i).used ∧ (s.transfers i).channel = c then s.fail free i else s) s

/-- The offer of a new owner. -/
def renewOffer (c : Channel) : State :=
  { s with
    sequence := s.sequence + 1
    offers := Function.update s.offers c
      { generation := s.sequence + 1, owner := (s.selections c).window, time := (s.selections c).time } }

/-- `selectionChanged`, up to the new offer -/
def forgetOwner (c : Channel) : State :=
  ((if c = .drag ∧ s.exported.source.isSome ∧ (s.selections c).window ≠ s.exported.source then s.endExport free
    else s).failAll free c).renewOffer c

/-- `selectionChanged` -/
def selectionChanged (c : Channel) (kind : Kind) (a : Answers) : State :=
  if s.enabled = false ∨ (s.selections c).window = s.bridge then s
  else
    let s := s.forgetOwner free c
    let o := s.offers c
    if kind ≠ .setOwner ∨ o.owner = none then
      if c = .drag then s.emit .cancel .drag 0 o.generation none none s.pointerOutput s.pointerWindow false else s
    else if (if c = .drag then s.pointerDown else s.clipboardActive) then
      s.request free c 0 o.generation .targets true a
    else s

/-- The selections in the order of the X server. -/
def channels : List Channel := if s.dragFirst then [.drag, .clipboard] else [.clipboard, .drag]

/-- A selection loses its owner, behind the callback. -/
def loseOwner (kind : Kind) (s : State) (c : Channel) : State :=
  (s.selectionChanged free c kind {}).setSelection c { (s.selectionChanged free c kind {}).selections c with
    window := none, client := none }

end State

/-- `FreeResource` of a window, with `DeleteWindowFromAnySelections` -/
def free : Nat → State.Free
  | 0, s, _ => s
  | n + 1, s, w =>
    if w ∈ s.windows then
      s.channels.foldl
        (fun s c => if (s.selections c).window = some w then State.loseOwner (free n) .windowDestroy s c else s)
        { s with windows := s.windows.erase w }
    else s

/-- `FreeResource` with as much room as there are windows -/
def freeResource : State.Free := fun s w => free s.windows.length s w

namespace State

variable (s : State)

/-! ## Requests and commands -/

/-- `own` -/
def own (c : Channel) (a : Answers) : State :=
  if a.own then
    (s.setSelection c { window := s.bridge, client := some 0, time := a.now }).selectionChanged freeResource c .setOwner a
  else s

/-- `receive` -/
def receive (i : Fin maxPending) (initial : Bool) (a : Answers) : State :=
  let t := s.transfers i
  match a.property with
  | none => s.fail freeResource i
  | some p =>
    if ¬s.HasWindow t.requestor ∨ t.generation ≠ (s.offers t.channel).generation then s.fail freeResource i
    else if initial ∧ p.type = .incr ∧ p.format = 32 ∧ p.size = 1 then
      if t.targets ∨ maxBytes < p.value then s.fail freeResource i
      else
        let (fd, s) := s.bytesFile 0 a.file
        match fd with
        | none => (s.setTransfer i { t with fd := none }).fail freeResource i
        | some fd => s.setTransfer i { t with fd := some fd, incremental := true }
    else if t.targets then
      if p.type ≠ .atom ∨ p.format ≠ 32 ∨ 4096 < p.size then s.fail freeResource i
      else
        let o := s.offers t.channel
        let s := s.setOffer t.channel { o with targets := ((p.atoms.take p.size).filter a.supported).take maxTargets }
        (s.publishTargets t.channel a.file).release freeResource i
    else if p.format ≠ 8 ∨ maxBytes - t.size < p.size then s.fail freeResource i
    else
      let (fd, s) := if t.fd.isSome then (t.fd, s) else s.bytesFile 0 a.file
      let s := s.setTransfer i { t with fd := fd }
      if fd = none ∨ (p.size ≠ 0 ∧ a.pwrite = false) then s.fail freeResource i
      else
        let s := s.setTransfer i { t with fd := fd, size := t.size + p.size }
        if t.incremental = false ∨ p.size = 0 then
          (s.emit .reply t.channel t.serial t.generation (some t.target) fd 0 none true).release freeResource i
        else s

/-- How much of the file is sent next. -/
def chunk (t : Transfer) : Nat := min chunkSize (t.size - t.offset)

/-- `transfer->offset += length` -/
def advance (i : Fin maxPending) : State :=
  s.setTransfer i { s.transfers i with offset := (s.transfers i).offset + chunk (s.transfers i) }

/-- `sendChunk` -/
def sendChunk (i : Fin maxPending) (a : Answers) : State × Bool :=
  let t := s.transfers i
  if ¬s.HasWindow t.requestor then ((s.release freeResource i).selectionFinished t false a, false)
  else if chunk t ≠ 0 ∧ a.pread = false then (s.fail freeResource i, false)
  else if t.incremental ∧ (a.change = false ∨ chunk t = 0) then
    (((s.advance i).release freeResource i).selectionFinished t a.change a, a.change)
  else (s.advance i, a.change)

/-- `propertyWork` -/
def propertyWork (i : Fin maxPending) (ticket : Nat) (a : Answers) : State :=
  let t := s.transfers i
  if s.enabled ∧ t.used ∧ t.ticket = ticket then
    let s := s.setTransfer i { t with queued := false }
    if t.incoming then s.receive i false a else (s.sendChunk i a).1
  else s

/-- `propertyChanged`, for the transfer it finds -/
def propertyChanged (i : Fin maxPending) (a : Answers) : State :=
  let t := s.transfers i
  if s.enabled ∧ t.used ∧ t.incremental ∧ t.queued = false ∧ a.queued then
    { s.setTransfer i { t with queued := true } with work := s.work ++ [(i, t.ticket)] }
  else s

/-- The end of `convert`, for a transfer -/
def serve (i : Fin maxPending) (a : Answers) : State :=
  let t := s.transfers i
  if ¬s.HasWindow t.requestor ∨ a.access = false then s.fail freeResource i
  else if t.target = .targets ∨ t.target = .timestamp then (s.notify t a.change).release freeResource i
  else if t.target ∈ (s.offers t.channel).targets then
    s.emit .request t.channel t.serial t.generation (some t.target) none 0 none false
  else s.fail freeResource i

/-- `outgoingTransfer`, and the end of `convert` -/
def outgoingTransfer (c : Channel) (requestor : Option Window) (target : Atom) (property : Option Atom) (time : Nat)
    (a : Answers) : State :=
  match s.allocate false c s.requestSequence (s.offers c).generation a.timer with
  | none => s.notify { channel := c, requestor := requestor, target := target, time := time } false
  | some (i, s) =>
    (s.setTransfer i { s.transfers i with
      requestor := requestor, target := target, property := property.getD target, time := time }).serve i a

/-- `convert`, of a selection that the bridge owns -/
def convert (c : Channel) (requestor : Option Window) (target : Atom) (property : Option Atom) (time : Nat) (a : Answers) :
    State :=
  if s.enabled = false ∨ (s.offers c).isLocal = false then s
  else
    { s with
      requests := s.requests ++ [Request.conversion requestor c target time]
      requestSequence := s.requestSequence + 1 }.outgoingTransfer c requestor target property time a

/-- The transfer that a `SelectionNotify` answers. -/
def notified? (c : Channel) (requestor : Option Window) (target : Atom) : Option (Fin maxPending) :=
  (List.finRange maxPending).find? fun i =>
    (s.transfers i).used && (s.transfers i).incoming && (s.transfers i).requestor = requestor &&
      (s.transfers i).target = target && (s.transfers i).channel = c

/-- `sendEvent` of a `SelectionNotify` -/
def selectionNotify (c : Channel) (requestor : Option Window) (target property : Atom) (a : Answers) : State :=
  if s.enabled = false then s
  else
    match s.notified? c requestor target with
    | some i => if property = (s.transfers i).property then s.receive i true a else s.fail freeResource i
    | none => s

/-- `XdndDrop` on the catcher -/
def exportDrop : State :=
  let s := (s.withExport fun x => { x with dropped := true }).record fun r => { r with dropped := true }
  if s.exported.completed then s.endExport freeResource else s

/-- `XdndStatus` of the target, up to the queued position -/
def takeStatus (accepted : Bool) : State :=
  let s := s.withDrag fun d => { d with positionPending := false, accepted := accepted }
  s.emit .status .drag 0 (s.offers .drag).generation none none s.drag.output s.drag.target s.drag.accepted

/-- `XdndStatus`: the queued position -/
def moveQueued (a : Answers) : State :=
  if s.drag.moveQueued then (s.withDrag fun d => { d with moveQueued := false }).moveDrag s.drag.move a else s

/-- `XdndStatus` of the target -/
def dragStatus (accepted : Bool) (a : Answers) : State :=
  let s := (s.takeStatus accepted).moveQueued a
  if s.drag.dropPending then s.dropDrag a else s

/-- `XdndFinished` of the target -/
def dragFinished (bit : Bool) : State :=
  (s.emit .finish .drag 0 (s.offers .drag).generation none none s.drag.output s.drag.target
    (s.drag.version < 5 || bit)).withDrag fun d => { d with target := none }

/-- `sendEvent` of a `ClientMessage`: its window, its type, `longs0` as a window, the low bit of `longs1`, and whether
`longs4` is `copy` -/
def clientMessage (window : Option Window) (type : MessageType) (first : Option Window) (bit copy : Bool) (a : Answers) :
    State :=
  let x := s.exported
  let d := s.drag
  if s.enabled = false then s
  else if x.source.isSome ∧ window = x.catcher ∧ first = x.source ∧ type = .position then
    s.message x.source x.source (.status x.catcher)
  else if x.source.isSome ∧ window = x.catcher ∧ first = x.source ∧ (type = .enter ∨ type = .leave) then s
  else if x.source.isSome ∧ window = x.catcher ∧ first = x.source ∧ type = .drop then s.exportDrop
  else if window = d.source ∧ d.target.isSome ∧ first = d.target ∧ type = .status then s.dragStatus (bit && copy) a
  else if window = d.source ∧ d.target.isSome ∧ first = d.target ∧ type = .finished then s.dragFinished bit
  else s

/-- `LORIE_DATA_REPLY` with a large file: the transfer becomes incremental. -/
def startIncremental (i : Fin maxPending) (a : Answers) : State :=
  let s := s.setTransfer i { s.transfers i with incremental := true }
  let s := s.notify (s.transfers i) a.change
  if a.change then s else s.release freeResource i

/-- `LORIE_DATA_REPLY` with a small file -/
def sendWhole (i : Fin maxPending) (a : Answers) : State :=
  let r := s.sendChunk i a
  let t := r.1.transfers i
  ((if t.used then r.1.notify t r.2 else r.1).release freeResource i).selectionFinished t r.2 a

/-- `LORIE_DATA_REPLY`, behind the assignment of the descriptor -/
def deliver (i : Fin maxPending) (a : Answers) : State :=
  if ¬s.HasWindow (s.transfers i).requestor then s.release freeResource i
  else if chunkSize < (s.transfers i).size then s.startIncremental i a
  else s.sendWhole i a

/-- The transfer that a `LORIE_DATA_REPLY` answers. -/
def replied? (c : Channel) (serial generation : Nat) : Option (Fin maxPending) :=
  (List.finRange maxPending).find? fun i =>
    (s.transfers i).used && !(s.transfers i).incoming && (s.transfers i).serial = serial &&
      (s.transfers i).generation = generation && (s.transfers i).channel = c

/-- `LORIE_DATA_REPLY` for a transfer -/
def replyTo (i : Fin maxPending) (fd : Option Nat) (a : Answers) : State :=
  match fd, a.stat with
  | some fd, some size =>
    if maxBytes < size then (s.fail freeResource i).close (some fd)
    else (s.setTransfer i { s.transfers i with fd := some fd, size := size }).deliver i a
  | _, _ => (s.fail freeResource i).close fd

/-- `LORIE_DATA_REPLY` -/
def reply (c : Channel) (e : Event) (fd : Option Nat) (a : Answers) : State :=
  let s := { s with answered := s.answered ++ [e.serial] }
  match s.replied? c e.serial e.offer with
  | none => s.close fd
  | some i => s.replyTo i fd a

/-- No drag is under way. -/
def forgetDrag : State :=
  s.withDrag fun d =>
    { d with target := none, accepted := false, moveQueued := false, dropPending := false, positionPending := false }

/-- `LORIE_DATA_ENTER` -/
def enterDrag (c : Channel) (e : Event) : State :=
  let o := s.offers c
  let passthrough := e.x ≠ 0 && !o.isLocal && o.generation = e.offer
  let s := s.withDrag fun d => { d with passthrough := passthrough, source := s.bridge }
  if passthrough = false ∧ o.isLocal = false then s
  else s.forgetDrag.withDrag fun d => { d with output := e.output, dataRevision := 0, positionDataRevision := 0 }

/-- `LORIE_DATA_FINISH` and `LORIE_DATA_CANCEL`, while an export is under way -/
def report (success : Bool) : State :=
  let s := ((s.withExport fun x => { x with completed := true, success := success }).record fun r =>
    { r with reports := r.reports ++ [success] }).releaseExportPointer
  if s.exported.dropped then s.endExport freeResource else s

/-- `LORIE_DATA_FINISH` and `LORIE_DATA_CANCEL` -/
def complete (success : Bool) : State := (if s.exported.source.isSome then s.report success else s).forgetDrag

/-- `LORIE_DATA_OFFER` -/
def takeOffer (c : Channel) (e : Event) (fd : Option Nat) (a : Answers) : State :=
  match fd, a.names with
  | some _, some names =>
    (s.setOffer c { generation := e.offer, owner := s.bridge, time := a.now, targets := names, isLocal := true }).own c a
  | _, _ => s

/-- `LORIE_DATA_READ` -/
def read (c : Channel) (e : Event) (a : Answers) : State :=
  match e.mime with
  | some target => s.request freeResource c e.serial e.offer target false a
  | none => s

/-- The `switch` of `lorieDataCommand`, up to `done`; a descriptor that no transfer takes is closed there. -/
def operate (c : Channel) (e : Event) (fd : Option Nat) (a : Answers) : State :=
  match e.operation with
  | .offer => (s.takeOffer c e fd a).close fd
  | .read => (s.read c e a).close fd
  | .reply => s.reply c e fd a
  | .enter => (s.enterDrag c e).close fd
  | .move => (s.moveDrag e a).close fd
  | .leave => s.leaveTarget.forgetDrag.close fd
  | .drop => (s.dropDrag a).close fd
  | .finish => (s.complete (e.x ≠ 0)).close fd
  | .cancel => (s.complete false).close fd
  | .begin => (s.beginExport a).close fd
  | _ => s.close fd

/-- `LORIE_DATA_ENABLE` -/
def enable (e : Event) (a : Answers) : State :=
  let s := { s with enabled := true, clipboardActive := e.x ≠ 0 }
  match s.bridge with
  | some _ => s
  | none => { (s.newWindow a).2 with bridge := (s.newWindow a).1 }

/-- `lorieDataCommand`, with the descriptor of the event -/
def command (e : Event) (fd : Option Nat) (a : Answers) : State :=
  if 1 < e.channel then s.close fd
  else if e.operation = .enable then (s.enable e a).close fd
  else if s.enabled = false ∨ s.bridge = none then s.close fd
  else s.operate e.selected e fd a

/-- History: a command is noted before `lorieDataCommand` looks at it. -/
def ask (e : Event) : State := { s with requests := s.requests ++ e.asked }

/-- `lorieDataCommand`; `fd` says whether a descriptor came with the event. -/
def lorieDataCommand (e : Event) (fd : Bool) (a : Answers) : State :=
  if fd then (s.ask e).newFd.2.command e s.newFd.1 a else (s.ask e).command e none a

/-- `lorieDataPointer` -/
def lorieDataPointer (output : Nat) (window : Option Window) (button : Nat) (down : Bool) : State :=
  if button ≠ 1 ∨ (down = false ∧ (s.pointerOutput ≠ output ∨ s.pointerWindow ≠ window)) then s
  else { s with pointerDown := down, pointerOutput := output, pointerWindow := window }

/-- The transfers that are in use. -/
def usedTransfers : List Transfer := ((List.finRange maxPending).map s.transfers).filter Transfer.used

/-- `lorieDataReset`: the transfers are released -/
def releaseAll : State :=
  let s := { s with
    enabled := false
    clipboardActive := false
    abandoned := s.abandoned ++ s.usedTransfers.filterMap Transfer.request }
  (List.finRange maxPending).foldl (fun s i => s.release freeResource i) s

/-- `lorieDataReset`: the bridge is freed -/
def freeBridge : State :=
  match s.bridge with
  | some w => freeResource s w
  | none => s

/-- `lorieDataReset` -/
def lorieDataReset : State :=
  { (s.endExport freeResource).releaseAll.freeBridge.withDrag fun d =>
      { d with target := none, source := none, moveQueued := false, dropPending := false, positionPending := false } with
    bridge := none
    pointerDown := false
    offers := fun _ => {} }

end State

/-! ## Operations -/

inductive Action where
  /-- A client creates a window. -/
  | createWindow (c n : Nat)
  /-- A window is destroyed. -/
  | destroyWindow (w : Window)
  /-- `SetSelectionOwner` -/
  | setSelectionOwner (c : Channel) (window : Option Window) (client time : Nat) (a : Answers)
  /-- A client leaves (`DeleteClientFromAnySelections`). -/
  | closeClient (client : Nat)
  | convert (c : Channel) (requestor : Option Window) (target : Atom) (property : Option Atom) (time : Nat) (a : Answers)
  | selectionNotify (c : Channel) (requestor : Option Window) (target property : Atom) (a : Answers)
  | clientMessage (window : Option Window) (type : MessageType) (first : Option Window) (bit copy : Bool) (a : Answers)
  | propertyChanged (i : Fin maxPending) (a : Answers)
  | propertyWork (a : Answers)
  /-- `expired` -/
  | expired (i : Fin maxPending)
  | exportExpired
  | dataPointer (output : Nat) (window : Option Window) (button : Nat) (down : Bool)
  | dataCommand (e : Event) (fd : Bool) (a : Answers)
  | dataReset

/-- One operation. Outputs are not 0, and the clients of requests are not the server. -/
def step (s : State) : Action → Option State
  | .createWindow c n =>
    if .client c n ∈ s.windows then none else some { s with windows := .client c n :: s.windows }
  | .destroyWindow w => if w ∈ s.windows then some (freeResource s w) else none
  | .setSelectionOwner c window client time a =>
    if client ≠ 0 ∧ (window = none ∨ s.HasWindow window) then
      some ((s.setSelection c ⟨window, window.map fun _ => client, time⟩).selectionChanged freeResource c .setOwner a)
    else none
  | .closeClient client =>
    if client ≠ 0 then
      some (s.channels.foldl
        (fun s c => if (s.selections c).client = some client then State.loseOwner freeResource .clientClose s c else s) s)
    else none
  | .convert c requestor target property time a => some (s.convert c requestor target property time a)
  | .selectionNotify c requestor target property a => some (s.selectionNotify c requestor target property a)
  | .clientMessage window type first bit copy a => some (s.clientMessage window type first bit copy a)
  | .propertyChanged i a => some (s.propertyChanged i a)
  | .propertyWork a =>
    match s.work with
    | (i, ticket) :: rest => some ({ s with work := rest }.propertyWork i ticket a)
    | [] => none
  | .expired i =>
    if (s.transfers i).used ∧ (s.transfers i).timer then
      some ((s.setTransfer i { s.transfers i with timer := false }).fail freeResource i)
    else none
  | .exportExpired => if s.exported.timer then some (s.exportExpired freeResource) else none
  | .dataPointer output window button down => if output ≠ 0 then some (s.lorieDataPointer output window button down) else none
  | .dataCommand e fd a => some (s.lorieDataCommand e fd a)
  | .dataReset => some s.lorieDataReset

end Lorie.DataExchange
