import Lorie.Windows.Properties
import Mathlib.Logic.Function.Basic

/-!
# The window model

`window_model.c`: the records of the catalog, the requests of the clients with their serials, the confirmations of the host,
and what `lorieWindowModelRefresh` sends. The windows stand in the order of `walk`; the X server adds, changes and destroys
them and calls the hooks. The environment answers for memory and for `dixChangeWindowProperty`.

History: `issued`, the serials; `sent`, what was sent since the last `lorieWindowModelObserve`; `log`, the input of the host
and the requests for activation; `failed`, that the last refresh had no memory for a record.
-/

namespace Lorie.Windows

/-! ## States of a window -/

/-- `LorieFullscreenState` -/
structure FullscreenState where
  serial : Nat := 0
  requested : Bool := false
  actual : Bool := false
  deriving DecidableEq, Repr

/-- The next value of a `uint32_t` that is not zero. -/
def next32 (n : Nat) : Nat := if (n + 1) % 4294967296 = 0 then 1 else (n + 1) % 4294967296

/-- `lorieFullscreenRequest` -/
def lorieFullscreenRequest (state : FullscreenState) (action : Nat) : Option FullscreenState :=
  if action > 2 then none
  else some { state with requested := if action = 2 then !state.requested else action = 1, serial := next32 state.serial }

/-- `lorieFullscreenConfirm` -/
def lorieFullscreenConfirm (state : FullscreenState) (serial : Nat) (actual : Bool) : FullscreenState :=
  if serial ≠ state.serial then state else { state with requested := actual, actual := actual }

/-- `LorieMaximizedState` -/
structure MaximizedState where
  serial : Nat := 0
  requested : BitVec 32 := 0
  actual : BitVec 32 := 0
  deriving DecidableEq, Repr

/-- `lorieMaximizedRequest` -/
def lorieMaximizedRequest (state : MaximizedState) (action : Nat) (axes : BitVec 32) : Option MaximizedState :=
  if action > 2 ∨ axes = 0 ∨ axes &&& ~~~3 ≠ 0 then none
  else
    some { state with
      requested :=
        if action = 0 then state.requested &&& ~~~axes
        else if action = 1 then state.requested ||| axes
        else state.requested ^^^ axes }

/-- `lorieMaximizedConfirm` -/
def lorieMaximizedConfirm (state : MaximizedState) (serial : Nat) (axes : BitVec 32) : MaximizedState :=
  if serial ≠ state.serial ∨ axes &&& ~~~3 ≠ 0 then state else { state with requested := axes, actual := axes }

/-- `LORIE_INTERACTION_*` -/
inductive InteractionAction where
  | none | activate | minimize
  deriving DecidableEq, Repr

/-- `LorieWindowInteraction` -/
structure WindowInteraction where
  serial : Nat := 0
  action : InteractionAction := .none
  attention : Bool := false
  actual : BitVec 32 := 0
  deriving DecidableEq, Repr

/-- The difference of two `uint32_t` as an `int32_t` is not negative. -/
def notBefore (a b : Nat) : Bool := (a + 4294967296 - b) % 4294967296 < 2147483648

/-- `lorieActivationTimestamp` -/
def lorieActivationTimestamp (requested input now : Nat) : Bool :=
  requested ≠ 0 && input ≠ 0 && notBefore requested input && notBefore now requested &&
    (now + 4294967296 - input) % 4294967296 ≤ 10000

/-- `WindowRecord` -/
structure WindowRecord where
  id : Nat
  seen : Bool := false
  mapped : Bool := false
  changed : Bool := false
  published : Bool := false
  destroyed : Bool := false
  fullscreen : FullscreenState := {}
  maximized : MaximizedState := {}
  interaction : WindowInteraction := {}
  title : List Nat := padded 256 []
  hasIcon : Bool := false
  role : WindowRole := .application
  icon : List Nat := noIcon
  /-- History: the window of the record. -/
  number : Nat
  deriving DecidableEq, Repr

/-- `windowInfo` of an `EVENT_OUTPUT_WINDOW`, with its icon. -/
structure WindowInfo where
  mapped : Bool
  window : Nat
  hasIcon : Bool
  role : WindowRole
  hostManaged : Bool
  fullscreenSerial : Nat
  maximized : MaximizedState
  interaction : WindowInteraction
  fullscreenRequested : Bool
  fullscreenActual : Bool
  parent : Nat
  width : Int
  height : Int
  constraints : WindowConstraints
  title : List Nat
  instanceName : List Nat
  className : List Nat
  icon : List Nat
  deriving DecidableEq, Repr

/-- What is sent to the host. -/
inductive Sent where
  /-- A snapshot; history: of which window. -/
  | info (info : WindowInfo) (number : Nat)
  | removed (window : Nat)
  /-- `EVENT_OUTPUT_WINDOWS_DONE` -/
  | done
  | gesture (window direction : Nat)
  deriving DecidableEq, Repr

/-- History of the input and of the requests for activation. -/
inductive Entry where
  /-- `lorieWindowUserInput`: the time, and the client that owned the window, if there was one -/
  | input (time : Nat) (owner : Option Nat)
  /-- A `_NET_ACTIVE_WINDOW` for a window of the catalog -/
  | request (time : Nat)
  deriving DecidableEq, Repr

structure State where
  /-- `MakeAtom` -/
  atom : Name → Nat
  /-- `pScreenPtr->root` -/
  root : Window
  /-- All other windows, in the order of `walk`. -/
  windows : List Window
  /-- The client of a slot. -/
  clients : Nat → Option Nat
  /-- The time in milliseconds. -/
  clock : Nat
  records : List WindowRecord
  dirty : Bool
  observing : Bool
  managerWindow : Option Nat
  stateSerial : Nat
  lastInputWindow : Nat
  lastInputTime : Nat
  /-- How many windows and clients there were. -/
  created : Nat
  issued : List Nat
  sent : List Sent
  log : List Entry
  failed : Bool

namespace State

variable (s : State)

/-! ## Records -/

/-- `nextStateSerial` -/
def nextStateSerial : Nat × State :=
  (next32 s.stateSerial, { s with stateSerial := next32 s.stateSerial, issued := next32 s.stateSerial :: s.issued })

/-- `lookup` -/
def lookup (id : Nat) : Option Window :=
  if id = 0 then none else if id = s.root.id then some s.root else s.windows.find? fun w => w.id = id

/-- The slot of a client in the number of a resource. -/
def slot (id : Nat) : Nat := id / 2097152

/-- `wClient` -/
def wClient (w : Window) : Option Nat := s.clients (slot w.id)

/-- `GetTimeInMillis` -/
def now : Nat := s.clock % 4294967296

def isApplication (w : Window) : Bool := Windows.isApplication s.atom w s.root.id

/-- The record of a window that exists. -/
def live (id : Nat) (r : WindowRecord) : Bool := !r.destroyed && r.id = id

/-- A new record of a window, with its three serials. -/
def newRecord (w : Window) : WindowRecord × State :=
  let managed := s.managerWindow.isSome
  let (fullscreenSerial, s₁) := s.nextStateSerial
  let (maximizedSerial, s₂) := s₁.nextStateSerial
  let (interactionSerial, s₃) := s₂.nextStateSerial
  let fullscreen : FullscreenState := {}
  ({ id := w.id
     fullscreen :=
       { (if managed ∧ hasAtom s.atom w .netWmState .fullscreen then (lorieFullscreenRequest fullscreen 1).getD fullscreen
         else fullscreen) with
         serial := fullscreenSerial }
     maximized :=
       { serial := maximizedSerial
         requested :=
           if managed then
             (if hasAtom s.atom w .netWmState .maximizedHorz then 1 else 0) |||
               (if hasAtom s.atom w .netWmState .maximizedVert then 2 else 0)
           else 0 }
     interaction :=
       { serial := interactionSerial
         attention := managed && (urgent s.atom w || hasAtom s.atom w .netWmState .demandsAttention)
         action := if managed ∧ iconic s.atom w then .minimize else .none }
     number := w.number }, s₃)

/-- `recordFor`; `calloc` says whether there is memory for a new record. -/
def recordFor (w : Window) (calloc : Bool) : Option WindowRecord × State :=
  if !s.isApplication w then (none, s)
  else
    match s.records.find? (live w.id) with
    | some r => (some r, s)
    | none =>
      if !w.realized then (none, s)
      else if !calloc then (none, { s with failed := true })
      else
        let (r, s) := s.newRecord w
        (some r, { s with records := r :: s.records })

/-- The record that `recordFor` found changes. -/
def updateLive (id : Nat) (f : WindowRecord → WindowRecord) : List WindowRecord → List WindowRecord
  | [] => []
  | r :: rs => if live id r then f r :: rs else r :: updateLive id f rs

def update (id : Nat) (f : WindowRecord → WindowRecord) : State := { s with records := updateLive id f s.records }

/-- `record->changed = dirty = TRUE` after a change of a record -/
def change (id : Nat) (f : WindowRecord → WindowRecord) : State :=
  { s.update id fun r => { f r with changed := true } with dirty := true }

/-! ## Publication -/

/-- What `publishWindow` sends of a record that it compares with its window. -/
def windowInfo (r : WindowRecord) (w : Window) : WindowInfo where
  mapped := r.mapped
  window := r.id
  hasIcon := r.hasIcon
  role := r.role
  hostManaged := s.managerWindow.isSome
  fullscreenSerial := r.fullscreen.serial
  maximized := r.maximized
  interaction := r.interaction
  fullscreenRequested := r.fullscreen.requested
  fullscreenActual := r.fullscreen.actual
  parent := reference s.atom w .wmTransientFor
  width := w.width
  height := w.height
  constraints := lorieWindowConstraints s.atom w
  title := r.title
  instanceName := (windowClass s.atom w).1
  className := (windowClass s.atom w).2
  icon := r.icon

/-- The fields of a record that `publishWindow` takes from its window. -/
def observed (r : WindowRecord) (w : Window) : WindowRecord :=
  { r with
    mapped := w.realized
    title := windowTitle w
    hasIcon := (windowIcon s.atom w).isSome
    role := windowRole s.atom w
    icon := (windowIcon s.atom w).getD noIcon }

/-- The record says what the window is. -/
def upToDate (r : WindowRecord) (w : Window) : Bool :=
  r.mapped = w.realized && cString r.title = cString (windowTitle w) && r.role = windowRole s.atom w &&
    r.hasIcon = (windowIcon s.atom w).isSome && r.icon = (windowIcon s.atom w).getD noIcon

/-- `publishWindow` -/
def publishWindow (w : Window) (calloc : Bool) : State :=
  match s.recordFor w calloc with
  | (none, s) => s
  | (some r, s) =>
    if !r.published ∨ r.changed ∨ !s.upToDate r w then
      let s := s.update w.id fun r => { s.observed r w with seen := true, published := true, changed := false }
      { s with sent := s.sent ++ [.info (s.windowInfo (s.observed r w) w) w.number] }
    else s.update w.id fun r => { r with seen := true }

/-- `walk` -/
def walk (calloc : Nat → Bool) : State := s.windows.foldl (fun s w => s.publishWindow w (calloc w.number)) s

/-- The first loop of `lorieWindowModelRefresh`: the records of destroyed windows go. -/
def removeDestroyed : State :=
  { s with
    sent := s.sent ++ ((s.records.filter fun r => r.destroyed && r.published).map fun r => .removed r.id)
    records := s.records.filter fun r => !r.destroyed }

/-- The last loop: the records that were not seen go. -/
def removeUnseen : State :=
  { s with
    sent := s.sent ++ ((s.records.filter fun r => !r.seen).map fun r => .removed r.id)
    records := s.records.filter fun r => r.seen }

/-- `lorieWindowModelRefresh` -/
def lorieWindowModelRefresh (calloc : Nat → Bool) : State :=
  if !s.observing ∨ !s.dirty then s
  else
    let s : State := { s with dirty := false, failed := false }
    let s := s.removeDestroyed
    let s : State := { s with records := s.records.map fun r => { r with seen := false } }
    let s := (s.walk calloc).removeUnseen
    { s with sent := s.sent ++ [.done] }

/-- `lorieWindowModelReset` -/
def lorieWindowModelReset : State :=
  { s with records := s.records.map fun r => { r with published := false }, observing := false, dirty := true }

/-- `lorieWindowModelObserve` -/
def lorieWindowModelObserve : State := { s.lorieWindowModelReset with observing := true, sent := [] }

/-! ## Properties -/

/-- The records of a window in `propertyChanged` of `WM_HINTS`, each with a new serial -/
def renewInteraction (id : Nat) (attention : Bool) : List WindowRecord → State → List WindowRecord × State
  | [], s => ([], s)
  | r :: rs, s =>
    if r.id = id then
      let (serial, s) := s.nextStateSerial
      let (rs, s) := renewInteraction id attention rs s
      ({ r with
         interaction := { r.interaction with attention := attention, action := .none, serial := serial }
         changed := true } :: rs, s)
    else
      let (rs, s) := renewInteraction id attention rs s
      (r :: rs, s)

/-- All records of a window are changed. -/
def changeAll (id : Nat) : State :=
  { s with records := s.records.map fun r => if r.id = id then { r with changed := true } else r }

/-- `propertyChanged`; `attention` is what `urgent` says of the window. -/
def propertyChanged (id : Nat) (name : Name) (attention : Bool) : State :=
  let s :=
    if s.managerWindow.isSome ∧ name = .wmHints then
      let (rs, s') := renewInteraction id attention s.records s
      { s' with records := rs }
    else s
  let s := if name = .wmClass ∨ name = .wmNormalHints then s.changeAll id else s
  { s with dirty := true }

/-- A property of a window is set or deleted. -/
def storeProperty (id : Nat) (name : Name) (value : Option Property) : State :=
  let store (w : Window) : Window :=
    if w.id = id then { w with properties := Function.update w.properties name value } else w
  { s with root := store s.root, windows := s.windows.map store }

/-- What `urgent` says of a window. -/
def urgentWindow (id : Nat) : Bool :=
  match s.lookup id with
  | some w => urgent s.atom w
  | none => false

/-- A property changes; the callback comes after the change, or before it where a client deletes what it reads. -/
def setProperty (id : Nat) (name : Name) (value : Option Property) (early : Bool) : State :=
  let t := s.storeProperty id name value
  t.propertyChanged id name (if early then s.urgentWindow id else t.urgentWindow id)

/-! ## Confirmations -/

/-- What the environment answers to one call: the memory for a record, the memory for a list of atoms, and whether
`dixChangeWindowProperty` succeeds. -/
structure Env where
  record : Bool
  atoms : Bool
  change : Nat → Bool

/-- `dixChangeWindowProperty`, the `i`-th of a call -/
def dixChangeWindowProperty (env : Env) (i id : Nat) (name : Name) (value : Property) : State :=
  if env.change i then s.setProperty id name (some value) false else s

/-- The atoms of `_NET_WM_STATE` -/
def stateAtoms (w : Window) : List Nat :=
  match property w .netWmState with
  | some previous => if previous.type = s.atom .atom ∧ previous.format = 32 then previous.data else []
  | none => []

/-- The window of a confirmation and its record -/
def confirmed (id : Nat) (env : Env) : Option (Window × WindowRecord) × State :=
  if s.managerWindow = none then (none, s)
  else
    match s.lookup id with
    | none => (none, s)
    | some w =>
      match s.recordFor w env.record with
      | (none, s) => (none, s)
      | (some r, s) => (some (w, r), s)

/-- `lorieWindowFullscreenConfirm` -/
def lorieWindowFullscreenConfirm (id serial : Nat) (fullscreen : Bool) (env : Env) : State :=
  match s.confirmed id env with
  | (none, s) => s
  | (some (w, r), s) =>
    if serial ≠ r.fullscreen.serial ∨ !env.atoms then s
    else
      let state := s.atom .fullscreen
      let atoms := (s.stateAtoms w).filter (· ≠ state) ++ if fullscreen then [state] else []
      if env.change 0 then
        (s.dixChangeWindowProperty env 0 w.id .netWmState ⟨s.atom .atom, 32, atoms⟩).change w.id fun r =>
          { r with fullscreen := lorieFullscreenConfirm r.fullscreen serial fullscreen }
      else s

/-- `lorieWindowMaximizedConfirm` -/
def lorieWindowMaximizedConfirm (id serial : Nat) (axes : BitVec 32) (env : Env) : State :=
  if axes &&& ~~~3 ≠ 0 then s
  else
    match s.confirmed id env with
    | (none, s) => s
    | (some (w, r), s) =>
      if serial ≠ r.maximized.serial ∨ !env.atoms then s
      else
        let horizontal := s.atom .maximizedHorz
        let vertical := s.atom .maximizedVert
        let atoms := (s.stateAtoms w).filter (fun value => value ≠ horizontal ∧ value ≠ vertical) ++
          (if axes &&& 1 ≠ 0 then [horizontal] else []) ++ if axes &&& 2 ≠ 0 then [vertical] else []
        if env.change 0 then
          (s.dixChangeWindowProperty env 0 w.id .netWmState ⟨s.atom .atom, 32, atoms⟩).change w.id fun r =>
            { r with maximized := lorieMaximizedConfirm r.maximized serial axes }
        else s

/-- `lorieWindowInteractionConfirm`: active is the first flag, minimized the second and attention the third. -/
def lorieWindowInteractionConfirm (id serial : Nat) (flags : BitVec 32) (env : Env) : State :=
  if flags &&& ~~~7 ≠ 0 then s
  else
    match s.confirmed id env with
    | (none, s) => s
    | (some (w, r), s) =>
      if r.interaction.serial ≠ serial ∨ !env.atoms then s
      else
        let hidden := s.atom .hidden
        let attention := s.atom .demandsAttention
        let flags := if flags &&& 1 ≠ 0 then flags &&& ~~~4 else flags
        let atoms := (s.stateAtoms w).filter (fun value => value ≠ hidden ∧ value ≠ attention) ++
          (if flags &&& 2 ≠ 0 then [hidden] else []) ++ if flags &&& 4 ≠ 0 then [attention] else []
        let s := s.dixChangeWindowProperty env 0 w.id .netWmState ⟨s.atom .atom, 32, atoms⟩
        let s := s.dixChangeWindowProperty env 1 w.id .wmState ⟨s.atom .wmState, 32, [if flags &&& 2 ≠ 0 then 3 else 1, 0]⟩
        let active := reference s.atom s.root .netActiveWindow
        let s :=
          if flags &&& 1 ≠ 0 ∨ active = id then
            s.dixChangeWindowProperty env 2 s.root.id .netActiveWindow
              ⟨s.atom .window, 32, [if flags &&& 1 ≠ 0 then id else 0]⟩
          else s
        s.change w.id fun r =>
          { r with interaction := { r.interaction with actual := flags, action := .none, attention := flags &&& 4 ≠ 0 } }

/-! ## Requests of the clients -/

/-- A client message -/
structure Message where
  /-- `SendEvent` of a `ClientMessage` of format 32 to the root window -/
  toRoot : Bool
  window : Nat
  type : Nat
  longs0 : Nat
  longs1 : Nat
  longs2 : Nat
  longs3 : Nat
  deriving DecidableEq, Repr

/-- A change of the found record with a new serial -/
def changeSerial (id : Nat) (f : Nat → WindowRecord → WindowRecord) : State :=
  let (serial, s) := s.nextStateSerial
  s.change id (f serial)

/-- A window may be activated: its client had recent input. -/
def activationAllowed (w : Window) (requested : Nat) : Bool :=
  match s.lookup s.lastInputWindow with
  | some input => s.wClient input = s.wClient w && lorieActivationTimestamp requested s.lastInputTime s.now
  | none => false

/-- `_NET_ACTIVE_WINDOW` for a window with a record -/
def activate (w : Window) (r : WindowRecord) (requested : Nat) : State :=
  let allowed := s.activationAllowed w requested
  let s : State := { s with lastInputTime := 0, log := s.log ++ [.request s.clock] }
  s.changeSerial w.id fun serial r' =>
    { r' with
      interaction :=
        { r.interaction with
          action := if allowed then .activate else .none
          attention := r.interaction.attention || !allowed
          serial := serial } }

/-- `_NET_WM_STATE` for a window with a record -/
def changeState (w : Window) (r : WindowRecord) (m : Message) : State :=
  let has (name : Name) : Bool := m.longs1 = s.atom name || m.longs2 = s.atom name
  let s' :=
    if has .fullscreen then
      match lorieFullscreenRequest r.fullscreen m.longs0 with
      | some fullscreen => s.changeSerial w.id fun serial r => { r with fullscreen := { fullscreen with serial := serial } }
      | none => s
    else s
  let s' :=
    if has .demandsAttention ∧ m.longs0 ≤ 2 then
      s'.changeSerial w.id fun serial r' =>
        { r' with
          interaction :=
            { r.interaction with
              attention := if m.longs0 = 2 then !r.interaction.attention else m.longs0 = 1
              action := .none
              serial := serial } }
    else s'
  let axes : BitVec 32 := (if has .maximizedHorz then 1 else 0) ||| if has .maximizedVert then 2 else 0
  match lorieMaximizedRequest r.maximized m.longs0 axes with
  | some maximized => s'.changeSerial w.id fun serial r => { r with maximized := { maximized with serial := serial } }
  | none => s'

/-- `sendEvent` for a window with a record; `gesture` is `lorieWindowGestureAllowed`. -/
def request (w : Window) (r : WindowRecord) (m : Message) (gesture : Nat → Nat → Bool) : State :=
  if m.type = s.atom .netActiveWindow then s.activate w r m.longs1
  else if m.type = s.atom .wmChangeState then
    if m.longs0 = 3 then
      s.changeSerial w.id fun serial r =>
        { r with interaction := { r.interaction with action := .minimize, serial := serial } }
    else s
  else if m.type = s.atom .netWmMoveResize then
    if m.longs2 = 11 ∨ (m.longs2 ≤ 8 ∧ gesture r.id m.longs3) then { s with sent := s.sent ++ [.gesture r.id m.longs2] }
    else s
  else if m.type = s.atom .netWmState then s.changeState w r m
  else s

/-- `sendEvent` -/
def sendEvent (m : Message) (calloc : Bool) (gesture : Nat → Nat → Bool) : State :=
  if s.managerWindow = none ∨ !m.toRoot then s
  else
    match s.lookup m.window with
    | none => s
    | some w =>
      match s.recordFor w calloc with
      | (none, s) => s
      | (some r, s) => s.request w r m gesture

/-- `lorieWindowUserInput` -/
def lorieWindowUserInput (window : Nat) : State :=
  if s.managerWindow = none then s
  else
    { s with
      lastInputWindow := window
      lastInputTime := s.now
      log := s.log ++ [.input s.clock ((s.lookup window).bind s.wClient)] }

/-! ## Hooks -/

/-- A window changes, and a hook marks the model. -/
def hook (id : Nat) (f : Window → Window) : State :=
  { s with windows := s.windows.map fun w => if w.id = id then f w else w, dirty := true }

/-- `onDestroy` -/
def onDestroy (id : Nat) : State :=
  { s with
    windows := s.windows.filter fun w => w.id ≠ id
    records := s.records.map fun r => if r.id = id then { r with destroyed := true } else r
    dirty := true }

/-- `managerChanged`: another client takes the selection, or the window of the manager was destroyed. -/
def managerChanged (destroyed : Bool) : State :=
  match s.managerWindow with
  | none => s
  | some old =>
    let s : State := { s with managerWindow := none }
    let s := if destroyed then s else s.onDestroy old
    { s with records := s.records.map fun r => { r with changed := true }, dirty := true }

end State

/-! ## Steps -/

inductive Action where
  /-- `CreateWindow`, in some place of the order -/
  | createWindow (id parent place : Nat) (inputOutput overrideRedirect : Bool) (x y width height : Int)
  | destroyWindow (id : Nat)
  | realize (id : Nat)
  | unrealize (id : Nat)
  /-- `PositionWindow`: a window moves, or takes another size or parent. -/
  | position (id parent : Nat) (x y width height : Int)
  /-- A window changes its place in the order. -/
  | restack (id place : Nat)
  | changeProperty (id : Nat) (name : Name) (value : Option Property) (early : Bool)
  | sendEvent (m : State.Message) (calloc : Bool) (gesture : Nat → Nat → Bool)
  | managerChanged (destroyed : Bool)
  | fullscreenConfirm (id serial : Nat) (fullscreen : Bool) (env : State.Env)
  | maximizedConfirm (id serial : Nat) (axes : BitVec 32) (env : State.Env)
  | interactionConfirm (id serial : Nat) (flags : BitVec 32) (env : State.Env)
  | userInput (window : Nat)
  | refresh (calloc : Nat → Bool)
  | observe
  | reset
  | clientArrives (slot : Nat)
  /-- A client goes; its windows went before it. -/
  | clientExits (slot : Nat)
  | tick (milliseconds : Nat)

/-- The manager's own window -/
def managerRecord (id root : Nat) : Window where
  id := id
  parent := root
  inputOutput := false
  overrideRedirect := false
  realized := false
  x := 0
  y := 0
  width := 1
  height := 1
  properties := fun _ => none
  number := 0
  wasRealized := false

/-- A root window -/
def rootRecord (id : Nat) (width height : Int) : Window where
  id := id
  parent := 0
  inputOutput := true
  overrideRedirect := false
  realized := true
  x := 0
  y := 0
  width := width
  height := height
  properties := fun _ => none
  number := 0
  wasRealized := true

/-- The state after `lorieWindowManagerReady`, before the first client. -/
def State.init (atom : Name → Nat) (root : Window) (manager : Option Nat) : State where
  atom := atom
  root := root
  windows := manager.toList.map fun id => managerRecord id root.id
  clients := Function.update (fun _ => none) 0 (some 0)
  clock := 0
  records := []
  dirty := true
  observing := false
  managerWindow := manager
  stateSerial := 0
  lastInputWindow := 0
  lastInputTime := 0
  created := 1
  issued := []
  sent := []
  log := []
  failed := false

def step (s : State) : Action → Option State
  | .createWindow id parent place inputOutput overrideRedirect x y width height =>
    if id ≠ 0 ∧ id ≠ s.root.id ∧ (∀ w ∈ s.windows, w.id ≠ id) ∧ (s.clients (State.slot id)).isSome then
      let w : Window :=
        ⟨id, parent, inputOutput, overrideRedirect, false, x, y, width, height, fun _ => none, s.created, false⟩
      some { s with windows := s.windows.take place ++ w :: s.windows.drop place, created := s.created + 1 }
    else none
  | .destroyWindow id => if ∃ w ∈ s.windows, w.id = id then some (s.onDestroy id) else none
  | .realize id => some (s.hook id fun w => { w with realized := true, wasRealized := true })
  | .unrealize id => some (s.hook id fun w => { w with realized := false })
  | .position id parent x y width height =>
    some ((s.hook id fun w => { w with parent := parent, x := x, y := y, width := width, height := height }).changeAll id)
  | .restack id place =>
    let others := s.windows.filter fun w => w.id ≠ id
    some { s with
      windows := others.take place ++ (s.windows.filter fun w => w.id = id) ++ others.drop place
      dirty := true }
  | .changeProperty id name value early =>
    if id = s.root.id ∨ ∃ w ∈ s.windows, w.id = id then some (s.setProperty id name value early) else none
  | .sendEvent m calloc gesture => some (s.sendEvent m calloc gesture)
  | .managerChanged destroyed => some (s.managerChanged destroyed)
  | .fullscreenConfirm id serial fullscreen env => some (s.lorieWindowFullscreenConfirm id serial fullscreen env)
  | .maximizedConfirm id serial axes env => some (s.lorieWindowMaximizedConfirm id serial axes env)
  | .interactionConfirm id serial flags env => some (s.lorieWindowInteractionConfirm id serial flags env)
  | .userInput window => some (s.lorieWindowUserInput window)
  | .refresh calloc => some (s.lorieWindowModelRefresh calloc)
  | .observe => some s.lorieWindowModelObserve
  | .reset => some s.lorieWindowModelReset
  | .clientArrives slot =>
    if s.clients slot = none then
      some { s with clients := Function.update s.clients slot (some s.created), created := s.created + 1 }
    else none
  | .clientExits slot =>
    if slot ≠ 0 ∧ ∀ w ∈ s.windows, State.slot w.id ≠ slot then
      some { s with clients := Function.update s.clients slot none }
    else none
  | .tick milliseconds => some { s with clock := s.clock + milliseconds }

/-- A client makes a window with a `WM_CLASS` and maps it. -/
def appears (window root : Nat) : List Action :=
  [.createWindow window root 0 true false 0 0 80 60, .changeProperty window .wmClass (some ⟨31, 8, [97, 0, 98, 0]⟩) false,
    .realize window]

end Lorie.Windows
