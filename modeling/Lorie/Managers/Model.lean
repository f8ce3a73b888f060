import Lorie.Lib.Custody
import Lorie.Managers.Settings

/-!
# The settings manager and the window manager

`density.c` and the part of `window_model.c` that stands in for a window manager, in one generation of the X server. Each owns a
selection with a window of its own, publishes properties, and gives way to a client that takes the selection. The server
calls both callbacks for every change of a selection; `selectionChanged` was added last and is called first.

The windows, the selections and the properties are those of the X server, as far as they are read here. The environment answers
for memory and access, and gives the numbers of new windows. The texts of atoms stand for themselves up to their numbers.

History: `made` and `freed`, the windows of the two managers, with who made them; `announced`, the `MANAGER` messages.
-/

namespace Lorie.Managers

open Lorie.Lib Lorie.Lib.XSettings
open Lorie.DataExchange.Targets (ascii)

/-- `_XSETTINGS_S0` and `WM_S0` -/
inductive SelectionName where
  | settings
  | manager
  deriving DecidableEq, Repr

/-- `SelectionSetOwner`, `SelectionWindowDestroy` and `SelectionClientClose` -/
inductive Kind where
  | setOwner
  | windowDestroy
  | clientClose
  deriving DecidableEq, Repr

/-- `Selection`; client 0 is the server. -/
structure Selection where
  window : Option Nat := none
  client : Option Nat := none
  deriving DecidableEq, Repr

inductive PropertyName where
  | resourceManager | xsettings | supportingWmCheck | netSupported | netWmName
  /-- Any other name -/
  | other (n : Nat)
  deriving DecidableEq, Repr

inductive PropertyType where
  | string | window | atom | xsettings | utf8String
  /-- Any other type -/
  | other (n : Nat)
  deriving DecidableEq, Repr

/-- The values of a property: of format 8, 16 or 32. -/
inductive PropertyData where
  | bytes (data : List UInt8)
  | shorts (data : List Nat)
  | words (data : List Nat)
  deriving DecidableEq, Repr

structure Property where
  type : PropertyType
  data : PropertyData
  deriving DecidableEq, Repr

structure State where
  /-- The numbers of the atoms -/
  atom : String → Nat
  root : Nat
  /-- The windows that exist, besides the root -/
  windows : List Nat
  selections : SelectionName → Option Selection
  /-- The properties of the root (`none`) and of the windows -/
  properties : Option Nat → PropertyName → Option Property
  -- `density.c`
  monitorResolution : Int
  settingsWindow : Option Nat := none
  serial : UInt32 := 0
  colorScheme : Int := 0
  resources : List UInt8 := []
  /-- `selectionChanged` was added. -/
  observing : Bool := false
  -- `window_model.c`
  managerWindow : Option Nat := none
  /-- `ddxReady` ran. -/
  ready : Bool := false
  made : List (SelectionName × Nat) := []
  freed : List Nat := []
  announced : List (SelectionName × Nat) := []

/-- `FreeResource` of a window -/
abbrev FreeResource := State → Nat → State

namespace State

variable (free : FreeResource) (s : State)

def owner (name : SelectionName) : Option Nat := (s.selections name).bind Selection.window

def client (name : SelectionName) : Option Nat := (s.selections name).bind Selection.client

def setSelection (name : SelectionName) (selection : Selection) : State :=
  { s with selections := Function.update s.selections name (some selection) }

def setProperty (window : Option Nat) (name : PropertyName) (value : Option Property) : State :=
  { s with properties := Function.update s.properties window (Function.update (s.properties window) name value) }

/-- `dixChangeWindowProperty`, which may fail. -/
def changeProperty (success : Bool) (window : Option Nat) (name : PropertyName) (value : Property) : State :=
  if success then s.setProperty window name (some value) else s

/-- `reference` of the root -/
def reference (name : PropertyName) : Option Nat :=
  match s.properties none name with
  | some ⟨.window, .words [id]⟩ => some id
  | _ => none

/-! ## The callbacks -/

/-- `selectionChanged` of `density.c` -/
def selectionChanged (name : SelectionName) (kind : Kind) : State :=
  match s.settingsWindow with
  | none => s
  | some window =>
    if name ≠ .settings then s
    else if kind = .setOwner ∧ s.owner name ≠ some window then
      free { s with settingsWindow := none, freed := window :: s.freed } window
    else if kind = .windowDestroy then { s with settingsWindow := none }
    else s

/-- The root properties of the manager go, unless another manager replaced them. -/
def removeProperties (old : Nat) : State :=
  if s.reference .supportingWmCheck = some old then
    (s.setProperty none .supportingWmCheck none).setProperty none .netSupported none
  else s

/-- `managerChanged` -/
def managerChanged (name : SelectionName) (kind : Kind) : State :=
  match s.managerWindow with
  | none => s
  | some old =>
    if name ≠ .manager then s
    else if kind = .windowDestroy then { s with managerWindow := none }.removeProperties old
    else if kind = .setOwner ∧ s.owner name ≠ some old then
      let s := { s with managerWindow := none }.removeProperties old
      free { s with freed := old :: s.freed } old
    else s

/-- `SelectionCallback` -/
def callbacks (name : SelectionName) (kind : Kind) : State :=
  (if s.observing then s.selectionChanged free name kind else s).managerChanged free name kind

/-- A selection loses its owner, behind the callbacks. -/
def loseOwner (s : State) (kind : Kind) (name : SelectionName) : State := (s.callbacks free name kind).setSelection name {}

/-- One round of `DeleteWindowFromAnySelections` -/
def loseWindow (w : Nat) (s : State) (name : SelectionName) : State :=
  if s.owner name = some w then s.loseOwner free .windowDestroy name else s

def removeWindow (w : Nat) : State := { s with windows := s.windows.filter (· ≠ w) }

def removeAllProperties (w : Nat) : State := { s with properties := Function.update s.properties (some w) fun _ => none }

end State

/-- `FreeResource` of a window, with `DeleteWindowFromAnySelections` -/
def free : Nat → FreeResource
  | 0, s, _ => s
  | n + 1, s, w =>
    if w ∈ s.windows then
      ([SelectionName.settings, .manager].foldl (State.loseWindow (free n) w) (s.removeWindow w)).removeAllProperties w
    else s

/-- `FreeResource` with as much room as there are windows -/
def freeResource : FreeResource := fun s w => free s.windows.length s w

/-! ## The settings -/

/-- `"Xft.dpi: %d\n"` -/
def resourceText (dpi : Int) : List UInt8 := ascii ("Xft.dpi: " ++ toString dpi ++ "\n")

/-- The bytes of the property; the buffer is not initialized. -/
def settingsBytes (dpi : Int) (serial : UInt32) (scheme : Int) : List UInt8 :=
  ((lorieDensitySettings (List.replicate densitySettingsSize 0) dpi serial scheme).map fun r => r.1.take r.2).getD []

/-- Whether the two changes of `publish` succeed -/
structure PublishAnswers where
  resources : Bool
  settings : Bool
  deriving DecidableEq, Repr

namespace State

variable (s : State)

/-- There is no resource database, or it is the one that was published last. -/
def resourcesOurs : Bool :=
  match s.properties none .resourceManager with
  | none => true
  | some previous => previous = ⟨.string, .bytes s.resources⟩

/-- The first part of `publish` -/
def publishResources (success : Bool) : State :=
  if s.resourcesOurs then
    let s := { s with resources := resourceText s.monitorResolution }
    s.changeProperty success none .resourceManager ⟨.string, .bytes s.resources⟩
  else s

/-- The second part of `publish` -/
def publishSettings (success : Bool) : State :=
  match s.settingsWindow with
  | none => s
  | some owner =>
    if owner ∈ s.windows then
      let s := { s with serial := s.serial + 1 }
      s.changeProperty success (some owner) .xsettings
        ⟨.xsettings, .bytes (settingsBytes s.monitorResolution s.serial s.colorScheme)⟩
    else s

/-- `publish` -/
def publish (a : PublishAnswers) : State := (s.publishResources a.resources).publishSettings a.settings

/-! ## The start -/

/-- What the X server answers while a manager takes its selection: the record is made, its owner may be set, and the window is
made. -/
structure ClaimAnswers where
  record : Bool
  access : Bool
  window : Option Nat
  deriving DecidableEq, Repr

/-- The window of a manager, with the selection in its record. -/
def own (name : SelectionName) (window : Option Nat) : State × Option Nat :=
  match window with
  | none => (s, none)
  | some w =>
    ({ s.setSelection name { window := some w, client := some 0 } with windows := w :: s.windows, made := (name, w) :: s.made },
      some w)

/-- The steps of `lorieDensityInit` and `lorieWindowManagerReady` up to the owner of the selection -/
def claim (name : SelectionName) (a : ClaimAnswers) : State × Option Nat :=
  match s.selections name with
  | none => if a.record then (s.setSelection name {}).own name a.window else (s, none)
  | some selection => if a.access = false ∨ selection.window ≠ none then (s, none) else s.own name a.window

/-- The `MANAGER` message -/
def announce (name : SelectionName) (window : Nat) : State := { s with announced := (name, window) :: s.announced }

/-- The environment variables `MAGICDESK_COLOR_SCHEME`, `MAGICDESK_X11_XSETTINGS` and `MAGICDESK_X11_HOST_WM` -/
structure Environment where
  scheme : Option String
  settings : Option String
  manager : Option String
  deriving DecidableEq, Repr

structure ReadyAnswers where
  settings : ClaimAnswers
  publish : PublishAnswers
  manager : ClaimAnswers
  /-- The changes of the two properties of the root, and of the two of the window -/
  changes : Fin 4 → Bool

/-- The settings window is made and owns the selection. -/
def claimSettings (a : ClaimAnswers) : State :=
  match s.claim .settings a with
  | (s, none) => s
  | (s, some w) => { s with settingsWindow := some w, observing := true }.callbacks freeResource .settings .setOwner

/-- The variables of `density.c` at the start -/
def startDensity (env : Environment) : State :=
  { s with
    settingsWindow := none
    serial := 0
    colorScheme := if env.scheme = some "1" then 1 else if env.scheme = some "2" then 2 else 0
    resources := [] }

/-- The `MANAGER` message of the settings window -/
def announceSettings : State :=
  match s.settingsWindow with
  | none => s
  | some w => s.announce .settings w

/-- `lorieDensityInit` -/
def lorieDensityInit (env : Environment) (a : ReadyAnswers) : State :=
  let s := s.startDensity env
  let s := if env.settings = some "1" then s.claimSettings a.settings else s
  (s.publish a.publish).announceSettings

/-- `_NET_SUPPORTED` -/
def supported : List String :=
  ["_NET_SUPPORTING_WM_CHECK", "_NET_WM_STATE", "_NET_WM_STATE_FULLSCREEN", "_NET_WM_STATE_MAXIMIZED_HORZ",
    "_NET_WM_STATE_MAXIMIZED_VERT", "_NET_WM_MOVERESIZE", "_NET_ACTIVE_WINDOW", "_NET_WM_STATE_DEMANDS_ATTENTION",
    "_NET_WM_STATE_HIDDEN"]

/-- What the manager publishes -/
def publishManager (w : Nat) (changes : Fin 4 → Bool) : State :=
  (((s.changeProperty (changes 0) none .supportingWmCheck ⟨.window, .words [w]⟩).changeProperty (changes 1) (some w)
    .supportingWmCheck ⟨.window, .words [w]⟩).changeProperty (changes 2) (some w) .netWmName
    ⟨.utf8String, .bytes (ascii "MagicDesk")⟩).changeProperty (changes 3) none .netSupported
    ⟨.atom, .words (supported.map s.atom)⟩

/-- `lorieWindowManagerReady` -/
def lorieWindowManagerReady (env : Environment) (a : ReadyAnswers) : State :=
  if env.manager ≠ some "1" then s
  else
    match s.claim .manager a.manager with
    | (s, none) => s
    | (s, some w) =>
      (({ s with managerWindow := some w }.callbacks freeResource .manager .setOwner).publishManager w a.changes).announce
        .manager w

/-- `ddxReady` -/
def ddxReady (env : Environment) (a : ReadyAnswers) : State :=
  { (s.lorieDensityInit env a).lorieWindowManagerReady env a with ready := true }

/-- `lorieWindowManagerExternal` -/
def lorieWindowManagerExternal : Bool := (s.owner .manager).isSome && s.owner .manager ≠ s.managerWindow

/-! ## Commands of the host -/

/-- `lorieSetDpi`, while there is a screen -/
def lorieSetDpi (dpi : Int) (a : PublishAnswers) : State :=
  if dpi < 24 ∨ dpi > 1536 ∨ dpi = s.monitorResolution then s else { s with monitorResolution := dpi }.publish a

/-- `lorieSetColorScheme`, while there is a screen -/
def lorieSetColorScheme (value : Int) (a : PublishAnswers) : State :=
  if value < 0 ∨ value > 2 ∨ s.colorScheme = value then s else { s with colorScheme := value }.publish a

end State

/-! ## Steps -/

inductive Action where
  | createWindow (w : Nat)
  | destroyWindow (w : Nat)
  /-- `SetSelectionOwner` of a client -/
  | setSelectionOwner (name : SelectionName) (window : Option Nat) (client : Nat)
  /-- A client goes (`DeleteClientFromAnySelections`). -/
  | closeClient (client : Nat)
  /-- A client changes or deletes a property. -/
  | changeProperty (window : Option Nat) (name : PropertyName) (value : Option Property)
  | ready (env : State.Environment) (a : State.ReadyAnswers)
  | setDpi (dpi : Int) (a : PublishAnswers)
  | setColorScheme (value : Int) (a : PublishAnswers)

/-- The windows that a manager made -/
def State.madeWindows (s : State) : List Nat := s.made.map Prod.snd

/-- `FakeClientID` gives numbers that were not used. -/
def State.Fresh (s : State) (a : State.ReadyAnswers) : Prop :=
  (∀ w ∈ a.settings.window, w ≠ s.root ∧ w ∉ s.windows ∧ w ∉ s.madeWindows ∧ a.manager.window ≠ some w) ∧
    ∀ w ∈ a.manager.window, w ≠ s.root ∧ w ∉ s.windows ∧ w ∉ s.madeWindows

instance (s : State) (a : State.ReadyAnswers) : Decidable (s.Fresh a) := by
  unfold State.Fresh
  infer_instance

/-- Clients do not make windows with the server's numbers. -/
def step (s : State) : Action → Option State
  | .createWindow w => if w ≠ s.root ∧ w ∉ s.windows ∧ w ∉ s.madeWindows then some { s with windows := w :: s.windows } else none
  | .destroyWindow w => if w ∈ s.windows then some (freeResource s w) else none
  | .setSelectionOwner name window client =>
    if client ≠ 0 ∧ ∀ w ∈ window, w = s.root ∨ w ∈ s.windows then
      some ((s.setSelection name { window, client := window.map fun _ => client }).callbacks freeResource name .setOwner)
    else none
  | .closeClient client =>
    if client ≠ 0 then
      some ([SelectionName.settings, .manager].foldl
        (fun s name => if s.client name = some client then s.loseOwner freeResource .clientClose name else s) s)
    else none
  | .changeProperty window name value =>
    if ∀ w ∈ window, w ∈ s.windows then some (s.setProperty window name value) else none
  | .ready env a => if s.ready = false ∧ s.Fresh a then some (s.ddxReady env a) else none
  | .setDpi dpi a => if s.ready then some (s.lorieSetDpi dpi a) else none
  | .setColorScheme value a => if s.ready then some (s.lorieSetColorScheme value a) else none

/-- The screen before `ddxReady` -/
def State.start (atom : String → Nat) (root : Nat) (monitorResolution : Int) : State where
  atom := atom
  root := root
  windows := []
  selections _ := none
  properties _ _ := none
  monitorResolution := monitorResolution

end Lorie.Managers
