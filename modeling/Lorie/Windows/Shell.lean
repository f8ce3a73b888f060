import Lorie.Lib.Mirror
import Lorie.Windows.FamilyGeometry
import Mathlib.Algebra.Group.Int.Defs

/-!
# Shell surfaces

A host that was admitted as the owner hears of the docks and desktops of the screen (`window_shell.c`). The catalog has a
record for each that was mapped while it was known, and `lorieShellRefresh` sends what changed since the last refresh.

- `role`, `shellInfo`: what the catalog says about a window;
- `lorieShellConfigure`, `lorieShellReset`, `lorieShellRefresh`: the functions of the source.
-/

namespace Lorie.Windows.Shell

open Lorie.Lib Outputs

/-! ## Windows -/

/-- `LORIE_SHELL_DESKTOP` -/
def shellDesktop : Nat := 1

/-- `LORIE_SHELL_DOCK` -/
def shellDock : Nat := 2

/-- Records are not added to this many. -/
def recordLimit : Nat := 32

/-- What the shell reads from the X server. -/
structure Screen (R : Type) where
  desktop : Desktop
  regions : Regions R
  /-- `pScreenPtr->width` -/
  width : Int
  /-- `pScreenPtr->height` -/
  height : Int
  /-- The property `_NET_WM_STRUT_PARTIAL` of a window -/
  netWmStrutPartial : Nat → Option Property
  /-- The property `_NET_WM_STRUT` of a window -/
  netWmStrut : Nat → Option Property
  /-- The window of the selection `WM_S0`, when there is this selection. -/
  selection : Option Nat

/-- `LorieShellInfo`; `inputCount` is the length of `input`. -/
structure LorieShellInfo where
  role : Nat
  mapped : Bool
  inputComplete : Bool
  x : Int
  y : Int
  width : Int
  height : Int
  paint : ShellRect
  strut : Vector Nat 12
  input : List ShellRect
  deriving DecidableEq, Repr

namespace Screen

variable {R : Type} (s : Screen R)

/-- `lorieWindowManagerExternal` -/
def lorieWindowManagerExternal : Bool :=
  match s.selection with
  | some window => window ≠ 0 && s.desktop.managerWindow ≠ some window
  | none => false

/-- The loop of `role` over the types of a window -/
def roleOf : List Nat → Nat
  | [] => 0
  | type :: types =>
    if type = s.desktop.atom .typeDock then shellDock
    else if type = s.desktop.atom .typeDesktop then shellDesktop
    else roleOf types

/-- `role` -/
def role (w : Nat) : Nat :=
  let window := s.desktop.heap w
  match property window.toWindow .netWmWindowType with
  | some type =>
    if !window.inputOutput ∨ window.overrideRedirect ∨ type.format ≠ 32 ∨ type.type ≠ s.desktop.atom .atom then 0
    else s.roleOf type.data
  | none => 0

/-- A value of 32 bits for each of `n` places -/
def Words (s : Screen R) (n : Nat) (p : Property) : Prop :=
  p.type = s.desktop.atom .cardinal ∧ p.format = 32 ∧ p.data.length = n

instance (n : Nat) (p : Property) : Decidable (s.Words n p) := inferInstanceAs (Decidable (_ ∧ _ ∧ _))

/-- The last place of a side of the screen, as a `uint32_t` -/
def last (length : Int) : Nat := ((length - 1) % 2 ^ 32).toNat

/-- `_NET_WM_STRUT` along the whole sides of the screen -/
def wholeStrut (w : Nat) : Vector Nat 12 :=
  match s.netWmStrut w with
  | some strut =>
    if h : s.Words 4 strut then
      let sides := [0, last s.height, 0, last s.height, 0, last s.width, 0, last s.width]
      ⟨(strut.data ++ sides).toArray, by rw [List.size_toArray, List.length_append, h.2.2]; rfl⟩
    else Vector.replicate 12 0
  | none => Vector.replicate 12 0

/-- `info.strut` -/
def strut (w : Nat) : Vector Nat 12 :=
  match s.netWmStrutPartial w with
  | some strutPartial =>
    if h : s.Words 12 strutPartial then ⟨strutPartial.data.toArray, by rw [List.size_toArray, h.2.2]⟩ else s.wholeStrut w
  | none => s.wholeStrut w

/-- The `info` of `publish` -/
def shellInfo (w : Nat) : LorieShellInfo :=
  let window := s.desktop.heap w
  let info : LorieShellInfo :=
    { role := s.role w
      mapped := window.realized
      inputComplete := true
      x := window.x
      y := window.y
      width := window.width
      height := window.height
      paint := ⟨0, 0, window.width, window.height⟩
      strut := s.strut w
      input := [] }
  if window.realized then
    let geometry := lorieWindowFamilyGeometry s.regions s.desktop w false
    { info with paint := geometry.paint, inputComplete := geometry.inputComplete, input := geometry.input }
  else info

end Screen

/-! ## The catalog -/

structure ShellRecord where
  window : Nat
  seen : Bool
  info : LorieShellInfo
  deriving DecidableEq, Repr

/-- What is sent to the host. -/
inductive Event where
  /-- `EVENT_SHELL_STATE` -/
  | state (owner : Nat) (available : Bool)
  /-- `EVENT_OUTPUT_SHELL`, without an info when the record is removed -/
  | shell (owner window : Nat) (info : Option LorieShellInfo)
  /-- `EVENT_OUTPUT_WINDOWS_DONE` -/
  | windowsDone
  deriving DecidableEq, Repr

structure State (R : Type) where
  screen : Screen R
  records : List ShellRecord
  /-- The host that was admitted, and 0 without one. -/
  owner : Nat
  dirty : Bool
  /-- History: what was sent. -/
  sent : List Event
  /-- History: how much was sent before the owner was admitted. -/
  admitted : Nat

namespace State

variable {R : Type}

def init (screen : Screen R) : State R := ⟨screen, [], 0, false, [], 0⟩

variable (s : State R)

def send (e : Event) : State R := { s with sent := s.sent ++ [e] }

/-- `state` -/
def state (id : Nat) (available : Bool) : State R := s.send (.state id available)

/-- `lorieShellReset` -/
def lorieShellReset : State R := { s with records := [], owner := 0, dirty := false }

/-- `lorieShellGeometryChanged` -/
def lorieShellGeometryChanged : State R := if s.owner ≠ 0 then { s with dirty := true } else s

/-- The record of a window -/
def record (w : Nat) : Option ShellRecord := s.records.find? fun r => r.window = w

/-- `lorieShellWindow` -/
def lorieShellWindow (w : Nat) : Bool :=
  if s.owner = 0 ∨ s.screen.lorieWindowManagerExternal then false else (s.record w).isSome

/-- `lorieShellConfigure`; `screen` is what `lorieConfigureNotify` makes of the screen. -/
def lorieShellConfigure (id : Nat) (width height : Int) (screen : Screen R) : State R :=
  if id = 0 then s
  else if s.owner ≠ 0 ∧ s.owner ≠ id then s.state id false
  else if width = 0 ∧ height = 0 then s.lorieShellReset.state id false
  else if width < 1 ∨ height < 1 ∨ width > 16384 ∨ height > 16384 ∨ s.screen.lorieWindowManagerExternal then
    (if s.owner = id then s.lorieShellReset else s).state id false
  else
    let admitted := if s.owner = 0 then s.sent.length else s.admitted
    { s with owner := id, dirty := true, screen := screen, admitted := admitted }.state id true

/-- `publish` -/
def publish (calloc : Bool) (w : Nat) : State R :=
  if s.screen.role w = 0 then s
  else
    let info := s.screen.shellInfo w
    match s.record w with
    | none =>
      if !(s.screen.desktop.heap w).realized ∨ s.records.length ≥ recordLimit ∨ !calloc then s
      else { s with records := ⟨w, true, info⟩ :: s.records }.send (.shell s.owner w (some info))
    | some record =>
      let t := { s with records := amend ShellRecord.window w (fun r => { r with seen := true, info := info }) s.records }
      if record.info ≠ info then t.send (.shell s.owner w (some info)) else t

/-- `walk` over the children of a node; `calloc` says for which windows there is memory. -/
def walk (calloc : Nat → Bool) : Forest → State R → State R
  | .nil, s => s
  | .node child lastChild prevSib, s => walk calloc prevSib (walk calloc lastChild (s.publish (calloc child) child))

/-- The last loop of `lorieShellRefresh`: the records that were not seen go. -/
def removeUnseen : State R :=
  { s with
    sent := s.sent ++ (s.records.filter fun r => !r.seen).map fun r => .shell s.owner r.window none
    records := s.records.filter fun r => r.seen }

/-- `lorieShellRefresh` -/
def lorieShellRefresh (calloc : Nat → Bool) : State R :=
  if s.owner = 0 ∨ !s.dirty then s
  else
    let s : State R := { s with dirty := false }
    if s.screen.lorieWindowManagerExternal then s.lorieShellReset.state s.owner false
    else
      let s : State R := { s with records := s.records.map fun r => { r with seen := false } }
      (walk calloc s.screen.desktop.lastChild s).removeUnseen.send .windowsDone

end State

/-! ## Runs -/

inductive Action (R : Type) where
  | lorieShellConfigure (id : Nat) (width height : Int) (screen : Screen R)
  /-- Windows, their properties or the owner of `WM_S0` change, and the hooks call `lorieShellGeometryChanged`. -/
  | change (screen : Screen R)
  | lorieShellReset
  | lorieShellRefresh (calloc : Nat → Bool)

namespace State

variable {R : Type} (s : State R)

def step : Action R → Option (State R)
  | .lorieShellConfigure id width height screen => some (s.lorieShellConfigure id width height screen)
  | .change screen => some { s.lorieShellGeometryChanged with screen := screen }
  | .lorieShellReset => some s.lorieShellReset
  | .lorieShellRefresh calloc => some (s.lorieShellRefresh calloc)

end State

/-! ## The host -/

namespace Event

/-- What an event tells the owner about the catalog. -/
def told (owner : Nat) : Event → Option (Nat × Option LorieShellInfo)
  | .shell id window info => if id = owner then some (window, info) else none
  | .state _ _ | .windowsDone => none

/-- Nobody but the owner is named, except to be refused. -/
def Names (owner : Nat) : Event → Prop
  | .state id available => available = true → id = owner
  | .shell id _ _ => id = owner
  | .windowsDone => True

end Event

namespace State

variable {R : Type} (s : State R)

/-- What was sent since the owner was admitted. -/
def since : List Event := s.sent.drop s.admitted

/-- The `OUTPUT_SHELL` events of the owner since it was admitted. -/
def told : List (Nat × Option LorieShellInfo) := s.since.filterMap (Event.told s.owner)

/-- The catalog on the host of the owner. -/
def catalog : Nat → Option LorieShellInfo := replay s.told

/-- The windows with a role -/
def surfaces : List Nat := s.screen.desktop.lastChild.windows.filter fun w => s.screen.role w ≠ 0

end State

end Lorie.Windows.Shell
