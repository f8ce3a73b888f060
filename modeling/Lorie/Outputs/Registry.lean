import Lorie.Outputs.DirectInput

/-!
# The registry of outputs

All of `window_outputs.c` that decides which outputs exist, which are dead, what they borrow and what they hold: the
selections with their keys and buttons, the touch contacts and tablets of `direct_input.c`, the windows that exist, and
the work queue through which the commands of the host and the changes of its connection come to the X thread.

The destruction of a window calls `lorieOutputWindowDestroyed`; its number may be used again. The environment answers for
shell windows and memory, and says which export ends with a connection.

History: `sizes`, the valid `LORIE_OUTPUT_RESIZE` of the selections, and `lost`, that the work of a lost connection has run
and no new connection came.
-/

namespace Lorie.Outputs.Registry

open Lorie.Lib Leases

/-! ## The state -/

/-- What is queued with `QueueWorkProc`. -/
inductive Work where
  | command (c : Command) (e : DirectInput.Command)
  /-- Of `X_NOTIFY_ERROR`, with its generation. -/
  | lost (generation : Nat)
  /-- Of `lorieServerConnect`. -/
  | connect
  deriving DecidableEq

/-- History of the sizes. -/
structure Sizes where
  /-- The selection received a valid resize. -/
  received : Nat → Bool := fun _ => false
  /-- The selection of a window that received the last one, while it is bound. -/
  last : Nat → Option Nat := fun _ => none

/-- A selection goes. -/
def Sizes.forget (z : Sizes) (o : Nat) : Sizes where
  received := Function.update z.received o false
  last := fun w => if z.last w = some o then none else z.last w

/-- A selection of a window received a valid resize. -/
def Sizes.resize (z : Sizes) (o window : Nat) : Sizes where
  received := Function.update z.received o true
  last := Function.update z.last window (some o)

structure State where
  leases : Leases.State
  direct : DirectInput.State
  /-- `seen` -/
  seen : Nat → Bool
  /-- The windows that exist. -/
  windows : List Nat
  /-- `conn_fd != -1` -/
  connected : Bool
  dataConnection : Nat
  work : List Work
  sizes : Sizes
  lost : Bool

/-- What the environment answers to a command. -/
structure Env where
  /-- `pScreenPtr && pScreenPtr->root`, and whether the screen has a size -/
  screen : Bool
  sized : Bool
  /-- `lorieShellWindow` -/
  shellWindow : Nat → Bool
  /-- `calloc` -/
  calloc : Option Nat
  typing : Leases.Typing

namespace State

def init : State where
  leases := .init
  direct := .init
  seen := fun _ => false
  windows := []
  connected := false
  dataConnection := 0
  work := []
  sizes := {}
  lost := false

variable (s : State)

/-- The selection at a node. -/
def node (o : Nat) : OutputSelection := s.leases.heap o

/-- `dixLookupWindow` -/
def hasWindow (window : Nat) : Bool := s.windows.contains window

/-! ## Commands -/

/-- What the selections see of the environment. -/
def leasesEnv (env : Env) : Leases.Env := ⟨env.screen, env.shellWindow, s.hasWindow, env.calloc, env.typing⟩

/-- The selection of a command. -/
def found? (id : Nat) : Option Nat := s.leases.selections.find? fun o => (s.node o).id = id

/-- `lorieOutputPoint` -/
def lorieOutputPoint (id xid : Nat) : Bool :=
  (s.leases.selections.any fun o => (s.node o).id = id && (s.node o).window = xid && !(s.node o).dead) &&
    (xid = 0 || s.hasWindow xid)

/-- The direct input of a command for a selection that is bound to its window. -/
def operateDirect (c : Command) (e : DirectInput.Command) (env : Env) (output : OutputSelection) : DirectInput.State :=
  if output.shell ∧ !env.shellWindow output.window then s.direct.lorieDirectInputRelease output.id
  else
    match c.operation with
    | .viewport | .resize => s.direct
    | operation =>
      if output.window ≠ 0 ∧ !s.hasWindow output.window then s.direct
      else
        match operation with
        | .blur | .cancelContacts => s.direct.lorieDirectInputRelease output.id
        | .touch | .tablet =>
          if s.lorieOutputPoint output.id output.window then
            s.direct.lorieDirectInput output.id { e with operation := operation } env.sized
          else s.direct
        | _ => s.direct

/-- The direct input of `lorieOutputCommand` -/
def commandDirect (c : Command) (e : DirectInput.Command) (env : Env) : DirectInput.State :=
  match s.found? c.output with
  | none => s.direct
  | some o =>
    match c.operation with
    | .release | .bind => s.direct.lorieDirectInputRelease (s.node o).id
    | _ =>
      if (s.node o).dead ∨ (s.node o).window ≠ c.window then s.direct
      else s.operateDirect c e env (s.node o)

/-- A command for a selection. -/
def Command.selects (c : Command) (env : Env) : Bool :=
  match c.operation with
  | .shell | .observe | .inspect | .dpi | .colorScheme | .close | .fullscreenConfirm | .maximizedConfirm
  | .interactionConfirm => false
  | _ => env.screen && c.output ≠ 0

/-- A `LORIE_OUTPUT_RESIZE` that the selection takes. -/
def resizes (c : Command) (env : Env) (o : Nat) : Bool :=
  !(s.node o).dead && (s.node o).window = c.window && !((s.node o).shell && !env.shellWindow (s.node o).window) &&
    c.operation = .resize && !(s.node o).borrowed && 1 ≤ c.x && 1 ≤ c.y && c.x ≤ windowSizeLimit && c.y ≤ windowSizeLimit

/-- History of a command -/
def commandSizes (c : Command) (env : Env) : Sizes :=
  match s.found? c.output with
  | none => s.sizes
  | some o =>
    match c.operation with
    | .release | .bind => s.sizes.forget o
    | _ => if s.resizes c env o then s.sizes.resize o (s.node o).window else s.sizes

/-- A new selection was not seen. -/
def commandSeen (c : Command) (env : Env) : Nat → Bool :=
  match c.operation, env.calloc with
  | .bind, some o => Function.update s.seen o false
  | _, _ => s.seen

/-- `lorieOutputCommand` -/
def lorieOutputCommand (c : Command) (e : DirectInput.Command) (env : Env) : State :=
  if Command.selects c env then
    { s with
      leases := s.leases.lorieOutputCommand c (s.leasesEnv env)
      direct := s.commandDirect c e env
      seen := s.commandSeen c env
      sizes := s.commandSizes c env }
  else s

/-! ## Other operations -/

/-- `lorieDirectInputRelease` in `releaseInput` of some selections -/
def releaseDirect (os : List Nat) : DirectInput.State :=
  os.foldl (fun d o => d.lorieDirectInputRelease (s.node o).id) s.direct

/-- `lorieReleaseOutputButton` -/
def lorieReleaseOutputButton (id window button : Nat) : State :=
  { s with
    leases := s.leases.lorieReleaseOutputButton id window button
    direct :=
      if button = 1 ∧ s.leases.selections.any fun o => (s.node o).id = id && (s.node o).window = window then
        s.direct.lorieDirectInputRelease id
      else s.direct }

/-- `lorieReleaseOutputInput` -/
def lorieReleaseOutputInput : State :=
  { s with leases := s.leases.lorieReleaseOutputInput, direct := s.releaseDirect s.leases.selections }

/-- A window is destroyed, with `lorieOutputWindowDestroyed`. -/
def destroyWindow (w : Nat) : State :=
  { s with
    windows := s.windows.erase w
    leases := s.leases.lorieOutputWindowDestroyed w
    direct := s.releaseDirect (s.leases.selections.filter fun o => (s.node o).window = w) }

/-- `lorieResetOutputs` -/
def lorieResetOutputs : State :=
  { s with
    leases := s.leases.lorieResetOutputs
    direct := s.releaseDirect s.leases.selections
    sizes := s.leases.selections.foldl Sizes.forget s.sizes }

/-- The window of a selection is there. -/
def present (o : Nat) : Bool := (s.node o).window = 0 || s.hasWindow (s.node o).window

/-- `loriePublishOutputs`, as far as it says which outputs are seen and which are dead -/
def loriePublishOutputs : State :=
  { s with
    seen := fun o => s.seen o || (s.leases.selections.contains o && !(s.node o).dead && s.present o)
    leases := { s.leases with
      heap := fun o =>
        if o ∈ s.leases.selections ∧ (s.node o).dead = false ∧ s.present o = false ∧ s.seen o = true then
          { s.node o with dead := true }
        else s.node o } }

/-- The end of an export in `lorieDataReset` -/
def endExport (exported : Option (Nat × Nat)) : State :=
  match exported with
  | some (id, window) => s.lorieReleaseOutputButton id window 1
  | none => s

/-- One item of the work queue -/
def perform (w : Work) (env : Env) (exported : Option (Nat × Nat)) : State :=
  match w with
  | .command c e => s.lorieOutputCommand c e env
  | .lost generation =>
    if generation = s.dataConnection then { s.endExport exported with lost := true } else s
  | .connect =>
    { (s.endExport exported).lorieResetOutputs with
      connected := true, dataConnection := s.dataConnection + 1, lost := false }

end State

/-! ## Steps -/

inductive Action where
  | createWindow (w : Nat)
  | destroyWindow (w : Nat)
  /-- `lorieServerConnect` -/
  | serverConnect
  /-- An `EVENT_OUTPUT_COMMAND` of the host -/
  | receive (c : Command) (e : DirectInput.Command)
  /-- `X_NOTIFY_ERROR` -/
  | error
  /-- The next work item, and the export that it ends, if there is one -/
  | work (env : Env) (exported : Option (Nat × Nat))
  /-- `lorieReleaseOutputButton`, at the end of an export -/
  | releaseButton (id window button : Nat)
  | publish
  /-- `lorieReleaseOutputInput`, when the input devices go -/
  | closeInput
  /-- `lorieResetOutputs`, when the screen goes -/
  | closeScreen

/-- One operation. Memory that `calloc` returns is not in use. -/
def step (s : State) : Action → Option State
  | .createWindow w => if w ≠ 0 ∧ w ∉ s.windows then some { s with windows := w :: s.windows } else none
  | .destroyWindow w => if w ∈ s.windows then some (s.destroyWindow w) else none
  | .serverConnect => some { s with work := s.work ++ [.connect] }
  | .receive c e => if s.connected then some { s with work := s.work ++ [.command c e] } else none
  | .error =>
    if s.connected then
      some { s with
        connected := false
        dataConnection := s.dataConnection + 1
        work := s.work ++ [.lost (s.dataConnection + 1)] }
    else none
  | .work env exported =>
    match s.work with
    | [] => none
    | w :: ws =>
      if ∀ o ∈ env.calloc, o ∉ s.leases.selections then some ({ s with work := ws }.perform w env exported) else none
  | .releaseButton id window button => some (s.lorieReleaseOutputButton id window button)
  | .publish => some s.loriePublishOutputs
  | .closeInput => some s.lorieReleaseOutputInput
  | .closeScreen => some s.lorieResetOutputs

end Lorie.Outputs.Registry
