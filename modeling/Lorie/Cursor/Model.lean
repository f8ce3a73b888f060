import Lorie.Connection.Wire
import Lorie.Cursor.Image
import Lorie.Lib.Paint
import Lorie.Outputs.WellFormed
import Lorie.Windows.SizeHints

/-!
# The cursor

`cursor.c`: the cursor that X shows, the output that it is shown on, and the event that tells the host. An output is selected
when the pointer or a contact is on it, and it is given up where `window_outputs.c` releases a selection.

The registry of the outputs is the one of `Lorie.Outputs.Registry`, with the calls into `cursor.c` beside its operations. The
X server answers for what is behind a cursor, for `GetMaster` and `poll`, and for what a write to the connection does.

History: `current`, the cursor that was set last, and `sent`, what was written to the connection of now.
-/

namespace Lorie.Cursor

open Lib (write)
open Connection (Bytes Sent eventOf little)
open Outputs
open Outputs.Leases (Command OutputSelection)
open Windows.SizeHints (Memory)

/-! ## Cursors of X -/

/-- `CursorBits` -/
structure CursorBits where
  width : Nat
  height : Nat
  xhot : Nat
  yhot : Nat
  emptyMask : Bool
  argb : Option Memory
  source : Nat → Option (BitVec 8)
  mask : Nat → Option (BitVec 8)

/-- `CursorRec` -/
structure CursorRec where
  bits : Option CursorBits
  foreRed : BitVec 16
  foreGreen : BitVec 16
  foreBlue : BitVec 16
  backRed : BitVec 16
  backGreen : BitVec 16
  backBlue : BitVec 16

/-- `BitmapBytePad` -/
def bitmapBytePad (width : Nat) : Nat := (width + 31) / 32 * 4

/-- The bit of a column, with `BITMAP_BIT_ORDER == MSBFirst` or not -/
def columnBit (msbFirst : Bool) (x : Nat) : BitVec 8 := if msbFirst then 0x80#8 >>> (x % 8) else 1#8 <<< (x % 8)

/-- `foreground` or `background` -/
def rgb (red green blue : BitVec 16) : BitVec 32 :=
  ((red.setWidth 32 &&& 0xff00#32) <<< 8) ||| (green.setWidth 32 &&& 0xff00#32) ||| (blue.setWidth 32 >>> 8)

def CursorBits.info (bits : CursorBits) : LorieCursorInfo := ⟨.image, bits.width, bits.height, bits.xhot, bits.yhot⟩

/-! ## The variables of `cursor.c` -/

structure Variables where
  cursorInfo : LorieCursorInfo := { kind := .default }
  cursorPixels : List (BitVec 32) := List.replicate (cursorSizeLimit * cursorSizeLimit) 0
  cursorOutput : Nat := 0
  cursorWindow : Nat := 0
  cursorPending : Bool := false

namespace Variables

variable (v : Variables)

/-- The loop over the pixels of `argb` -/
def argbPixels (bits : CursorBits) (argb : Memory) : Option (List (BitVec 32)) :=
  (List.range (lorieCursorPixelCount bits.info)).foldlM (fun pixels i => do
    write pixels i (lorieCursorStraightArgb (← argb i))) v.cursorPixels

/-- The loops over the bitmaps -/
def monoPixels (msbFirst : Bool) (cursor : CursorRec) (bits : CursorBits) : Option (List (BitVec 32)) :=
  let foreground := rgb cursor.foreRed cursor.foreGreen cursor.foreBlue
  let background := rgb cursor.backRed cursor.backGreen cursor.backBlue
  let stride := bitmapBytePad bits.width
  (List.range bits.height).foldlM (fun pixels y =>
    (List.range bits.width).foldlM (fun pixels x => do
      write pixels (y * bits.width + x)
        (← lorieCursorMonoPixel bits.source bits.mask (y * stride + x / 8) (columnBit msbFirst x) foreground background))
      pixels) v.cursorPixels

/-- The pixels of an image -/
def imagePixels (msbFirst : Bool) (cursor : CursorRec) (bits : CursorBits) : Option (List (BitVec 32)) :=
  match bits.argb with
  | some argb => v.argbPixels bits argb
  | none => v.monoPixels msbFirst cursor bits

/-- `lorieCursorSet`, if it stays within its memory; `root` tells `cursor == rootCursor`. -/
def lorieCursorSet (msbFirst : Bool) (cursor : Option CursorRec) (root : Bool) : Option Variables :=
  let v := { v with cursorInfo := { kind := .hidden }, cursorPending := true }
  match cursor with
  | none => some v
  | some cursor =>
    if root then some { v with cursorInfo := { kind := .default } }
    else
      match cursor.bits with
      | none => some v
      | some bits =>
        if bits.width = 0 ∨ bits.height = 0 ∨ bits.emptyMask then some v
        else if !lorieCursorValid bits.info then some { v with cursorInfo := { kind := .default } }
        else do
          let pixels ← v.imagePixels msbFirst cursor bits
          return { v with cursorInfo := bits.info, cursorPixels := pixels }

def lorieCursorSelect (output window : Nat) : Variables :=
  if v.cursorOutput = output ∧ v.cursorWindow = window then v
  else { v with cursorOutput := output, cursorWindow := window, cursorPending := true }

def lorieCursorRelease (output : Nat) : Variables := if v.cursorOutput = output then v.lorieCursorSelect 0 0 else v

/-! ## The callers in `window_outputs.c` -/

section Outputs

variable (r : Registry.State)

/-- A command for a selection that is bound to its window -/
def operateCursor (c : Command) (env : Registry.Env) (output : OutputSelection) : Variables :=
  if output.shell ∧ !env.shellWindow output.window then v
  else if output.window ≠ 0 ∧ !r.hasWindow output.window then v
  else
    match c.operation with
    | .touch | .tablet | .pointer | .scroll =>
      if r.lorieOutputPoint output.id output.window then v.lorieCursorSelect output.id output.window else v
    | _ => v

/-- `lorieOutputCommand` -/
def commandCursor (c : Command) (env : Registry.Env) : Variables :=
  if Registry.State.Command.selects c env then
    match r.found? c.output with
    | none => v
    | some o =>
      match c.operation with
      | .release | .bind => v.lorieCursorRelease (r.node o).id
      | _ => if (r.node o).dead ∨ (r.node o).window ≠ c.window then v else v.operateCursor r c env (r.node o)
  else v

/-- `lorieCursorRelease` for some selections -/
def releaseCursors (os : List Nat) : Variables := os.foldl (fun v o => v.lorieCursorRelease (r.node o).id) v

/-- `lorieResetOutputs` -/
def resetCursor : Variables := (v.lorieCursorSelect 0 0).releaseCursors r r.leases.selections

/-- What an operation of the registry does to the cursor -/
def afterRegistry : Registry.Action → Variables
  | .destroyWindow w => v.releaseCursors r (r.leases.selections.filter fun o => (r.node o).window = w)
  | .work env _ =>
    match r.work with
    | .command c _ :: ws => v.commandCursor { r with work := ws } c env
    | .connect :: _ => v.resetCursor r
    | _ => v
  | .closeScreen => v.resetCursor r
  | _ => v

end Outputs

/-! ## The event -/

/-- `info.kind` -/
def kindNumber : Kind → Nat
  | .default => 0
  | .hidden => 1
  | .image => 2

/-- `EVENT_OUTPUT_CURSOR` -/
def event : Bytes :=
  eventOf ([32, 0, 0, 0] ++ little 4 v.cursorOutput ++ little 4 v.cursorWindow ++ little 4 (kindNumber v.cursorInfo.kind) ++
    little 4 v.cursorInfo.width ++ little 4 v.cursorInfo.height ++ little 4 v.cursorInfo.hotspotX ++
    little 4 v.cursorInfo.hotspotY)

/-- `lorieSendCursor(&event, cursorPixels)` -/
def lorieSendCursor : Sent := .cursor v.event (v.cursorPixels.flatMap fun pixel => little 4 pixel.toNat)

end Variables

/-! ## Runs -/

structure State where
  /-- `BITMAP_BIT_ORDER == MSBFirst` -/
  msbFirst : Bool
  registry : Registry.State
  cursor : Variables
  /-- A write failed and `sendData` shut the connection down. -/
  shut : Bool
  current : Option (Option CursorRec × Bool)
  sent : List Sent

def init (msbFirst : Bool) : State := ⟨msbFirst, .init, {}, false, none, []⟩

namespace State

variable (s : State)

/-- `lorieCursorPublish`, with what the writes of `sendData` return -/
def lorieCursorPublish (written : Bool) : State :=
  if s.cursor.cursorOutput = 0 ∨ !s.cursor.cursorPending then s
  else
    let v := { s.cursor with cursorPending := false }
    if written then { s with cursor := v, sent := s.sent ++ [v.lorieSendCursor] }
    else { s with cursor := v, shut := true }

/-- The connection of an operation of the registry -/
def connects : Registry.Action → Bool
  | .work .. => s.registry.work.head? = some .connect
  | _ => false

end State

inductive Action where
  | registry (a : Registry.Action)
  /-- `lorieSetCursor`, if `lorieCursorFromMouse` -/
  | setCursor (mouse : Bool) (cursor : Option CursorRec) (root : Bool)
  /-- `lorieRedraw`, with what `poll` and the writes return -/
  | redraw (alive written : Bool)

/-- One operation. `poll` reports a connection that was shut down. -/
def step (s : State) : Action → Option State
  | .registry a => do
    let registry ← Registry.step s.registry a
    let next := { s with registry, cursor := s.cursor.afterRegistry s.registry a }
    return if s.connects a then { next with shut := false, sent := [] } else next
  | .setCursor mouse cursor root =>
    if mouse then do
      let next ← s.cursor.lorieCursorSet s.msbFirst cursor root
      return { s with cursor := next, current := some (cursor, root) }
    else some s
  | .redraw alive written =>
    if s.shut ∧ alive then none
    else some (if s.registry.connected && alive then s.lorieCursorPublish written else s)

/-- What the X server promises of a cursor: sizes of 16 bits, and memory for all its pixels. -/
structure CursorBits.Whole (bits : CursorBits) : Prop where
  argb : ∀ argb ∈ bits.argb, ∀ i < bits.width * bits.height, (argb i).isSome
  bitmaps : bits.argb = none → ∀ i < bitmapBytePad bits.width * bits.height, (bits.source i).isSome ∧ (bits.mask i).isSome

/-- The types of what comes from the host and from the X server -/
def Typed (_ : State) : Action → Prop
  | .registry (.receive c _) => c.output < 2 ^ 32 ∧ c.window < 2 ^ 32
  | .setCursor _ cursor _ => ∀ c ∈ cursor, ∀ bits ∈ c.bits, bits.Whole
  | _ => True

end Lorie.Cursor
