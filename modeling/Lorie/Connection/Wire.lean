import Lorie.Lib.Fill
import Mathlib.Algebra.Group.Nat.Defs

/-!
# The event stream from the X server to the host

An event is the memory of a `lorieEvent` (64-bit layout), for some types with a payload behind it or a descriptor sent
along. The header is kept as its bytes; its fields are read at their offsets.

- the fields that `LorieConnection::receive` looks at, and `lorieCursorValid`;
- `Sent`: the calls of the send functions, each with what it writes (`Sent.header`, `Sent.body`);
- `Sent.Valid`: what the callers of the send functions give them.
-/

namespace Lorie.Connection

open Lorie.Lib

/-- Memory of a C object. -/
abbrev Bytes := List UInt8

/-! ## Sizes -/

/-- `sizeof(lorieEvent)` -/
def eventSize : Nat := 616

/-- `LORIE_WINDOW_ICON_PIXELS * sizeof(uint32_t)` -/
def iconSize : Nat := 16384

/-- `sizeof(LorieShellInfo)` -/
def shellSize : Nat := 2144

/-- `sizeof(LorieFamilyGeometry)` -/
def familySize : Nat := 2080

/-- `LORIE_SHELL_INPUT_LIMIT` -/
def shellInputLimit : Nat := 128

/-- `LORIE_CURSOR_SIZE_LIMIT` -/
def cursorSizeLimit : Nat := 512

/-! ## Fields -/

/-- The types that the host receives. -/
inductive EventType where
  | sharedServerState
  | addBuffer
  | removeBuffer
  | windowFocusChanged
  | syncReply
  | outputFrame
  | outputLayer
  | outputWindow
  | outputWindowsDone
  | windowGesture
  | outputShell
  | shellState
  | inspectionNode
  | inspectionDone
  | data
  | outputCursor
  | outputFamily
  | other
  deriving DecidableEq, Repr

/-- The values of `eventType`. -/
def EventType.ofByte (b : UInt8) : EventType :=
  match b.toNat with
  | 1 => .sharedServerState
  | 2 => .addBuffer
  | 3 => .removeBuffer
  | 15 => .windowFocusChanged
  | 20 => .syncReply
  | 22 => .outputFrame
  | 23 => .outputLayer
  | 24 => .outputWindow
  | 25 => .outputWindowsDone
  | 26 => .windowGesture
  | 27 => .outputShell
  | 28 => .shellState
  | 29 => .inspectionNode
  | 30 => .inspectionDone
  | 31 => .data
  | 32 => .outputCursor
  | 33 => .outputFamily
  | _ => .other

namespace Bytes

def u8 (bs : Bytes) (i : Nat) : UInt8 := bs.getD i 0

/-- A little-endian `uint32_t`. -/
def u32 (bs : Bytes) (i : Nat) : Nat :=
  (bs.u8 i).toNat + 2 ^ 8 * (bs.u8 (i + 1)).toNat + 2 ^ 16 * (bs.u8 (i + 2)).toNat + 2 ^ 24 * (bs.u8 (i + 3)).toNat

/-- A little-endian `uint64_t`. -/
def u64 (bs : Bytes) (i : Nat) : Nat := bs.u32 i + 2 ^ 32 * bs.u32 (i + 4)

/-- `n` bytes at an offset. -/
def slice (bs : Bytes) (i n : Nat) : Bytes := (bs.drop i).take n

/-- `header.type` -/
def type (h : Bytes) : EventType := .ofByte (h.u8 0)

/-- `windowInfo.hasIcon` -/
def hasIcon (h : Bytes) : Bool := h.u8 3 ≠ 0

/-- `shell.removed` -/
def removed (h : Bytes) : Bool := h.u8 12 ≠ 0

/-- `data.hasFd` -/
def hasFd (h : Bytes) : Bool := h.u8 3 ≠ 0

/-- `memchr(header.data.mime, 0, sizeof(header.data.mime))` -/
def mimeEnds (h : Bytes) : Bool := (h.slice 28 128).contains 0

/-- `inputCount` of a `LorieShellInfo` or a `LorieFamilyGeometry`. -/
def inputCount (info : Bytes) : Nat := info.u32 12

/-- `lorieCursorValid` of `cursor.info`: kind, width, height and hot spot. -/
def cursorValid (h : Bytes) : Bool :=
  let kind := h.u32 12
  let width := h.u32 16
  let height := h.u32 20
  let hotspotX := h.u32 24
  let hotspotY := h.u32 28
  if kind = 0 ∨ kind = 1 then !(width ≠ 0 || height ≠ 0 || hotspotX ≠ 0 || hotspotY ≠ 0)
  else kind = 2 && width ≠ 0 && height ≠ 0 && width ≤ cursorSizeLimit && height ≤ cursorSizeLimit &&
    hotspotX < width && hotspotY < height

/-- `lorieCursorPixelCount(&header.cursor.info) * sizeof(uint32_t)` -/
def cursorSize (h : Bytes) : Nat := (if h.cursorValid then h.u32 16 * h.u32 20 else 0) * 4

end Bytes

/-! ## What the server sends -/

/-- What is taken from the socket by a blocking read: a descriptor, or the handle of a buffer. -/
inductive Mark where
  | descriptor (d : Nat)
  | handle (buffer : Nat)
  deriving DecidableEq, Repr

/-- `LorieDataEvent` before it is sent. -/
structure DataEvent where
  operation : UInt8
  channel : UInt8
  /-- `serial`, `offer`, `output`, `window`, `x` and `y` -/
  fields : Bytes
  mime : Bytes
  deriving DecidableEq, Repr

/-- A zeroed `lorieEvent` with its first bytes set. -/
def eventOf (first : Bytes) : Bytes := first ++ List.replicate (eventSize - first.length) 0

/-- The bytes of a little-endian value. -/
def little (width value : Nat) : Bytes := (List.range width).map fun i => UInt8.ofNat (value / 2 ^ (8 * i))

/-- A call of a send function. -/
inductive Sent where
  /-- `lorieSendOutputFrame` -/
  | outputFrame (event : Bytes)
  /-- `lorieSendWindowInfo` -/
  | windowInfo (event icon : Bytes)
  /-- `lorieSendShellInfo` -/
  | shellInfo (event : Bytes) (info : Option Bytes)
  /-- `lorieSendFamilyGeometry` -/
  | familyGeometry (output : Nat) (info : Bytes)
  /-- `lorieSendCursor` -/
  | cursor (event pixels : Bytes)
  /-- `lorieSendDataEvent` -/
  | dataEvent (data : DataEvent) (descriptor : Option Nat)
  /-- `lorieSendSyncReply` -/
  | syncReply (serial : Nat)
  /-- `lorieSendSharedServerState` -/
  | sharedServerState (memfd : Nat)
  /-- `lorieRegisterBuffer` -/
  | registerBuffer (buffer : Nat)
  /-- `lorieUnregisterBuffer` -/
  | unregisterBuffer (id : Nat)
  /-- `DDXNotifyFocusChanged` -/
  | focusChanged
  deriving DecidableEq, Repr

namespace Sent

/-- The `lorieEvent` that is written first. -/
def header : Sent → Bytes
  | outputFrame event | windowInfo event _ | shellInfo event _ | cursor event _ => event
  | familyGeometry output _ => eventOf ([33, 0, 0, 0] ++ little 4 output)
  | dataEvent data descriptor =>
    eventOf ([31, data.operation, data.channel, if descriptor.isSome then 1 else 0] ++ data.fields ++ data.mime)
  | syncReply serial => eventOf ([20, 0, 0, 0] ++ little 4 serial)
  | sharedServerState _ => eventOf [1]
  | registerBuffer _ => eventOf [2]
  | unregisterBuffer id => eventOf ([3, 0, 0, 0, 0, 0, 0, 0] ++ little 8 id)
  | focusChanged => eventOf [15]

/-- What is written behind it. -/
def body : Sent → List (Item UInt8 Mark)
  | windowInfo event icon => if event.hasIcon then icon.map .data else []
  | shellInfo _ info => (info.getD []).map .data
  | familyGeometry _ info => info.map .data
  | cursor event pixels => (pixels.take event.cursorSize).map .data
  | dataEvent _ descriptor => (descriptor.map fun d => .mark (.descriptor d)).toList
  | sharedServerState memfd => [.mark (.descriptor memfd)]
  | registerBuffer buffer => [.mark (.handle buffer)]
  | outputFrame _ | syncReply _ | unregisterBuffer _ | focusChanged => []

/-- The types that are sent as a header alone; a removed window has no icon. -/
def alone (event : Bytes) : Bool :=
  match event.type with
  | .outputFrame | .outputLayer | .outputWindowsDone | .windowGesture | .shellState | .inspectionNode
  | .inspectionDone => true
  | .outputWindow => !event.hasIcon
  | _ => false

/-- What the callers give: the memory of whole objects with the type of the call; a shell record that is not removed;
at most `LORIE_SHELL_INPUT_LIMIT` input rectangles; an output and a valid shape for a cursor; a text that ends. -/
def Valid : Sent → Prop
  | outputFrame event => event.length = eventSize ∧ alone event
  | windowInfo event icon => event.length = eventSize ∧ event.type = .outputWindow ∧ icon.length = iconSize
  | shellInfo event info =>
    event.length = eventSize ∧ event.type = .outputShell ∧ (event.removed = info.isNone) ∧
      ∀ i ∈ info, i.length = shellSize ∧ i.inputCount ≤ shellInputLimit
  | familyGeometry _ info => info.length = familySize ∧ info.inputCount ≤ shellInputLimit
  | cursor event pixels =>
    event.length = eventSize ∧ event.type = .outputCursor ∧ event.u32 4 ≠ 0 ∧ event.cursorValid ∧
      event.cursorSize ≤ pixels.length
  | dataEvent data _ => data.fields.length = 24 ∧ data.mime.length = 128 ∧ data.mime.contains 0
  | _ => True

/-- All that is written. -/
def items (e : Sent) : List (Item UInt8 Mark) := e.header.map .data ++ e.body

end Sent

/-- The stream of a run of events. -/
def encode (es : List Sent) : List (Item UInt8 Mark) := es.flatMap Sent.items

/-! ## The headers that the send functions make -/

theorem eventOf_length {first : Bytes} (h : first.length ≤ eventSize) : (eventOf first).length = eventSize := by
  unfold eventOf
  rw [List.length_append, List.length_replicate]
  omega

@[simp] theorem little_length (width value : Nat) : (little width value).length = width := by
  simp [little]

/-- Every header is a whole event. -/
theorem Sent.header_length {e : Sent} (h : e.Valid) : e.header.length = eventSize := by
  cases e with
  | outputFrame event => exact h.1
  | windowInfo event icon => exact h.1
  | shellInfo event info => exact h.1
  | cursor event pixels => exact h.1
  | familyGeometry output info => exact eventOf_length (by simp [eventSize])
  | dataEvent data descriptor =>
    obtain ⟨hf, hm, -⟩ := h
    exact eventOf_length (by simp [eventSize, hf, hm])
  | syncReply serial => exact eventOf_length (by simp [eventSize])
  | sharedServerState memfd => exact eventOf_length (by simp [eventSize])
  | registerBuffer buffer => exact eventOf_length (by simp [eventSize])
  | unregisterBuffer id => exact eventOf_length (by simp [eventSize])
  | focusChanged => exact eventOf_length (by simp [eventSize])

/-- The text of a data event stands at its place in the header. -/
theorem Sent.mime_slice {data : DataEvent} {descriptor : Option Nat} (h : (dataEvent data descriptor).Valid) :
    (dataEvent data descriptor).header.slice 28 128 = data.mime := by
  obtain ⟨hf, hm, -⟩ := h
  have hfront : ([31, data.operation, data.channel, if descriptor.isSome then 1 else 0] ++ data.fields).length = 28 := by
    simp [hf]
  simp only [Sent.header, eventOf, Bytes.slice]
  rw [List.append_assoc, ← hfront, List.drop_left, ← hm, List.take_left]

end Lorie.Connection
