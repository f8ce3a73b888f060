import Lorie.Connection.Wire

/-!
# Decoding the event stream

`LorieConnection::receive` reads the stream in pieces: a header, for some types then a payload, each through its own
buffer and over any number of calls.

- the callbacks, the connection and its buffers;
- `Conn.dispatch`: the `switch` over the type of a complete header;
- `Conn.receive`: one call, with what the looper reports and what `recv` answers; `Conn.run`: calls one after the other.
-/

namespace Lorie.Connection

open Lorie.Lib

/-! ## The connection -/

/-- The `LorieWindowInfo` of a callback: the header it points into, and the icon. -/
structure WindowInfo where
  header : Bytes
  icon : Option Bytes
  deriving DecidableEq, Repr

/-- What is called for an event: the callbacks of the host, and the renderer. -/
inductive Callback where
  | disconnected
  | family (owner : Nat) (info : Bytes)
  | shell (owner window : Nat) (info : Option Bytes)
  | shellState (owner : Nat) (available : Bool)
  | cursor (output window : Nat) (info : Bytes) (pixels : Option Bytes)
  | data (event : Bytes) (descriptor : Option Nat)
  | windowsCommitted
  | windowGesture (window direction : Nat)
  | inspectionNode (serial : Nat) (node : Bytes)
  | inspectionDone (serial : Nat) (result : Bytes)
  | setSharedState (descriptor : Nat)
  | addBuffer (handle : Nat)
  | removeBuffer (id : Nat)
  | setOutputFrame (event : Bytes)
  | frame (output window width height : Nat) (available : Bool)
  | window (window : Nat) (info : Option WindowInfo)
  deriving DecidableEq, Repr

/-- Which of the optional callbacks the host gave. -/
structure Callbacks where
  cursor : Bool
  shell : Bool
  family : Bool
  shellState : Bool
  windowGesture : Bool
  deriving DecidableEq, Repr

/-- `LorieConnection`; `stream` is what the server wrote and the host did not read. -/
structure Conn where
  connected : Bool
  header : Buffer UInt8
  windowIcon : Buffer UInt8
  windowPending : Bool
  /-- The memory is `cursorCapacity` long. -/
  cursorPixels : Buffer UInt8
  cursorPending : Bool
  shellInfo : Buffer UInt8
  shellPending : Bool
  familyInfo : Buffer UInt8
  familyPending : Bool
  stream : List (Item UInt8 Mark)
  /-- History: what was called. -/
  calls : List Callback
  /-- History: the headers that were interpreted. -/
  headers : List Bytes

/-- What a call of `receive` meets. -/
structure Call where
  /-- `ALOOPER_EVENT_ERROR` or `ALOOPER_EVENT_HANGUP` -/
  error : Bool
  /-- `ALOOPER_EVENT_OUTPUT` -/
  output : Bool
  /-- The commands are flushed and the descriptor is watched again. -/
  flushed : Bool
  /-- `ALOOPER_EVENT_INPUT` -/
  input : Bool
  /-- What the first `recv` of the call answers. -/
  first : Read
  /-- What a second `recv` of the call answers. -/
  second : Read
  deriving DecidableEq, Repr

namespace Conn

/-- `disconnect(true)` -/
def disconnect (c : Conn) : Conn :=
  { c with
    connected := false
    header := { c.header with filled := 0 }
    windowIcon := { c.windowIcon with filled := 0 }
    windowPending := false
    cursorPixels := { c.cursorPixels with filled := 0 }
    cursorPending := false
    shellInfo := { c.shellInfo with filled := 0 }
    shellPending := false
    familyInfo := { c.familyInfo with filled := 0 }
    familyPending := false
    calls := c.calls ++ [.disconnected] }

/-- A callback, when the host gave it. -/
def call (c : Conn) (given : Bool) (f : Callback) : Conn := { c with calls := if given then c.calls ++ [f] else c.calls }

/-- One `recv` into a buffer: when it fails, the connection ends; when it does not complete, the call returns; otherwise
`done` goes on with the buffer. -/
def recv (c : Conn) (b : Buffer UInt8) (size : Nat) (r : Read) (store : Conn → Buffer UInt8 → Conn) (done : Conn → Conn) :
    Conn :=
  match b.read size r c.stream with
  | (.failed, _, _) => c.disconnect
  | (.wait, b, s) => store { c with stream := s } b
  | (.full, b, s) => done (store { c with stream := s } b)

/-- The texts of a window's header end. -/
def endTexts (h : Bytes) : Bytes := ((h.set 359 0).set 487 0).set 615 0

/-- The end of `receiveWindow` -/
def finishWindow (c : Conn) : Conn :=
  let h : Bytes := endTexts c.header.memory
  let info : WindowInfo := ⟨h, if h.hasIcon then some c.windowIcon.memory else none⟩
  { c.call true (.window (h.u32 4) (if h.u8 1 ≠ 0 then none else some info)) with
    header := { c.header with memory := h }
    windowPending := false
    windowIcon := { c.windowIcon with filled := 0 } }

/-- `receiveWindow` -/
def receiveWindow (c : Conn) (r : Read) : Conn :=
  if Bytes.hasIcon c.header.memory then c.recv c.windowIcon iconSize r (fun c b => { c with windowIcon := b }) finishWindow
  else c.finishWindow

/-- The end of `receiveCursor` -/
def finishCursor (cb : Callbacks) (c : Conn) : Conn :=
  let h : Bytes := c.header.memory
  { c.call cb.cursor (.cursor (h.u32 4) (h.u32 8) (h.slice 12 20)
      (if h.cursorSize ≠ 0 then some (c.cursorPixels.memory.take h.cursorSize) else none)) with
    cursorPending := false
    cursorPixels := { c.cursorPixels with filled := 0 } }

/-- `receiveCursor` -/
def receiveCursor (cb : Callbacks) (c : Conn) (r : Read) : Conn :=
  let size := Bytes.cursorSize c.header.memory
  if c.cursorPixels.filled < size then
    c.recv c.cursorPixels size r (fun c b => { c with cursorPixels := b }) (finishCursor cb)
  else c.finishCursor cb

/-- The end of `receiveShell` -/
def finishShell (cb : Callbacks) (c : Conn) : Conn :=
  let h : Bytes := c.header.memory
  { c.call cb.shell (.shell (h.u32 4) (h.u32 8) (if h.removed then none else some c.shellInfo.memory)) with
    shellPending := false
    shellInfo := { c.shellInfo with filled := 0 } }

/-- `receiveShell` -/
def receiveShell (cb : Callbacks) (c : Conn) (r : Read) : Conn :=
  if Bytes.removed c.header.memory then c.finishShell cb
  else
    c.recv c.shellInfo shellSize r (fun c b => { c with shellInfo := b }) fun c =>
      if shellInputLimit < Bytes.inputCount c.shellInfo.memory then c.disconnect else c.finishShell cb

/-- The end of `receiveFamily` -/
def finishFamily (cb : Callbacks) (c : Conn) : Conn :=
  { c.call cb.family (.family (Bytes.u32 c.header.memory 4) c.familyInfo.memory) with
    familyPending := false
    familyInfo := { c.familyInfo with filled := 0 } }

/-- `receiveFamily` -/
def receiveFamily (cb : Callbacks) (c : Conn) (r : Read) : Conn :=
  c.recv c.familyInfo familySize r (fun c b => { c with familyInfo := b }) fun c =>
    if shellInputLimit < Bytes.inputCount c.familyInfo.memory then c.disconnect else c.finishFamily cb

/-- The blocking read of a descriptor. -/
def recvFd (c : Conn) : Option (Nat × Conn) :=
  match c.stream with
  | .mark (.descriptor d) :: s => some (d, { c with stream := s })
  | _ => none

/-- The blocking read of a buffer. -/
def recvHandle (c : Conn) : Option (Nat × Conn) :=
  match c.stream with
  | .mark (.handle b) :: s => some (b, { c with stream := s })
  | _ => none

/-- `realloc` of the cursor's pixels, when they need more. -/
def growCursor (c : Conn) (size : Nat) : Conn :=
  if c.cursorPixels.memory.length < size then
    { c with cursorPixels := { c.cursorPixels with
      memory := c.cursorPixels.memory ++ List.replicate (size - c.cursorPixels.memory.length) 0 } }
  else c

/-- `EVENT_DATA` -/
def receiveData (c : Conn) : Conn :=
  let h : Bytes := c.header.memory
  if h.hasFd then
    match c.recvFd with
    | none => c.disconnect
    | some (d, c) => if h.mimeEnds then c.call true (.data h (some d)) else c.disconnect
  else if h.mimeEnds then c.call true (.data h none)
  else c.disconnect

/-- The `switch` over the type of a complete header. -/
def dispatch (cb : Callbacks) (c : Conn) (r : Read) : Conn :=
  let h : Bytes := c.header.memory
  match h.type with
  | .outputFamily => receiveFamily cb { c with familyPending := true } r
  | .outputShell => receiveShell cb { c with shellPending := true } r
  | .shellState => c.call cb.shellState (.shellState (h.u32 4) (h.u8 13 ≠ 0))
  | .outputCursor =>
    if h.u32 4 = 0 ∨ h.cursorValid = false then c.disconnect
    else receiveCursor cb { c.growCursor h.cursorSize with cursorPending := true } r
  | .data => c.receiveData
  | .outputWindowsDone => c.call true .windowsCommitted
  | .windowGesture => c.call cb.windowGesture (.windowGesture (h.u32 4) (h.u32 8))
  | .inspectionNode =>
    let h : Bytes := h.set 239 0
    { c.call true (.inspectionNode (h.u32 4) (h.slice 8 232)) with header := { c.header with memory := h } }
  | .inspectionDone => c.call true (.inspectionDone (h.u32 4) (h.slice 8 28))
  | .sharedServerState =>
    match c.recvFd with
    | none => c.disconnect
    | some (d, c) => c.call true (.setSharedState d)
  | .addBuffer =>
    match c.recvHandle with
    | none => c.disconnect
    | some (b, c) => c.call true (.addBuffer b)
  | .removeBuffer => c.call true (.removeBuffer (h.u64 8))
  | .outputFrame =>
    (c.call true (.setOutputFrame h)).call true
      (.frame (h.u32 4) (h.u32 8) (h.u32 12) (h.u32 16) (h.u64 24 ≠ 0))
  | .outputLayer => c.call true (.setOutputFrame h)
  | .outputWindow => receiveWindow { c with windowPending := true } r
  | .windowFocusChanged | .syncReply => c
  | .other => c.disconnect

/-- `LorieConnection::receive` -/
def receive (cb : Callbacks) (c : Conn) (k : Call) : Conn :=
  if c.connected = false then c
  else if k.error then c.disconnect
  else if k.output ∧ k.flushed = false then c.disconnect
  else if k.input = false then c
  else if c.windowPending then c.receiveWindow k.first
  else if c.cursorPending then c.receiveCursor cb k.first
  else if c.shellPending then c.receiveShell cb k.first
  else if c.familyPending then c.receiveFamily cb k.first
  else
    c.recv c.header eventSize k.first (fun c b => { c with header := b }) fun c =>
      dispatch cb { c with header := { c.header with filled := 0 }, headers := c.headers ++ [c.header.memory] } k.second

/-- A connection, before it reads the stream. -/
def start (es : List Sent) : Conn where
  connected := true
  header := ⟨List.replicate eventSize 0, 0⟩
  windowIcon := ⟨List.replicate iconSize 0, 0⟩
  windowPending := false
  cursorPixels := ⟨[], 0⟩
  cursorPending := false
  shellInfo := ⟨List.replicate shellSize 0, 0⟩
  shellPending := false
  familyInfo := ⟨List.replicate familySize 0, 0⟩
  familyPending := false
  stream := encode es
  calls := []
  headers := []

/-- A run of calls. -/
def run (cb : Callbacks) (ks : List Call) (c : Conn) : Conn := ks.foldl (receive cb) c

end Conn

end Lorie.Connection
