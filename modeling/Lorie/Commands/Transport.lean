import Lorie.Connection.Wire
import Lorie.Lib.Transition
import Mathlib.Logic.Function.Basic

/-!
# The command transport from the host to the server

`LorieConnection::sendAll` appends an event to a `LorieCommandQueue` and flushes the queue into a stream socket; the
server takes the stream apart in `handleLorieEvents`. The host's looper, the input thread of the server and the kernel
move in any order; a system call is one step, and its answer is part of the action.

A descriptor of the host is a number in its table of open files, and `F_DUPFD_CLOEXEC` gives a number that is free. The
host may open and close what it likes, other than the duplicates of the queue. A file sent along with a byte stands
beside that byte in the stream; a plain read of the byte drops it. On the server allocations succeed, descriptors
included; on the host they may fail.

History: `appended`, `written`, `consumed` and `dispatched`. No step reads them.

- `Command`: what is given to `sendAll`; `State.append`, `State.flush`, `State.disconnect`: the host;
- `State.recv`, `State.dispatch`, `State.recvFd`: the server.
-/

namespace Lorie.Commands

open Lorie.Lib
open Lorie.Connection (Bytes eventSize eventOf)

/-- An open file. -/
abbrev File := Nat

/-- A byte of the stream and the file that was sent along. -/
abbrev Octet := UInt8 × Option File

/-- A byte alone. -/
def plain (b : UInt8) : Octet := (b, none)

/-! ## Commands -/

/-- The arguments of `lorieConnectionData`; the numbers and the text as they stand in the event. -/
structure Data where
  operation : UInt8
  channel : UInt8
  /-- `serial`, `offer`, `output`, `window`, `x` and `y` -/
  fields : { bs : Bytes // bs.length = 24 }
  mime : { bs : Bytes // bs.length = 128 }
  deriving DecidableEq

/-- The calls of `sendAll`. -/
inductive Command where
  /-- `lorieSendOutputCommand` -/
  | output (command : { bs : Bytes // bs.length = eventSize })
  /-- `lorieConnectionData` -/
  | data (data : Data) (descriptor : Option Nat)
  /-- `connect`, with `renderer.getWakeupCondFd()` -/
  | wakeupCond (descriptor : Nat)
  /-- `connect`, with `renderer.gpuDoneFd` -/
  | gpuDone (descriptor : Nat)
  deriving DecidableEq

namespace Command

/-- The bytes of the event. -/
def event : Command → Bytes
  | output command => command.1.set 0 21
  | data d descriptor =>
    eventOf ([31, d.operation, d.channel, if descriptor.isSome then 1 else 0] ++ d.fields.1 ++ d.mime.1)
  | wakeupCond _ => eventOf [16]
  | gpuDone _ => eventOf [17]

def descriptor : Command → Option Nat
  | output _ => none
  | data _ descriptor => descriptor
  | wakeupCond d | gpuDone d => some d

end Command

/-- An event on the wire: its bytes, and a marker with the file, if there is one. -/
def wireOf (a : Bytes × Option File) : List Octet := a.1.map plain ++ (a.2.map fun f => (33, some f)).toList

/-- The wire of a run of events. -/
def wire (es : List (Bytes × Option File)) : List Octet := es.flatMap wireOf

/-! ## The two parties -/

/-- `LorieCommandQueue::Message`; `size` is the length of `bytes`. -/
structure Message where
  bytes : Bytes
  sent : Nat
  descriptor : Option Nat
  deriving DecidableEq

/-- Where the looper of the host stands. -/
inductive HostStage where
  | idle
  /-- In the loop of `flush`. -/
  | flushing
  /-- Before `watch`. -/
  | watching
  deriving DecidableEq, Repr

/-- Where `handleLorieEvents` stands. -/
inductive ServerStage where
  | idle
  /-- At `again`. -/
  | again
  /-- In `ancil_recv_fd`, for an event. -/
  | descriptor (e : Bytes)
  /-- In the `read` of a name, for an event. -/
  | name (e : Bytes)
  /-- Before `FIONREAD`. -/
  | fionread
  /-- The connection is closed. -/
  | gone
  deriving DecidableEq, Repr

structure State where
  /-- `fd >= 0` -/
  connected : Bool
  host : HostStage
  messages : List Message
  bytes : Nat
  count : Nat
  /-- The descriptors of the host. -/
  files : Nat → Option File
  /-- What is in the socket. -/
  unread : List Octet
  /-- The socket is shut down. -/
  closed : Bool
  /-- `incoming` and `headerBytes` -/
  incoming : Buffer UInt8
  server : ServerStage
  /-- History: the events that `append` took, each with the file of its descriptor. -/
  appended : List (Bytes × Option File)
  /-- History: what was written to the socket. -/
  written : List Octet
  /-- History: what was read from it. -/
  consumed : List Octet
  /-- History: the events that the server handled, each with the file it received. -/
  dispatched : List (Bytes × Option File)

/-- What a system call answers. -/
inductive Answer where
  /-- At most `k + 1` bytes. -/
  | count (k : Nat)
  /-- `EAGAIN` -/
  | again
  /-- `EINTR` -/
  | interrupted
  | failed
  deriving DecidableEq, Repr

/-- `MAX_BYTES` -/
def maxBytes : Nat := 1024 * 1024

/-- `MAX_MESSAGES` -/
def maxMessages : Nat := 4096

namespace State

/-- A new connection; the memory of `incoming` is what an earlier one left. -/
def init (memory : { bs : Bytes // bs.length = eventSize }) (files : Nat → Option File) : State :=
  { connected := true, host := .idle, messages := [], bytes := 0, count := 0, files := files, unread := [],
    closed := false, incoming := ⟨memory.1, 0⟩, server := .idle, appended := [], written := [], consumed := [],
    dispatched := [] }

/-! ## The host -/

/-- The duplicates that the queue has. -/
def owned (s : State) : List Nat := s.messages.filterMap Message.descriptor

/-- `disconnect`, with `commands.clear()` -/
def disconnect (s : State) : State :=
  { s with
    connected := false
    host := .idle
    messages := []
    bytes := 0
    count := 0
    files := fun d => if d ∈ s.owned then none else s.files d
    closed := true }

/-- A message at the end of the queue. -/
def enqueue (s : State) (c : Command) (copy : Option Nat) : State :=
  { s with
    messages := s.messages ++ [⟨c.event, 0, copy⟩]
    bytes := s.bytes + c.event.length
    count := s.count + 1
    appended := s.appended ++ [(c.event, copy.bind s.files)] }

/-- `append`; `none` stands for `false`. `copy` is what `fcntl` answers and `memory` says whether `malloc` succeeds. -/
def append (s : State) (c : Command) (copy : Option Nat) (memory : Bool) : Option State :=
  if maxBytes - s.bytes < c.event.length ∨ s.count = maxMessages then none
  else
    match c.descriptor, copy with
    | none, _ => if memory then some (s.enqueue c none) else none
    | some _, none => none
    | some d, some n =>
      if memory then some ({ s with files := Function.update s.files n (s.files d) }.enqueue c (some n)) else none

/-- `fcntl` duplicates an open descriptor to a free number. -/
def Duplicates (s : State) (c : Command) (copy : Option Nat) : Prop :=
  ∀ d ∈ c.descriptor, ∀ n ∈ copy, s.files d ≠ none ∧ s.files n = none

instance (s : State) (c : Command) (copy : Option Nat) : Decidable (s.Duplicates c copy) :=
  inferInstanceAs (Decidable (∀ d ∈ c.descriptor, ∀ n ∈ copy, s.files d ≠ none ∧ s.files n = none))

/-- `sendAll`, up to the loop of `flush` -/
def sendAll (s : State) (c : Command) (copy : Option Nat) (memory : Bool) : State :=
  match s.append c copy memory with
  | some t => { t with host := .flushing }
  | none => s.disconnect

/-- Bytes into the socket. -/
def write (s : State) (os : List Octet) : State := { s with unread := s.unread ++ os, written := s.written ++ os }

/-- One turn of the loop of `flush`; a socket that is shut down takes nothing. -/
def flush (s : State) (a : Answer) : Option State :=
  match s.messages with
  | [] => some { s with host := .watching }
  | m :: ms =>
    if m.sent < m.bytes.length ∨ m.descriptor.isSome then
      match a with
      | .count k =>
        if s.closed then none
        else if m.sent < m.bytes.length then
          let got := (m.bytes.drop m.sent).take (k + 1)
          some ({ s with messages := { m with sent := m.sent + got.length } :: ms }.write (got.map plain))
        else
          match m.descriptor.bind s.files with
          | some f =>
            some ({ s with
              messages := { m with descriptor := none } :: ms
              files := fun d => if m.descriptor = some d then none else s.files d }.write [(33, some f)])
          | none => none
      | .interrupted => some s
      | .again => some { s with host := .watching }
      | .failed => some s.disconnect
    else some { s with messages := ms, bytes := s.bytes - m.bytes.length, count := s.count - 1 }

/-! ## The server -/

/-- The error path of `handleLorieEvents` -/
def hangUp (s : State) : State := { s with server := .gone, incoming := { s.incoming with filled := 0 }, closed := true }

/-- An event is handled. -/
def handled (s : State) (e : Bytes) (f : Option File) : State :=
  { s with server := .fionread, dispatched := s.dispatched ++ [(e, f)] }

/-- The `switch` over the type of an event. `EVENT_SCREEN_SIZE` reads a name; the types that are not named here read
nothing. -/
def dispatch (s : State) (e : Bytes) : State :=
  match (e.u8 0).toNat with
  | 4 => if e.u64 8 ≠ 0 then { s with server := .name e } else s.handled e none
  | 16 | 17 => { s with server := .descriptor e }
  | 31 => if e.hasFd then { s with server := .descriptor e } else s.handled e none
  | _ => s.handled e none

/-- `n` bytes out of the socket. -/
def consume (s : State) (n : Nat) : State :=
  { s with unread := s.unread.drop n, consumed := s.consumed ++ s.unread.take n }

/-- `recv` at `again`, and what follows it -/
def recv (s : State) : Answer → State
  | .again | .interrupted => { s with server := .idle }
  | .failed => s.hangUp
  | .count k =>
    if s.unread = [] then
      if s.closed then s.hangUp else { s with server := .idle }
    else
      let n := min (k + 1) (eventSize - s.incoming.filled)
      let got := (s.unread.take n).map Prod.fst
      let b := s.incoming.write got
      let t := s.consume n
      if b.filled = eventSize then { t with incoming := { b with filled := 0 } }.dispatch b.memory
      else { t with incoming := b, server := .idle }

/-- No descriptor came. -/
def noDescriptor (s : State) (e : Bytes) : State := if (e.u8 0).toNat = 16 then { s with server := .fionread } else s.hangUp

/-- `ancil_recv_fd`, and what follows it; it waits while there is nothing to read. -/
def recvFd (s : State) (e : Bytes) : Option State :=
  match s.unread with
  | [] => if s.closed then some (s.noDescriptor e) else none
  | (33, some f) :: _ => some ((s.consume 1).handled e (some f))
  | _ => some ((s.consume 1).noDescriptor e)

end State

inductive Action where
  /-- The host opens a file. -/
  | openFile (d : Nat) (f : File)
  /-- The host closes a descriptor. -/
  | closeFile (d : Nat)
  | sendAll (c : Command) (copy : Option Nat) (memory : Bool)
  | flush (a : Answer)
  | watch (ok : Bool)
  /-- `receive` with `ALOOPER_EVENT_OUTPUT` -/
  | writable
  /-- `disconnect` for another reason -/
  | disconnect
  /-- Either party shuts the socket down. -/
  | shutdown
  /-- `handleLorieEvents` is called, with `X_NOTIFY_ERROR` or without. -/
  | ready (error : Bool)
  | recv (a : Answer)
  | recvFd
  | readName (k : Nat)
  | fionread (ok : Bool)
  deriving DecidableEq

/-- One step of the host, the server or the kernel. -/
def step (s : State) : Action → Option State
  | .openFile d f => if s.files d = none then some { s with files := Function.update s.files d (some f) } else none
  | .closeFile d => if d ∈ s.owned then none else some { s with files := Function.update s.files d none }
  | .sendAll c copy memory =>
    if s.connected ∧ s.host = .idle ∧ s.Duplicates c copy then some (s.sendAll c copy memory) else none
  | .flush a => if s.connected ∧ s.host = .flushing then s.flush a else none
  | .watch ok =>
    if s.connected ∧ s.host = .watching then some (if ok then { s with host := .idle } else s.disconnect) else none
  | .writable => if s.connected ∧ s.host = .idle then some { s with host := .flushing } else none
  | .disconnect => if s.connected ∧ s.host = .idle then some s.disconnect else none
  | .shutdown => some { s with closed := true }
  | .ready error =>
    if s.server = .idle then some (if error then s.hangUp else { s with server := .again }) else none
  | .recv a => if s.server = .again then some (s.recv a) else none
  | .recvFd =>
    match s.server with
    | .descriptor e => s.recvFd e
    | _ => none
  | .readName k =>
    match s.server with
    | .name e => if s.unread = [] ∧ ¬s.closed then none else some ((s.consume (min (k + 1) (e.u64 8))).handled e none)
    | _ => none
  | .fionread ok =>
    if s.server = .fionread then
      some { s with server := if ok ∧ eventSize < s.unread.length then .again else .idle }
    else none

end Lorie.Commands
