import Lorie.Lib.Transition
import Mathlib.Algebra.Group.Nat.Defs
import Mathlib.Algebra.Group.Int.Defs

/-!
# Shared memory between processes

`shm/shmem.c`: the System V calls on top of anonymous regions of the kernel. A process makes segments and keeps them in a table;
another process that knows the identifier of a segment asks the process that made it for the descriptor, through a socket whose
name is in the identifier. A symbolic link for each key names the segment of that key.

Any number of processes use this code. A call holds the mutex of its process from its start to its end, and its steps are those
that others can see: `Call` says where it is. The thread of a process that answers requests takes the mutex for each answer;
it may never have come into being, and it ends for good when `accept` fails. The calls of one process come one after the other.

The kernel answers in `Answers`. Descriptors are those of regions, with the region that they stand for; the sockets of calls are
closed on every path.

History: the segment that a region was made for, the names that were bound, the links that were removed, the descriptors that
no table has any more, and the identifiers that were returned for keys.
-/

namespace Lorie.SharedMemory

open Lorie.Lib

/-! ## The kernel -/

/-- A region of `/dev/ashmem`, with the identifier and the key of its segment -/
structure Region where
  size : Nat
  id : Int
  key : Int
  deriving DecidableEq, Repr

structure Descriptor where
  number : Nat
  region : Nat
  deriving DecidableEq, Repr

structure Mapping where
  addr : Nat
  region : Nat
  size : Nat
  writable : Bool
  deriving DecidableEq, Repr

/-- A bound socket; `listen` may have failed, and the thread that answers may not be there. -/
structure Socket where
  owner : Nat
  listening : Bool
  answered : Bool
  deriving DecidableEq, Repr

/-- What the kernel answers in one step of a process -/
structure Answers where
  /-- The number of `socket`, for the thread; `none` is -1. -/
  socket : Option Nat := some 4
  listen : Bool := true
  /-- `pthread_create` -/
  thread : Bool := true
  /-- A `pthread_create` that fails sets `ashv_listening_thread_id` all the same. -/
  threadId : Bool := false
  connect : Bool := true
  symlink : Bool := true
  /-- The descriptor of a new or a received region -/
  descriptor : Option Nat := none
  /-- `ASHMEM_GET_SIZE` -/
  size : Bool := true
  /-- `mmap` -/
  address : Option Nat := none
  deriving DecidableEq, Repr

/-! ## Processes -/

/-- `shmem_t` -/
structure Segment where
  id : Int
  addr : Option Nat
  descriptor : Descriptor
  size : Nat
  markedForDeletion : Bool
  key : Int
  deriving DecidableEq, Repr

/-- What the owner of a segment answers, or a closed connection. -/
inductive Reply where
  | closed
  | segment (key : Int) (region : Nat)
  deriving DecidableEq, Repr

/-- What a call wants with the segment that it asks for -/
inductive Purpose where
  | get (key : Int) (size : Nat) (shmid : Option Int)
  | attach (shmflg : Int)
  deriving DecidableEq, Repr

/-- The call that holds the mutex; a `shmget` has the identifier that it took. -/
inductive Call where
  | idle
  /-- Before `readlink` -/
  | reading (key : Int) (size : Nat) (shmid : Option Int)
  /-- In `ashv_read_remote_segment`, connected to the socket of a process, or in line for that -/
  | asking (shmid : Int) (owner : Nat) (reply : Option Reply) (purpose : Purpose)
  /-- Before `unlink` -/
  | unlinking (key : Int) (size : Nat) (shmid : Option Int)
  /-- Before `symlink` -/
  | linking (key : Int) (size : Nat) (shmid : Option Int)
  deriving DecidableEq, Repr

/-- The `cmd` of `shmctl`, and whether there is a buffer for `IPC_STAT` -/
inductive Command where
  | remove
  | stat (buf : Bool)
  | other
  deriving DecidableEq, Repr

/-- What a call returned -/
inductive Result where
  | id (shmid : Int)
  /-- `shmat`; `none` is `(void*) -1`. -/
  | address (shmid : Int) (addr : Option Nat)
  | code (value : Int)
  /-- `IPC_STAT`, with `shm_segsz`, `shm_nattch` and the key -/
  | stat (size nattch : Nat) (key : Int)
  deriving DecidableEq, Repr

structure Process where
  pid : Nat := 0
  running : Bool := false
  shmem : List Segment := []
  /-- `ashv_local_socket_id` -/
  localSocketId : Nat := 0
  /-- `ashv_pid_setup` -/
  pidSetup : Nat := 0
  /-- `ashv_listening_thread_id` is set. -/
  listening : Bool := false
  /-- History: `ashv_local_socket_id` is a name that was bound. -/
  named : Bool := false
  shmemCounter : Nat := 0
  call : Call := .idle
  result : Option Result := none
  opened : List Descriptor := []
  mapped : List Mapping := []
  /-- History: descriptors that were not closed when their segment left the table, or never came into it -/
  lost : List Descriptor := []
  /-- History: mappings that were there when the table was dropped -/
  kept : List Mapping := []
  deriving DecidableEq, Repr

/-- `ashv_shmid_from_counter`, an `int` -/
def shmidFromCounter (socketId counter : Nat) : Int := Int.bmod (socketId * 0x10000 + counter : Nat) (2 ^ 32)

/-- `ashv_socket_id_from_shmid` -/
def socketIdFromShmid (shmid : Int) : Int := shmid.tdiv 0x10000

/-- `ROUND_UP` of a `size_t` -/
def roundUp (n s : Nat) : Nat := (n + s - 1) % 2 ^ 64 / s * s

namespace Process

variable (p : Process)

/-- `ashv_check_pid`: after a fork the table of the parent is dropped. -/
def checkPid : Process :=
  if p.pidSetup = 0 then { p with pidSetup := p.pid }
  else if p.pidSetup ≠ p.pid then
    { p with
      pidSetup := p.pid
      localSocketId := 0
      listening := false
      named := false
      lost := p.shmem.map Segment.descriptor ++ p.lost
      kept := p.mapped
      shmem := [] }
  else p

/-- `ashv_find_local_index` -/
def findLocalIndex (shmid : Int) : Option Nat := p.shmem.findIdx? fun segment => segment.id = shmid

/-- A new segment, with its descriptor -/
def add (segment : Segment) : Process :=
  { p with opened := segment.descriptor :: p.opened, shmem := p.shmem ++ [segment] }

/-- A descriptor that no segment has -/
def lose (descriptor : Descriptor) : Process := { p with opened := descriptor :: p.opened, lost := descriptor :: p.lost }

/-- `android_shmem_delete`; descriptor 0 is not closed. -/
def delete (i : Nat) : Process :=
  match p.shmem[i]? with
  | none => p
  | some segment =>
    { p with
      opened :=
        if segment.descriptor.number = 0 then p.opened
        else p.opened.eraseP fun d => d.number = segment.descriptor.number
      lost := if segment.descriptor.number = 0 then segment.descriptor :: p.lost else p.lost
      shmem := p.shmem.eraseIdx i }

/-- The identifier that was taken, or the next one; the counter has 15 bits. -/
def takeId (shmid : Option Int) : Process × Int :=
  match shmid with
  | some shmid => (p, shmid)
  | none =>
    let counter := (p.shmemCounter + 1) % 0x8000
    ({ p with shmemCounter := counter }, shmidFromCounter p.localSocketId counter)

/-- The call returns, and leaves the mutex. -/
def finish (result : Result) : Process := { p with call := .idle, result := some result }

/-- `munmap` of a segment; nothing is there at `NULL`. -/
def unmap (i : Nat) (shmaddr : Option Nat) : Process :=
  { p with
    mapped := p.mapped.eraseP fun m => some m.addr = shmaddr
    shmem := p.shmem.modify i fun segment => { segment with addr := none } }

/-- `shmdt` -/
def shmdt (shmaddr : Option Nat) : Process :=
  let p := p.checkPid
  match p.shmem.findIdx? fun segment => segment.addr = shmaddr with
  | none => p.finish (.code 0)
  | some i =>
    let p := p.unmap i shmaddr
    let gone := (p.shmem[i]?).any fun segment =>
      segment.markedForDeletion || socketIdFromShmid segment.id ≠ p.localSocketId
    (if gone then p.delete i else p).finish (.code 0)

/-- `IPC_RMID`: a segment that is attached goes when it is detached. -/
def remove (shmid : Int) : Process :=
  match p.findLocalIndex shmid with
  | none => p.finish (.code 0)
  | some i =>
    (if (p.shmem[i]?).any fun segment => segment.addr.isSome then
      { p with shmem := p.shmem.modify i fun segment => { segment with markedForDeletion := true } }
    else p.delete i).finish (.code 0)

/-- `IPC_STAT` -/
def stat (shmid : Int) (buf : Bool) : Process :=
  match if buf then (p.findLocalIndex shmid).bind fun i => p.shmem[i]? else none with
  | none => p.finish (.code (-1))
  | some segment => p.finish (.stat segment.size 1 segment.key)

/-- `shmctl` -/
def shmctl (shmid : Int) : Command → Process
  | .remove => p.checkPid.remove shmid
  | .stat buf => p.checkPid.stat shmid buf
  | .other => p.checkPid.finish (.code (-1))

end Process

/-! ## Calls -/

structure State where
  /-- `getpagesize` -/
  pageSize : Nat
  processes : Nat → Process
  /-- The names of sockets that are bound -/
  sockets : Nat → Option Socket
  /-- The links of keys -/
  links : Int → Option Int
  regions : List Region
  names : List Nat := []
  unlinked : List Int := []
  returned : List (Int × Int) := []

namespace State

variable (s : State) (n : Nat)

def setProcess (p : Process) : State := { s with processes := Function.update s.processes n p }

/-- The call goes on. -/
def setCall (call : Call) : State := s.setProcess n { s.processes n with call := call, result := none }

/-- The socket whose name is in an identifier -/
def socket (shmid : Int) : Option Socket :=
  if socketIdFromShmid shmid < 0 then none else s.sockets (socketIdFromShmid shmid).toNat

/-- The process that listens there -/
def listener (shmid : Int) : Option Nat :=
  match s.socket shmid with
  | some ⟨owner, true, _⟩ => some owner
  | _ => none

/-- The socket at which a process was asked, as long as it is there -/
def asked (shmid : Int) (owner : Nat) : Option Socket := (s.socket shmid).filter fun socket => socket.owner = owner

/-- The loop over `bind` -/
def bindLoop (pid : Nat) : Nat → Nat → Option Nat
  | 0, _ => none
  | fuel + 1, i =>
    let socketId := (pid + i) % 0x10000
    if s.sockets socketId = none then some socketId else bindLoop pid fuel (i + 1)

/-- The thread that listens is started, unless it is there. Nobody looks whether `pthread_create` made one. -/
def startThread (a : Answers) : State × Bool :=
  let p := s.processes n
  if p.listening then (s, true)
  -- `!sock`
  else if a.socket = some 0 then (s, false)
  else
    match if a.socket.isSome then s.bindLoop p.pid 4096 0 else none with
    | none => (s.setProcess n { p with localSocketId := 0, named := false }, false)
    | some socketId =>
      let listening := a.listen && (a.thread || a.threadId)
      ({ s.setProcess n { p with localSocketId := socketId, listening := listening, named := true } with
          sockets := Function.update s.sockets socketId (some ⟨n, a.listen, a.listen && a.thread⟩)
          names := socketId :: s.names },
        a.listen)

/-- `ashmem_get_size_region`, an `int` -/
def regionSize (region : Nat) (a : Answers) : Int :=
  match a.size, s.regions[region]? with
  | true, some r => Int.bmod r.size (2 ^ 32)
  | _, _ => -1

/-- `mmap` of a segment; a region is not mapped past its end. -/
def mmap (segment : Segment) (a : Answers) : Option Nat :=
  if segment.size = 0 ∨ ∀ r, s.regions[segment.descriptor.region]? = some r → r.size < segment.size then none else a.address

/-- The end of `shmget`, with a new region -/
def create (key : Int) (size : Nat) (shmid : Option Int) (a : Answers) : State :=
  let (p, shmid) := (s.processes n).takeId shmid
  let size := roundUp size s.pageSize
  match a.descriptor with
  | none => s.setProcess n (p.finish (.id (-1)))
  | some number =>
    let segment : Segment := ⟨shmid, none, ⟨number, s.regions.length⟩, size, false, key⟩
    { s.setProcess n ((p.add segment).finish (.id shmid)) with
      regions := s.regions ++ [⟨size, shmid, key⟩]
      returned := (key, shmid) :: s.returned }

/-- The end of `shmat` -/
def attach (shmid : Int) (i : Nat) (shmflg : Int) (a : Answers) : State :=
  let p := s.processes n
  match p.shmem[i]? with
  | none => s
  | some segment =>
    match segment.addr with
    | some addr => s.setProcess n (p.finish (.address shmid (some addr)))
    | none =>
      match s.mmap segment a with
      | none => s.setProcess n (p.finish (.address shmid none))
      | some addr =>
        s.setProcess n ({ p with
            mapped := ⟨addr, segment.descriptor.region, segment.size, shmflg = 0⟩ :: p.mapped
            shmem := p.shmem.modify i fun segment => { segment with addr := some addr } }.finish (.address shmid (some addr)))

/-- `ashv_read_remote_segment` failed. -/
def refuse (shmid : Int) : Purpose → State
  | .get key size taken => s.setCall n (.unlinking key size taken)
  | .attach _ => s.setProcess n ((s.processes n).finish (.address shmid none))

/-- `ashv_read_remote_segment` up to the request -/
def ask (shmid : Int) (purpose : Purpose) (a : Answers) : State :=
  match if a.connect then s.listener shmid else none with
  | none => s.refuse n shmid purpose
  | some owner => s.setCall n (.asking shmid owner none purpose)

/-- `ashv_read_remote_segment` from the reply on, and the call that it was for -/
def receive (shmid : Int) (reply : Reply) (purpose : Purpose) (a : Answers) : State :=
  match reply, a.descriptor with
  | .segment key region, some number =>
    let p := s.processes n
    let size := s.regionSize region a
    if size = 0 ∨ size = -1 then (s.setProcess n (p.lose ⟨number, region⟩)).refuse n shmid purpose
    else
      let segment : Segment := ⟨shmid, none, ⟨number, region⟩, (size % 2 ^ 64).toNat, false, key⟩
      match purpose with
      | .get wanted _ _ =>
        { s.setProcess n ((p.add segment).finish (.id shmid)) with returned := (wanted, shmid) :: s.returned }
      | .attach shmflg => (s.setProcess n (p.add segment)).attach n shmid p.shmem.length shmflg a
  | _, _ => s.refuse n shmid purpose

/-- `shmget` up to the mutex, and without a key to its end -/
def shmget (key : Int) (size : Nat) (a : Answers) : State :=
  match (s.setProcess n (s.processes n).checkPid).startThread n a with
  | (s, false) => s.setProcess n ((s.processes n).finish (.id (-1)))
  | (s, true) => if key = 0 then s.create n key size none a else s.setCall n (.reading key size none)

/-- `shmat` up to a request -/
def shmat (shmid shmflg : Int) (a : Answers) : State :=
  let s := s.setProcess n (s.processes n).checkPid
  let p := s.processes n
  match p.findLocalIndex shmid with
  | some i => s.attach n shmid i shmflg a
  | none =>
    if socketIdFromShmid shmid ≠ p.localSocketId then s.ask n shmid (.attach shmflg) a
    else s.setProcess n (p.finish (.address shmid none))

/-- A call that is not over takes a step. -/
def proceed (a : Answers) : Option State :=
  match (s.processes n).call with
  | .reading key size taken =>
    match s.links key with
    | none => some (s.setCall n (.linking key size taken))
    | some shmid =>
      if shmid = 0 then some (s.setCall n (.unlinking key size taken))
      else if ((s.processes n).findLocalIndex shmid).isSome then
        some { s.setProcess n ((s.processes n).finish (.id shmid)) with returned := (key, shmid) :: s.returned }
      else some (s.ask n shmid (.get key size taken) a)
  | .asking shmid _ (some reply) purpose => some (s.receive n shmid reply purpose a)
  | .unlinking key size taken =>
    some { s.setCall n (.linking key size taken) with
      links := Function.update s.links key none
      unlinked := key :: s.unlinked }
  | .linking key size taken =>
    let (p, shmid) := (s.processes n).takeId taken
    let s := s.setProcess n p
    if a.symlink ∧ s.links key = none then
      some ({ s with links := Function.update s.links key (some shmid) }.create n key size (some shmid) a)
    else some (s.setCall n (.reading key size (some shmid)))
  | _ => none

/-- `ashv_thread_function`: the thread of a process answers the request of another one. -/
def serve (asker : Nat) (sent : Bool) : Option State :=
  match (s.processes asker).call with
  | .asking shmid owner none purpose =>
    if owner = n ∧ (s.processes n).running ∧ (s.processes n).call = .idle ∧ (s.asked shmid n).any Socket.answered then
      let reply : Reply :=
        match ((s.processes n).findLocalIndex shmid).bind fun i => (s.processes n).shmem[i]? with
        | some segment => if sent then .segment segment.key segment.descriptor.region else .closed
        | none => .closed
      some (s.setCall asker (.asking shmid owner (some reply) purpose))
    else none
  | _ => none

/-- The socket that was asked is gone, and the connection with it. -/
def hangup : Option State :=
  match (s.processes n).call with
  | .asking shmid owner none purpose =>
    if (s.asked shmid owner).isSome then none else some (s.setCall n (.asking shmid owner (some .closed) purpose))
  | _ => none

/-- A call that waits is interrupted by a signal, or the thread closes the connection that it had accepted. -/
def interrupt : Option State :=
  match (s.processes n).call with
  | .asking shmid owner none purpose => some (s.setCall n (.asking shmid owner (some .closed) purpose))
  | _ => none

/-- `accept` fails, and the thread ends. -/
def endThread (socketId : Nat) : Option State :=
  match s.sockets socketId with
  | some ⟨owner, listening, true⟩ =>
    some { s with sockets := Function.update s.sockets socketId (some ⟨owner, listening, false⟩) }
  | _ => none

/-- A process ends, and its thread; its names stay bound while a child has the sockets. -/
def exit (inherited : Bool) : State :=
  { s.setProcess n { pid := (s.processes n).pid } with
    sockets := fun k =>
      match s.sockets k with
      | some socket =>
        if socket.owner ≠ n then some socket else if inherited then some { socket with answered := false } else none
      | none => none }

end State

/-! ## Steps -/

/-- The first argument is the process; each has a number that is not used again. -/
inductive Action where
  | start (n pid : Nat)
  /-- A process makes another one. -/
  | fork (n child pid : Nat)
  | exit (n : Nat) (inherited : Bool)
  /-- The last socket goes that a process left to its children. -/
  | unbind (socketId : Nat)
  | shmget (n : Nat) (key : Int) (size : Nat) (a : Answers)
  | shmat (n : Nat) (shmid shmflg : Int) (a : Answers)
  | shmdt (n : Nat) (shmaddr : Option Nat)
  | shmctl (n : Nat) (shmid : Int) (cmd : Command)
  | proceed (n : Nat) (a : Answers)
  | serve (n asker : Nat) (sent : Bool)
  | hangup (n : Nat)
  | interrupt (n : Nat)
  | endThread (socketId : Nat)
  deriving DecidableEq, Repr

namespace Process

/-- The kernel gives numbers and addresses that are not in use. -/
def Fresh (p : Process) (a : Answers) : Prop :=
  (∀ number ∈ a.descriptor, ∀ d ∈ p.opened, d.number ≠ number) ∧
    ∀ addr ∈ a.address, addr ≠ 0 ∧ ∀ m ∈ p.mapped, m.addr ≠ addr

instance (p : Process) (a : Answers) : Decidable (p.Fresh a) := by
  unfold Fresh
  infer_instance

/-- The process can make a call. -/
def Ready (p : Process) : Prop := p.running = true ∧ p.call = .idle

instance (p : Process) : Decidable p.Ready := by
  unfold Ready
  infer_instance

end Process

def step (s : State) : Action → Option State
  | .start n pid => if (s.processes n).pid = 0 ∧ pid ≠ 0 then some (s.setProcess n { pid, running := true }) else none
  | .fork n child pid =>
    if (s.processes n).running ∧ (s.processes child).pid = 0 ∧ pid ≠ 0 then
      some (s.setProcess child { s.processes n with pid, call := .idle, result := none })
    else none
  | .exit n inherited => if (s.processes n).running then some (s.exit n inherited) else none
  | .unbind socketId =>
    if (s.sockets socketId).any fun socket => !(s.processes socket.owner).running then
      some { s with sockets := Function.update s.sockets socketId none }
    else none
  | .shmget n key size a => if (s.processes n).Ready ∧ (s.processes n).Fresh a then some (s.shmget n key size a) else none
  | .shmat n shmid shmflg a => if (s.processes n).Ready ∧ (s.processes n).Fresh a then some (s.shmat n shmid shmflg a) else none
  | .shmdt n shmaddr =>
    if (s.processes n).Ready ∧ ∀ addr ∈ shmaddr, addr ≠ 0 then some (s.setProcess n ((s.processes n).shmdt shmaddr)) else none
  | .shmctl n shmid cmd => if (s.processes n).Ready then some (s.setProcess n ((s.processes n).shmctl shmid cmd)) else none
  | .proceed n a => if (s.processes n).running ∧ (s.processes n).Fresh a then s.proceed n a else none
  | .serve n asker sent => s.serve n asker sent
  | .hangup n => s.hangup n
  | .interrupt n => s.interrupt n
  | .endThread socketId => s.endThread socketId

/-- No process runs yet. -/
def State.start (pageSize : Nat) : State where
  pageSize := pageSize
  processes _ := {}
  sockets _ := none
  links _ := none
  regions := []

end Lorie.SharedMemory
