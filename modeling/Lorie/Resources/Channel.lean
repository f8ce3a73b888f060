import Lorie.Lib.Transition
import Mathlib.Algebra.GroupWithZero.Nat
import Mathlib.Logic.Function.Basic

/-!
# Resource channels of X clients

A client may be admitted with a channel: a `SOCK_SEQPACKET` endpoint whose issuer answers requests for shared memory with
a backing and a lease descriptor. `ProcShmAttach` asks through the channel, rewinds the request and ignores the client
until the reply, an error or the deadline; the replayed request then takes what is in the slot (`lorieResourcesShm`) and
maps it (`ShmAttachMemory`).

The environment answers for the kernel, the allocators and the X server; the issuer sends any packet, but at most one for
each request it got. Descriptors are named by the order in which they are installed here. Everything runs on the X
thread: a call is one step.

History: what was sent and answered on a channel (`requests`, `answered`, `replyTo`, `heard`), and in the state
`closed`, `handed`, `direct`, `shmClosed`, `channelClients` and `native`. No step reads them, except that the issuer's packets are
limited by `requests` and `answered`.
-/

namespace Lorie.Resources

open Lorie.Lib

/-! ## Errors -/

def eintr : Int := 4
def eagain : Int := 11
def enomem : Int := 12
def epipe : Int := 32
def eproto : Int := 71
def etimedout : Int := 110

/-! ## Packets -/

abbrev Fd := Nat

/-- `lorie_resource_request`, without its constants; `readonly` is its flag. -/
structure Request where
  id : Nat
  readonly : Bool
  deriving DecidableEq, Repr

/-- `lorie_resource_reply` -/
structure Reply where
  error : Int
  reserved : Nat
  size : Nat
  deriving DecidableEq, Repr

/-- A control message: descriptors, or anything that `receive` refuses. -/
inductive Control where
  | rights (count : Nat)
  | other
  deriving DecidableEq, Repr

/-- What `recvmsg` gives for a packet. -/
structure Packet where
  /-- The result of `recvmsg`. -/
  bytes : Nat
  /-- `MSG_TRUNC` or `MSG_CTRUNC` -/
  truncated : Bool
  control : List Control
  reply : Reply
  deriving DecidableEq, Repr

/-- The end of the stream. -/
def Packet.eof : Packet := ⟨0, false, [], ⟨0, 0, 0⟩⟩

/-- How many descriptors are installed with a packet. -/
def Packet.descriptors (p : Packet) : Nat :=
  (p.control.map fun c => match c with | .rights count => count | .other => 0).sum

/-- What `receive` finds malformed. -/
def Packet.malformed (p : Packet) (size : Nat) : Bool :=
  p.truncated || p.control.contains .other || 2 < p.descriptors || p.bytes ≠ size

/-- `sizeof(struct lorie_resource_reply)` -/
def replySize : Nat := 16

/-- What `receive` returns: the error, the descriptors that it gives to its caller and those that it closed. -/
structure Receipt where
  error : Int
  fds : List Fd
  closed : List Fd
  deriving DecidableEq, Repr

/-- `receive` of a packet whose descriptors are numbered from `next`. -/
def receive (p : Packet) (size next : Nat) : Receipt :=
  let fds := List.range' next p.descriptors
  if p.malformed size then ⟨-eproto, [], fds⟩ else ⟨0, fds, []⟩

/-- The check of `progress` on a reply that was received whole. -/
def Reply.valid (r : Reply) (count : Nat) : Bool :=
  !(r.error > 0 || r.error < -4095 || r.reserved ≠ 0 ||
    (if r.error ≠ 0 then count ≠ 0 || r.size ≠ 0 else count ≠ 2 || r.size = 0))

/-- The packets that `progress` takes as an answer. -/
def Packet.accepted (p : Packet) : Bool := !p.malformed replySize && p.reply.valid p.descriptors

/-! ## Channels -/

/-- What `SetNotifyFd` waits for. -/
inductive Notify where
  | read
  | write
  deriving DecidableEq, Repr

/-- `resource_client` and the socket behind its descriptor. -/
structure Channel where
  fd : Option Fd
  watch : Option Notify
  pending : Bool
  ready : Bool
  sent : Bool
  rights : List Fd
  request : Request
  reply : Reply
  /-- `none` is a null timer, `some true` an armed one. -/
  timer : Option Bool
  /-- What the issuer sent and was not received: the number of the request, and the packet. -/
  packets : List (Nat × Packet)
  /-- History: the requests that were sent. -/
  requests : List Request
  /-- History: the requests that the issuer answered. -/
  answered : List Nat
  /-- History: how many packets were received. -/
  heard : Nat
  /-- History: the request whose answer is in the slot. -/
  replyTo : Option Nat
  deriving DecidableEq, Repr

namespace Channel

/-- The channel of a client that was admitted with an endpoint. -/
def new (fd : Fd) : Channel :=
  { fd := some fd, watch := none, pending := false, ready := false, sent := false, rights := [], request := ⟨0, false⟩,
    reply := ⟨0, 0, 0⟩, timer := none, packets := [], requests := [], answered := [], heard := 0, replyTo := none }

/-- `disconnect`, and what it closes. -/
def disconnect (r : Channel) : Channel × List Fd :=
  ({ r with fd := none, watch := none, packets := [] }, r.fd.toList)

/-- `finish`, and what it closes. -/
def finish (r : Channel) (error : Int) : Channel × List Fd :=
  let r := { r with timer := r.timer.map fun _ => false, watch := none }
  if error ≠ 0 then
    let (d, closed) := r.disconnect
    ({ d with rights := [], reply := ⟨error, 0, 0⟩, ready := true }, closed ++ r.rights)
  else ({ r with ready := true }, [])

/-- What `send` comes to. -/
inductive Send where
  | again
  | failed
  | done
  deriving DecidableEq, Repr

/-- What `recvmsg` finds. -/
def nextPacket (r : Channel) : Packet :=
  match r.packets with
  | (_, p) :: _ => p
  | [] => .eof

/-- The receiving half of `progress`: an error of `recvmsg`, or the next packet. -/
def hear (r : Channel) (errno : Option Int) (next : Nat) : Channel × List Fd × Nat :=
  match errno with
  | some e =>
    let r := { r with rights := [] }
    if e = eintr ∨ e = eagain then (r, [], next)
    else
      let (r, closed) := r.finish (-e)
      (r, closed, next)
  | none =>
    let p := r.nextPacket
    let got := receive p replySize next
    let r := { r with
      packets := r.packets.tail
      heard := r.heard + 1
      replyTo := r.packets.head?.map Prod.fst
      reply := p.reply
      rights := got.fds }
    let error := if got.error = 0 ∧ !p.reply.valid got.fds.length then -eproto else got.error
    let (r, closed) := r.finish error
    (r, got.closed ++ closed, next + p.descriptors)

/-- `progress`: the channel, what was closed, and the next descriptor. -/
def progress (r : Channel) (send : Send) (setNotifyFd : Bool) (errno : Option Int) (next : Nat) :
    Channel × List Fd × Nat :=
  if r.sent then r.hear errno next
  else
    match send with
    | .again => (r, [], next)
    | .failed =>
      let (r, closed) := r.finish (-epipe)
      (r, closed, next)
    | .done =>
      let r := { r with sent := true, requests := r.requests ++ [r.request] }
      if setNotifyFd then { r with watch := some .read }.hear errno next
      else
        let (r, closed) := r.finish (-enomem)
        (r, closed, next)

/-- `TimerSet`, which allocates a timer only when there is none. -/
def setTimer (r : Channel) (timerSet : Bool) : Option Bool :=
  if r.timer.isSome || timerSet then some true else none

/-- What `lorieResourcesShm` returns. -/
structure Shm where
  error : Int
  fds : List Fd
  size : Nat
  deriving DecidableEq, Repr

/-- `lorieResourcesShm` of a client with a channel: the result, the channel and what was closed. -/
def lorieResourcesShm (r : Channel) (id : Nat) (readonly timerSet setNotifyFd : Bool) : Shm × Channel × List Fd :=
  if r.ready then
    let r := { r with ready := false, pending := false }
    if r.request ≠ ⟨id, readonly⟩ then
      let (d, closed) := r.disconnect
      (⟨-eproto, [], 0⟩, { d with rights := [] }, closed ++ r.rights)
    else if r.reply.error ≠ 0 then (⟨r.reply.error, [], 0⟩, r, [])
    else (⟨0, r.rights, r.reply.size⟩, { r with rights := [] }, [])
  else if r.fd = none then (⟨-epipe, [], 0⟩, r, [])
  else if r.pending then (⟨-eagain, [], 0⟩, r, [])
  else
    let r := { r with request := ⟨id, readonly⟩, sent := false, timer := r.setTimer timerSet }
    if r.timer = none ∨ !setNotifyFd then
      let (d, closed) := r.disconnect
      (⟨-enomem, [], 0⟩, d, closed)
    else (⟨-eagain, [], 0⟩, { r with watch := some .write, pending := true }, [])

end Channel

/-! ## The server -/

/-- A client of the X server. -/
structure Client where
  /-- The clients are numbered as they connect. -/
  serial : Nat
  channel : Option Channel
  /-- `IgnoreClient` without `AttendClient`. -/
  ignored : Bool
  deriving DecidableEq, Repr

/-- A segment of `Shmsegs` that maps a descriptor. -/
structure Segment where
  resource : Nat
  refcnt : Nat
  lease : Option Fd
  deriving DecidableEq, Repr

/-- A successful return of `lorieResourcesShm`. -/
structure Handout where
  request : Request
  backing : Fd
  lease : Fd
  /-- History: the request that the issuer answered. -/
  answers : Option Request
  deriving DecidableEq, Repr

/-- The X server; `n` is `MAXCLIENTS`. -/
structure State (n : Nat) where
  clients : Fin n → Option Client
  admissions : Nat
  segments : List Segment
  /-- The number of the next client. -/
  connects : Nat
  /-- The number of the next descriptor. -/
  next : Nat
  /-- History: what the channels closed. -/
  closed : List Fd
  /-- History: what `lorieResourcesShm` returned. -/
  handed : List Handout
  /-- History: what clients passed with `ShmAttachFd`. -/
  direct : List Fd
  /-- History: what `ShmAttachMemory` and `ShmDetachSegment` closed. -/
  shmClosed : List Fd
  /-- History: the clients that were admitted with a channel. -/
  channelClients : List Nat
  /-- History: the clients whose `ShmAttach` came to `shmat`. -/
  native : List Nat

/-- What the environment answers to `ShmAttachMemory`. -/
structure Attach where
  /-- `st_size`, when `fstat` succeeds. -/
  fstat : Option Int
  malloc : Bool
  mmap : Bool
  busfault : Bool
  addResource : Bool
  deriving DecidableEq, Repr

namespace State

variable {n : Nat}

def init (n : Nat) : State n :=
  { clients := fun _ => none, admissions := 0, segments := [], connects := 0, next := 0, closed := [], handed := [],
    direct := [], shmClosed := [], channelClients := [], native := [] }

/-- The channel of a client (`resources[client->index]`). -/
def channel (s : State n) (i : Fin n) : Option Channel := (s.clients i).bind (·.channel)

/-- `ShmAttachMemory` -/
def shmAttachMemory (s : State n) (resource : Nat) (fd : Fd) (lease : Option Fd) (size : Nat) (env : Attach) : State n :=
  let failed : State n := { s with shmClosed := s.shmClosed ++ fd :: lease.toList }
  match env.fstat with
  | none => failed
  | some st_size =>
    if st_size ≤ 0 ∨ (size ≠ 0 ∧ (size : Int) > st_size) then failed
    else if !env.malloc then failed
    else if !env.mmap then failed
    else if !env.busfault then failed
    else if !env.addResource then failed  -- `AddResource` calls `ShmDetachSegment`
    else
      { s with
        shmClosed := s.shmClosed ++ [fd]
        segments := ⟨resource, 1, lease⟩ :: s.segments }

/-- `ShmDetachSegment` -/
def shmDetachSegment (s : State n) (k : Nat) : State n :=
  match s.segments[k]? with
  | none => s
  | some seg =>
    if seg.refcnt > 1 then { s with segments := s.segments.set k { seg with refcnt := seg.refcnt - 1 } }
    else { s with segments := s.segments.eraseIdx k, shmClosed := s.shmClosed ++ seg.lease.toList }

/-- `ProcShmAttach` of a valid request. -/
def procShmAttach (s : State n) (i : Fin n) (resource id : Nat) (readonly timerSet setNotifyFd : Bool) (env : Attach) :
    State n :=
  match s.clients i with
  | none => s
  | some client =>
    match client.channel with
    | none => { s with native := s.native ++ [client.serial] }
    | some r =>
      let (result, r, closed) := r.lorieResourcesShm id readonly timerSet setNotifyFd
      let s : State n := { s with
        clients := Function.update s.clients i (some { client with channel := some r })
        closed := s.closed ++ closed }
      if result.error = -eagain then
        { s with clients := Function.update s.clients i (some { client with channel := some r, ignored := true }) }
      else if result.error ≠ 0 then s
      else
        -- a valid reply without an error has two descriptors
        match result.fds with
        | [backing, lease] =>
          let s : State n := { s with
            handed := s.handed ++ [⟨⟨id, readonly⟩, backing, lease, r.replyTo.bind (r.requests[·]?)⟩] }
          s.shmAttachMemory resource backing (some lease) result.size env
        | _ => s

/-- A callback of a channel, with what it closed and installed; a pending client is attended once the slot is ready. -/
def callback (s : State n) (i : Fin n) (client : Client) (r : Channel) (closed : List Fd) (next : Nat) : State n :=
  { s with
    clients := Function.update s.clients i
      (some { client with channel := some r, ignored := client.ignored && !(r.ready && r.pending) })
    closed := s.closed ++ closed
    next := next }

/-- `client_state` of a client that is gone. -/
def clientState (s : State n) (i : Fin n) : State n :=
  match s.clients i with
  | none => s
  | some client =>
    { s with
      clients := Function.update s.clients i none
      closed := s.closed ++ (match client.channel with | some r => r.fd.toList ++ r.rights | none => []) }

end State

/-- What an admitted socket brings first. -/
inductive Hello where
  /-- `EINTR` or `EAGAIN` -/
  | again
  /-- The end of the stream, an error, or another byte. -/
  | refused
  /-- `'l'` or `'B'` -/
  | x11
  /-- `LORIE_RESOURCE_HELLO` with the packet that carries it; `ok` is the check of the socket's type and `calloc`. -/
  | resource (p : Packet) (ok : Bool)
  deriving DecidableEq, Repr

inductive Action (n : Nat) where
  /-- `lorieResourcesAccept`; `ok` is whether `calloc`, `TimerSet` and `SetNotifyFd` succeed. -/
  | accept (ok : Bool)
  /-- `admission_expired` -/
  | admissionExpired
  /-- `admit`; `client` is what `AddAuthenticatedClientOnOpenFD` returns. -/
  | admitClient (hello : Hello) (client : Option (Fin n))
  /-- `ProcShmAttach` -/
  | shmAttach (i : Fin n) (resource id : Nat) (readonly timerSet setNotifyFd : Bool) (env : Attach)
  /-- `ProcShmAttachFd` -/
  | shmAttachFd (resource : Nat) (env : Attach)
  /-- `progress` -/
  | progress (i : Fin n) (send : Channel.Send) (setNotifyFd : Bool) (errno : Option Int)
  /-- `expired` -/
  | expired (i : Fin n)
  /-- The issuer answers one of the requests. -/
  | issue (i : Fin n) (request : Nat) (p : Packet)
  /-- `client_state` -/
  | clientGone (i : Fin n)
  /-- Another reference to a segment. -/
  | share (k : Nat)
  /-- `ShmDetachSegment` -/
  | detach (k : Nat)

namespace State

variable {n : Nat}

/-- `AddAuthenticatedClientOnOpenFD`, and the channel of the new client. -/
def connect (s : State n) (i : Fin n) (channel : Option Channel) : State n :=
  { s with
    clients := Function.update s.clients i (some ⟨s.connects, channel, false⟩)
    connects := s.connects + 1
    channelClients := s.channelClients ++ if channel.isSome then [s.connects] else [] }

/-- `admit` -/
def admitClient (s : State n) (hello : Hello) (client : Option (Fin n)) : State n :=
  let left : State n := { s with admissions := s.admissions - 1 }
  match hello with
  | .again => s
  | .refused => left
  | .x11 =>
    match client with
    | some i => left.connect i none
    | none => left
  | .resource p ok =>
    let got := receive p 1 s.next
    let left := { left with next := s.next + p.descriptors }
    match got.error, got.fds, ok, client with
    | 0, [fd], true, some i => left.connect i (some (.new fd))
    | 0, [fd], true, none => { left with closed := left.closed ++ [fd] }
    | _, _, _, _ => { left with closed := left.closed ++ got.closed ++ got.fds }

/-- One call on the X thread, or one packet of an issuer. -/
def step (s : State n) : Action n → Option (State n)
  | .accept ok => some (if s.admissions < n ∧ ok then { s with admissions := s.admissions + 1 } else s)
  | .admissionExpired => if 0 < s.admissions then some { s with admissions := s.admissions - 1 } else none
  | .admitClient hello client =>
    if 0 < s.admissions ∧ ∀ i ∈ client, s.clients i = none then some (s.admitClient hello client) else none
  | .shmAttach i resource id readonly timerSet setNotifyFd env =>
    if (s.clients i).isSome then some (s.procShmAttach i resource id readonly timerSet setNotifyFd env) else none
  | .shmAttachFd resource env =>
    some ({ s with next := s.next + 1, direct := s.direct ++ [s.next] }.shmAttachMemory resource s.next none 0 env)
  | .progress i send setNotifyFd errno =>
    match s.clients i with
    | some client =>
      match client.channel with
      | some r =>
        if r.watch.isSome ∧ ∀ e ∈ errno, 0 < e then
          let (r, closed, next) := r.progress send setNotifyFd errno s.next
          some (s.callback i client r closed next)
        else none
      | none => none
    | none => none
  | .expired i =>
    match s.clients i with
    | some client =>
      match client.channel with
      | some r =>
        if r.timer = some true then
          let (r, closed) := r.finish (-etimedout)
          some (s.callback i client r closed s.next)
        else none
      | none => none
    | none => none
  | .issue i request p =>
    match s.clients i with
    | some client =>
      match client.channel with
      | some r =>
        if r.fd.isSome ∧ request < r.requests.length ∧ request ∉ r.answered then
          some { s with clients := Function.update s.clients i (some { client with channel := some { r with
            packets := r.packets ++ [(request, p)], answered := r.answered ++ [request] } }) }
        else none
      | none => none
    | none => none
  | .clientGone i => if (s.clients i).isSome then some (s.clientState i) else none
  | .share k =>
    match s.segments[k]? with
    | some seg => some { s with segments := s.segments.set k { seg with refcnt := seg.refcnt + 1 } }
    | none => none
  | .detach k => if k < s.segments.length then some (s.shmDetachSegment k) else none

end State

end Lorie.Resources
