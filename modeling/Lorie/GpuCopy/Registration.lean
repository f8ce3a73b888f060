import Lorie.Lib.Transition
import Lorie.GpuCopy.Queue

/-!
# Buffers named by queued copies

The X server names the buffers of a queued copy by their ids and sends the buffers themselves over the socket of the
connection (`lorieRegisterBuffer`, `lorieUnregisterBuffer`). The ring lives in shared memory that every connection maps;
the events of a connection are delivered in order. The ring is the list of its unconsumed entries, by `reach_fifo`.

The renderer's worker waits at an entry one of whose buffers is missing. It is woken when that buffer arrives, so an
`EVENT_ADD_BUFFER` for it has to be on its way. `Named` says that every buffer of a queued copy is there, or will be
once the events of the current connection are delivered. It is kept by every step under the condition `KeepsBuffers`:
no buffer of an unconsumed entry is unregistered, no connection is installed while such an entry names more than the
root buffer, and buffers are registered on a connection that takes the event.
-/

namespace Lorie.Registration

open Lorie.Lib

/-- The events that carry buffers. -/
inductive Event where
  /-- `EVENT_SHARED_SERVER_STATE` -/
  | sharedServerState
  /-- `EVENT_ADD_BUFFER` -/
  | addBuffer (id : Nat)
  /-- `EVENT_REMOVE_BUFFER` -/
  | removeBuffer (id : Nat)
  deriving DecidableEq, Repr

/-- The buffers that an entry of the ring names. -/
structure Entry where
  srcBufferId : Nat
  dstBufferId : Nat
  deriving DecidableEq, Repr

def Entry.ids (e : Entry) : List Nat := [e.srcBufferId, e.dstBufferId]

structure State where
  /-- How often the host called `lorieServerConnect`. -/
  connects : Nat
  /-- The connection that was installed last. -/
  conn : Nat
  /-- `conn_fd != -1` -/
  connected : Bool
  registeredBuffers : List Nat
  /-- The buffer of the screen pixmap. -/
  root : Nat
  /-- The buffers of the other pixmaps. -/
  pixmaps : List Nat
  /-- The id of the next buffer. -/
  nextId : Nat
  /-- The copies that a `present_vblank` waits for; each holds a reference on its source pixmap. -/
  vblanks : List Entry
  /-- The unconsumed entries of the ring. -/
  ring : List Entry
  /-- The events of a connection that were not delivered yet. -/
  chan : Nat → List Event
  /-- The connection that the renderer reads from. -/
  attached : Option Nat
  /-- The last connection that the renderer was given. -/
  lastAttached : Nat
  /-- `state != nullptr` in the renderer -/
  mapped : Bool
  addedBuffers : List Nat
  buffers : List Nat
  removedBuffers : List Nat
  copyWaitingForBuffer : Bool
  connectionFailed : Bool

/-- The server with its root pixmap, before the first connection. -/
def State.init : State :=
  { connects := 0, conn := 0, connected := false, registeredBuffers := [], root := 0, pixmaps := [], nextId := 1,
    vblanks := [], ring := [], chan := fun _ => [], attached := none, lastAttached := 0, mapped := false,
    addedBuffers := [], buffers := [], removedBuffers := [], copyWaitingForBuffer := false, connectionFailed := false }

inductive Action where
  /-- `lorieCreatePixmap`: a client's pixmap, or the backing pixmap of a redirected window. -/
  | createPixmap
  /-- `lorieTryScheduleGpuCopy`; the flags say whether the events of `lorieRegisterBuffer` can be sent. -/
  | schedule (src dst : Nat) (srcSent dstSent : Bool)
  /-- `lorieGpuCopyAck`, after which the vblank goes. -/
  | ack (e : Entry)
  /-- `lorieExaDestroyPixmap`, also of the old pixmap of a redirected window that was resized. -/
  | destroyPixmap (id : Nat)
  /-- `lorieRRScreenSetSize` -/
  | screenSetSize (sent : Bool)
  /-- `lorieRegisterBuffer` of a layer in `loriePublishOutputs`. -/
  | publish (id : Nat) (sent : Bool)
  /-- `lorieServerConnect` -/
  | connect
  /-- The work item of `lorieServerConnect`. -/
  | install (sent : Bool)
  /-- The error path of `handleLorieEvents`. -/
  | hangup
  /-- The work item that the error path queues. -/
  | reset
  /-- `LorieConnection::connect` with the descriptor of a later connection. -/
  | attach (conn : Nat)
  /-- `LorieConnection::disconnect` -/
  | detach
  /-- `LorieConnection::receive` of the next event. -/
  | receive
  /-- The loop of `threadLoop` over `addedBuffers`. -/
  | attachBuffer
  /-- `applyPendingGpuCopiesLocked` at the head entry. -/
  | copy (ok : Bool)
  /-- The loop of `threadLoop` over `removedBuffers`. -/
  | releaseBuffers
  deriving DecidableEq, Repr

namespace State

/-- An event is written to the current connection. -/
def send (s : State) (e : Event) : State :=
  { s with chan := Function.update s.chan s.conn (s.chan s.conn ++ [e]) }

/-- `lorieRegisterBuffer`; a failed send shuts the socket down, and the buffer is not registered. -/
def lorieRegisterBuffer (s : State) (id : Nat) (sent : Bool) : State :=
  if ¬ s.connected ∨ id ∈ s.registeredBuffers then s
  else if sent then { s.send (.addBuffer id) with registeredBuffers := id :: s.registeredBuffers }
  else s

/-- `lorieUnregisterBuffer` -/
def lorieUnregisterBuffer (s : State) (id : Nat) : State :=
  if id ∈ s.registeredBuffers ∧ s.connected then
    { s.send (.removeBuffer id) with registeredBuffers := s.registeredBuffers.erase id }
  else s

/-- The pixmap of a new screen size takes the place of the old one. -/
def newRoot (s : State) : State := { s with root := s.nextId, nextId := s.nextId + 1 }

/-- The next connection takes the place of the old one, and the shared state is sent to it. -/
def newConnection (s : State) : State :=
  { s with conn := s.conn + 1, connected := true, registeredBuffers := [] }.send .sharedServerState

/-- `removeBuffer` of the renderer -/
def removeBuffer (s : State) (id : Nat) : State :=
  if id ∈ s.addedBuffers then { s with addedBuffers := s.addedBuffers.erase id }
  else if id ∈ s.buffers then
    { s with buffers := s.buffers.erase id, removedBuffers := id :: s.removedBuffers }
  else s

/-- `setSharedState(nullptr)` and `removeAllBuffers` -/
def disconnect (s : State) : State :=
  { s with
    mapped := false, connectionFailed := false, copyWaitingForBuffer := false
    addedBuffers := [], removedBuffers := s.buffers ++ s.removedBuffers, buffers := [] }

/-- `findBuffer` of a buffer that is there: it is moved to `buffers`. -/
def findBuffer (s : State) (id : Nat) : State :=
  if id ∈ s.buffers then s
  else { s with addedBuffers := s.addedBuffers.erase id, buffers := id :: s.buffers }

/-- The buffers that `findBuffer` finds. -/
def present (s : State) : List Nat := s.addedBuffers ++ s.buffers

/-- What the renderer does with an event. -/
def deliver (s : State) : Event → State
  | .sharedServerState => { s with mapped := true, connectionFailed := false, copyWaitingForBuffer := false }
  | .addBuffer id => { s with addedBuffers := id :: s.addedBuffers }
  | .removeBuffer id => s.removeBuffer id

/-- One step of the X server, of the host or of the renderer. -/
def step (s : State) : Action → Option State
  | .createPixmap => some { s with pixmaps := s.nextId :: s.pixmaps, nextId := s.nextId + 1 }
  | .schedule src dst srcSent dstSent =>
    if src ∈ s.pixmaps ∧ (dst = s.root ∨ dst ∈ s.pixmaps) ∧ s.ring.length < queueCapacity then
      let s₁ := s.lorieRegisterBuffer src srcSent
      -- the screen pixmap has its own lifecycle and is not registered here
      let s₂ := if dst = s.root then s₁ else s₁.lorieRegisterBuffer dst dstSent
      some { s₂ with ring := s.ring ++ [⟨src, dst⟩], vblanks := ⟨src, dst⟩ :: s.vblanks }
    else none
  | .ack e => if e ∈ s.vblanks then some { s with vblanks := s.vblanks.erase e } else none
  | .destroyPixmap id =>
    if id ∈ s.pixmaps ∧ ∀ e ∈ s.vblanks, e.srcBufferId ≠ id then
      some { s.lorieUnregisterBuffer id with pixmaps := s.pixmaps.erase id }
    else none
  | .screenSetSize sent => some ((s.newRoot.lorieUnregisterBuffer s.root).lorieRegisterBuffer s.nextId sent)
  | .publish id sent => if id = s.root ∨ id ∈ s.pixmaps then some (s.lorieRegisterBuffer id sent) else none
  | .connect => some { s with connects := s.connects + 1 }
  | .install sent =>
    if s.conn < s.connects then some (s.newConnection.lorieRegisterBuffer s.root sent) else none
  | .hangup => if s.connected then some { s with connected := false } else none
  | .reset => some { s with registeredBuffers := [] }
  | .attach conn =>
    if s.lastAttached < conn ∧ conn ≤ s.connects then
      some { s.disconnect with attached := some conn, lastAttached := conn }
    else none
  | .detach => some { s.disconnect with attached := none }
  | .receive =>
    match s.attached with
    | none => none
    | some k =>
      match s.chan k with
      | [] => none
      | e :: es => some ({ s with chan := Function.update s.chan k es }.deliver e)
  | .attachBuffer =>
    match s.addedBuffers with
    | [] => none
    | b :: bs => some { s with addedBuffers := bs, buffers := b :: s.buffers, copyWaitingForBuffer := false }
  | .copy ok =>
    match s.ring with
    | [] => none
    | e :: es =>
      if s.mapped ∧ ¬ s.connectionFailed then
        if e.srcBufferId ∈ s.present ∧ e.dstBufferId ∈ s.present then
          let s₁ := (s.findBuffer e.srcBufferId).findBuffer e.dstBufferId
          some (if ok then { s₁ with ring := es } else { s₁ with connectionFailed := true })
        else some { s with copyWaitingForBuffer := true }
      else none
  | .releaseBuffers => some { s with removedBuffers := [] }

/-! ## What the renderer will have -/

/-- What an event does to the buffers that the renderer finds. -/
def view (l : List Nat) : Event → List Nat
  | .sharedServerState => l
  | .addBuffer id => id :: l
  | .removeBuffer id => l.erase id

/-- The buffers that the renderer finds once the events of the current connection are delivered. A connection that it
does not read from will be read from the start. -/
def eventual (s : State) : List Nat := (s.chan s.conn).foldl view (if s.attached = some s.conn then s.present else [])

theorem deliver_present (s : State) (e : Event) : (s.deliver e).present = view s.present e := by
  cases e with
  | sharedServerState => rfl
  | addBuffer id => rfl
  | removeBuffer id =>
    simp only [deliver, removeBuffer, view]
    split
    · rename_i h
      simp [present, List.erase_append_left _ h]
    · rename_i h
      split
      · simp [present, List.erase_append_right _ h]
      · rename_i h'
        rw [List.erase_of_not_mem (by simp [present, h, h'])]

theorem view_perm {l₁ l₂ : List Nat} (h : l₁.Perm l₂) (e : Event) : (view l₁ e).Perm (view l₂ e) := by
  cases e with
  | sharedServerState => exact h
  | addBuffer id => exact h.cons id
  | removeBuffer id => exact h.erase id

theorem foldl_view_perm (es : List Event) {l₁ l₂ : List Nat} (h : l₁.Perm l₂) :
    (es.foldl view l₁).Perm (es.foldl view l₂) := by
  induction es generalizing l₁ l₂ with
  | nil => exact h
  | cons e es ih => exact ih (view_perm h e)

/-- A buffer that will be there is there already, or its event is on its way. -/
theorem mem_foldl_view {es : List Event} {l : List Nat} {id : Nat} (h : id ∈ es.foldl view l) :
    id ∈ l ∨ .addBuffer id ∈ es := by
  induction es generalizing l with
  | nil => exact .inl h
  | cons e es ih =>
    rcases ih h with h | h
    · cases e with
      | sharedServerState => exact .inl h
      | addBuffer id' =>
        rcases List.mem_cons.1 h with rfl | h
        · exact .inr List.mem_cons_self
        · exact .inl h
      | removeBuffer id' => exact .inl (List.mem_of_mem_erase h)
    · exact .inr (List.mem_cons_of_mem _ h)

theorem eventual_send (s : State) (e : Event) : (s.send e).eventual = view s.eventual e := by
  unfold eventual send
  simp only [Function.update_self, List.foldl_append, List.foldl_cons, List.foldl_nil]
  rfl

/-- Moving buffers between the renderer's lists changes nothing. -/
theorem mem_eventual_of_perm {s t : State} (hchan : t.chan = s.chan) (hconn : t.conn = s.conn)
    (hatt : t.attached = s.attached) (hp : t.present.Perm s.present) (id : Nat) : id ∈ t.eventual ↔ id ∈ s.eventual := by
  unfold eventual
  rw [hchan, hconn, hatt]
  refine (foldl_view_perm _ ?_).mem_iff
  split
  · exact hp
  · exact List.Perm.refl _

/-! ## Registering -/

theorem register_eq (s : State) (id : Nat) (sent : Bool) :
    (s.lorieRegisterBuffer id sent = s ∧ (id ∈ s.registeredBuffers ∨ ¬ (s.connected ∧ sent))) ∨
      (id ∉ s.registeredBuffers ∧ s.connected ∧ s.lorieRegisterBuffer id sent =
        { s.send (.addBuffer id) with registeredBuffers := id :: s.registeredBuffers }) := by
  unfold lorieRegisterBuffer
  split
  · rename_i h
    exact .inl ⟨rfl, h.symm.imp_right fun h hc => h hc.1⟩
  · rename_i h
    rw [not_or, not_not] at h
    split
    · exact .inr ⟨h.2, h.1, rfl⟩
    · rename_i hs
      exact .inl ⟨rfl, .inr fun hc => hs hc.2⟩

/-- Every registered buffer will be there. -/
def Registered (s : State) : Prop := ∀ id ∈ s.registeredBuffers, id ∈ s.eventual

/-- Registering a buffer takes none away. -/
theorem mem_eventual_register {s : State} {id' : Nat} (id : Nat) (sent : Bool) (h : id' ∈ s.eventual) :
    id' ∈ (s.lorieRegisterBuffer id sent).eventual := by
  rcases register_eq s id sent with ⟨he, -⟩ | ⟨-, -, he⟩
  · rw [he]
    exact h
  · rw [he]
    show id' ∈ (s.send (.addBuffer id)).eventual
    rw [eventual_send]
    exact List.mem_cons_of_mem _ h

/-- A buffer that was registered before, or on a connection that takes the event, will be there. -/
theorem mem_eventual_registered {s : State} {id : Nat} {sent : Bool} (hr : s.Registered)
    (h : id ∈ s.registeredBuffers ∨ (s.connected ∧ sent)) : id ∈ (s.lorieRegisterBuffer id sent).eventual := by
  rcases register_eq s id sent with ⟨he, hn⟩ | ⟨-, -, he⟩
  · rw [he]
    exact hr id (hn.elim (fun h => h) fun hc => h.resolve_right hc)
  · rw [he]
    show id ∈ (s.send (.addBuffer id)).eventual
    rw [eventual_send]
    exact List.mem_cons_self

theorem Registered.register {s : State} (h : s.Registered) (id : Nat) (sent : Bool) :
    (s.lorieRegisterBuffer id sent).Registered := by
  intro id' hid
  rcases register_eq s id sent with ⟨he, -⟩ | ⟨-, hc, he⟩
  · rw [he] at hid ⊢
    exact h id' hid
  · rw [he] at hid ⊢
    show id' ∈ (s.send (.addBuffer id)).eventual
    rw [eventual_send]
    rcases List.mem_cons.1 hid with rfl | hid
    · exact List.mem_cons_self
    · exact List.mem_cons_of_mem _ (h id' hid)

theorem unregister_eq (s : State) (id : Nat) :
    (s.lorieUnregisterBuffer id = s ∧ ¬ (id ∈ s.registeredBuffers ∧ s.connected)) ∨
      ((id ∈ s.registeredBuffers ∧ s.connected) ∧ s.lorieUnregisterBuffer id =
        { s.send (.removeBuffer id) with registeredBuffers := s.registeredBuffers.erase id }) := by
  unfold lorieUnregisterBuffer
  split
  · rename_i h
    exact .inr ⟨h, rfl⟩
  · rename_i h
    exact .inl ⟨rfl, h⟩

/-- Unregistering a buffer takes away no other one. -/
theorem mem_eventual_unregister {s : State} {id id' : Nat} (hne : id ∈ s.registeredBuffers ∧ s.connected → id' ≠ id)
    (h : id' ∈ s.eventual) : id' ∈ (s.lorieUnregisterBuffer id).eventual := by
  rcases unregister_eq s id with ⟨he, -⟩ | ⟨hc, he⟩
  · rw [he]
    exact h
  · rw [he]
    show id' ∈ (s.send (.removeBuffer id)).eventual
    rw [eventual_send]
    exact (List.mem_erase_of_ne (hne hc)).2 h

theorem Registered.unregister {s : State} (h : s.Registered) (hn : s.registeredBuffers.Nodup) (id : Nat) :
    (s.lorieUnregisterBuffer id).Registered := by
  intro id' hid
  rcases unregister_eq s id with ⟨he, -⟩ | ⟨hc, he⟩
  · rw [he] at hid ⊢
    exact h id' hid
  · rw [he] at hid ⊢
    show id' ∈ (s.send (.removeBuffer id)).eventual
    rw [eventual_send]
    obtain ⟨hne, hid⟩ := hn.mem_erase_iff.1 hid
    exact (List.mem_erase_of_ne hne).2 (h id' hid)

/-! ## The two ends of a connection -/

/-- What holds of the connections in every run. -/
structure Base (s : State) : Prop where
  /-- Nothing is sent to a connection before it is installed. -/
  chan : ∀ k, s.conn < k → s.chan k = []
  mapped : s.mapped → ∃ k, s.attached = some k ∧ k ≤ s.conn
  attached : ∀ k, s.attached = some k → s.lastAttached = k
  root_lt : s.root < s.nextId
  pixmaps : ∀ p ∈ s.pixmaps, p < s.nextId ∧ p ≠ s.root
  nodup : s.registeredBuffers.Nodup

theorem Base.init : State.init.Base where
  chan := fun _ _ => rfl
  mapped := by simp [State.init]
  attached := by simp [State.init]
  root_lt := by decide
  pixmaps := by simp [State.init]
  nodup := List.nodup_nil

theorem chan_send (s : State) (e : Event) {k : Nat} (hk : k ≠ s.conn) : (s.send e).chan k = s.chan k :=
  Function.update_of_ne hk _ _

theorem Base.send {s : State} (h : s.Base) (e : Event) {r : List Nat} (hr : r.Nodup) :
    ({ s.send e with registeredBuffers := r } : State).Base :=
  { h with
    chan := fun k hk => (s.chan_send e (Nat.ne_of_gt hk)).trans (h.chan k hk)
    nodup := hr }

theorem Base.register {s : State} (h : s.Base) (id : Nat) (sent : Bool) : (s.lorieRegisterBuffer id sent).Base := by
  rcases register_eq s id sent with ⟨he, -⟩ | ⟨hid, -, he⟩
  · rw [he]
    exact h
  · rw [he]
    exact h.send _ (List.nodup_cons.2 ⟨hid, h.nodup⟩)

theorem Base.unregister {s : State} (h : s.Base) (id : Nat) : (s.lorieUnregisterBuffer id).Base := by
  rcases unregister_eq s id with ⟨he, -⟩ | ⟨-, he⟩
  · rw [he]
    exact h
  · rw [he]
    exact h.send _ (h.nodup.erase id)

/-- Registering changes the registered buffers and the channel only. -/
theorem register_frame (s : State) (id : Nat) (sent : Bool) :
    ∃ r c, s.lorieRegisterBuffer id sent = { s with registeredBuffers := r, chan := c } := by
  rcases register_eq s id sent with ⟨he, -⟩ | ⟨-, -, he⟩
  · exact ⟨_, _, he⟩
  · exact ⟨_, _, he⟩

theorem unregister_frame (s : State) (id : Nat) :
    ∃ r c, s.lorieUnregisterBuffer id = { s with registeredBuffers := r, chan := c } := by
  rcases unregister_eq s id with ⟨he, -⟩ | ⟨-, he⟩
  · exact ⟨_, _, he⟩
  · exact ⟨_, _, he⟩

/-- Delivering an event changes the renderer only. -/
theorem deliver_frame (s : State) (e : Event) : ∃ m f w a b r, s.deliver e =
    { s with
      mapped := m, connectionFailed := f, copyWaitingForBuffer := w
      addedBuffers := a, buffers := b, removedBuffers := r } := by
  cases e with
  | sharedServerState => exact ⟨_, _, _, _, _, _, rfl⟩
  | addBuffer id => exact ⟨_, _, _, _, _, _, rfl⟩
  | removeBuffer id =>
    simp only [deliver, removeBuffer]
    split
    · exact ⟨_, _, _, _, _, _, rfl⟩
    · split
      · exact ⟨_, _, _, _, _, _, rfl⟩
      · exact ⟨_, _, _, _, _, _, rfl⟩

theorem base_receive {s s' : State} (h : s.Base) (hs : s.step .receive = some s') : s'.Base := by
  simp only [step] at hs
  split at hs
  · cases hs
  rename_i k hk
  split at hs
  · cases hs
  rename_i e es hc
  obtain ⟨m, f, w, a, b, r, hd⟩ := deliver_frame { s with chan := Function.update s.chan k es } e
  rw [hd] at hs
  cases hs
  have hle : k ≤ s.conn := by
    by_contra hlt
    rw [h.chan k (by omega)] at hc
    cases hc
  refine { h with chan := ?_, mapped := ?_ }
  · intro k' hk'
    show Function.update s.chan k es k' = []
    rw [Function.update_of_ne (by show k' ≠ k; have : s.conn < k' := hk'; omega)]
    exact h.chan k' hk'
  · intro _
    exact ⟨k, hk, hle⟩

theorem base_schedule {s s' : State} {src dst : Nat} {a b : Bool} (h : s.Base)
    (hs : s.step (.schedule src dst a b) = some s') : s'.Base := by
  simp only [step] at hs
  split at hs
  · cases hs
    split
    · exact { h.register src a with }
    · exact { (h.register src a).register dst b with }
  · cases hs

theorem base_destroyPixmap {s s' : State} {id : Nat} (h : s.Base) (hs : s.step (.destroyPixmap id) = some s') :
    s'.Base := by
  simp only [step] at hs
  split at hs
  · cases hs
    have hu := h.unregister id
    obtain ⟨r, c, he⟩ := unregister_frame s id
    rw [he] at hu ⊢
    exact { hu with pixmaps := fun p hp => h.pixmaps p (List.mem_of_mem_erase hp) }
  · cases hs

theorem base_screenSetSize {s s' : State} {sent : Bool} (h : s.Base) (hs : s.step (.screenSetSize sent) = some s') :
    s'.Base := by
  cases hs
  have hn : s.newRoot.Base :=
    { h with
      root_lt := Nat.lt_succ_self _
      pixmaps := fun p hp => ⟨Nat.lt_succ_of_lt (h.pixmaps p hp).1, Nat.ne_of_lt (h.pixmaps p hp).1⟩ }
  exact (hn.unregister s.root).register s.nextId sent

theorem base_install {s s' : State} {sent : Bool} (h : s.Base) (hs : s.step (.install sent) = some s') : s'.Base := by
  simp only [step] at hs
  split at hs
  · cases hs
    have hi : ({ s with conn := s.conn + 1, connected := true, registeredBuffers := [] } : State).Base :=
      { h with
        chan := fun k hk => h.chan k (Nat.lt_of_succ_lt hk)
        mapped := fun hm => (h.mapped hm).imp fun k hk => ⟨hk.1, Nat.le_succ_of_le hk.2⟩
        nodup := List.nodup_nil }
    have hsend : s.newConnection.Base := hi.send .sharedServerState List.nodup_nil
    exact hsend.register s.root sent
  · cases hs

theorem base_copy {s s' : State} {ok : Bool} (h : s.Base) (hs : s.step (.copy ok) = some s') : s'.Base := by
  simp only [step] at hs
  split at hs
  · cases hs
  split at hs
  · split at hs
    · cases hs
      simp only [findBuffer]
      repeat' split
      all_goals exact { h with }
    · cases hs
      exact { h with }
  · cases hs

/-- Every step keeps the facts about the connections. -/
theorem step_base {s s' : State} (a : Action) (h : s.Base) (hs : s.step a = some s') : s'.Base := by
  cases a with
  | createPixmap =>
    cases hs
    refine { h with root_lt := Nat.lt_succ_of_lt h.root_lt, pixmaps := ?_ }
    intro p hp
    rcases List.mem_cons.1 hp with rfl | hp
    · exact ⟨Nat.lt_succ_self _, Nat.ne_of_gt h.root_lt⟩
    · exact ⟨Nat.lt_succ_of_lt (h.pixmaps p hp).1, (h.pixmaps p hp).2⟩
  | schedule src dst a b => exact base_schedule h hs
  | ack e =>
    simp only [step] at hs
    split at hs
    · cases hs; exact { h with }
    · cases hs
  | destroyPixmap id => exact base_destroyPixmap h hs
  | screenSetSize sent => exact base_screenSetSize h hs
  | publish id sent =>
    simp only [step] at hs
    split at hs
    · cases hs; exact h.register id sent
    · cases hs
  | connect => cases hs; exact { h with }
  | install sent => exact base_install h hs
  | hangup =>
    simp only [step] at hs
    split at hs
    · cases hs; exact { h with }
    · cases hs
  | reset => cases hs; exact { h with nodup := List.nodup_nil }
  | attach conn =>
    simp only [step] at hs
    split at hs
    · cases hs
      exact { h with mapped := by simp [disconnect], attached := fun k hk => Option.some.inj hk }
    · cases hs
  | detach => cases hs; exact { h with mapped := by simp [disconnect], attached := by simp }
  | receive => exact base_receive h hs
  | attachBuffer =>
    simp only [step] at hs
    split at hs
    · cases hs
    · cases hs; exact { h with }
  | copy ok => exact base_copy h hs
  | releaseBuffers => cases hs; exact { h with }

/-! ## The buffers of queued copies -/

/-- The renderer has already left the current connection, or never reads it; it maps no shared state then. -/
def Left (s : State) : Prop := s.attached ≠ some s.conn ∧ s.conn ≤ s.lastAttached

/-- Every buffer of a queued copy, every registered buffer and, on a connection, the root buffer will be there. -/
structure Named (s : State) : Prop where
  ring : ∀ e ∈ s.ring, ∀ id ∈ e.ids, id ∈ s.eventual
  registered : s.Registered
  root : s.connected → s.root ∈ s.eventual

/-- The condition on a step: a copy is scheduled when its buffers are registered by it or before, no removal is sent for
a buffer that an unconsumed entry names, and a connection is installed while the unconsumed entries name nothing but
the root buffer, whose event it takes. -/
def KeepsBuffers (s : State) : Action → Prop
  | .schedule src dst srcSent dstSent =>
    (src ∈ s.registeredBuffers ∨ (s.connected ∧ srcSent)) ∧
      (if dst = s.root then s.connected = true else dst ∈ s.registeredBuffers ∨ (s.connected ∧ dstSent))
  | .destroyPixmap id => id ∈ s.registeredBuffers ∧ s.connected → ∀ e ∈ s.ring, id ∉ e.ids
  | .screenSetSize sent =>
    (s.root ∈ s.registeredBuffers ∧ s.connected → ∀ e ∈ s.ring, s.root ∉ e.ids) ∧ (s.connected → sent)
  | .install sent => sent = true ∧ ∀ e ∈ s.ring, ∀ id ∈ e.ids, id = s.root
  | _ => True

instance (s : State) (a : Action) : Decidable (s.KeepsBuffers a) := by
  cases a <;> unfold KeepsBuffers <;> infer_instance

section Named

variable {s s' : State}

/-- A step that leaves what the renderer will have. -/
theorem Named.of_eventual (h : s.Named) (hring : ∀ e ∈ s'.ring, e ∈ s.ring)
    (hreg : ∀ id ∈ s'.registeredBuffers, id ∈ s.registeredBuffers) (hroot : s'.root = s.root)
    (hconn : s'.connected → s.connected) (he : ∀ id, id ∈ s.eventual → id ∈ s'.eventual) : s'.Named where
  ring := fun e hmem id hid => he id (h.ring e (hring e hmem) id hid)
  registered := fun id hid => he id (h.registered id (hreg id hid))
  root := fun hc => hroot ▸ he _ (h.root (hconn hc))

theorem Named.register (h : s.Named) (id : Nat) (sent : Bool) : (s.lorieRegisterBuffer id sent).Named := by
  have hreg := h.registered.register id sent
  have hmem : ∀ id', id' ∈ s.eventual → id' ∈ (s.lorieRegisterBuffer id sent).eventual :=
    fun _ h => mem_eventual_register id sent h
  obtain ⟨r, c, he⟩ := register_frame s id sent
  rw [he] at hreg hmem ⊢
  exact ⟨fun e he id' hid => hmem id' (h.ring e he id' hid), hreg, fun hc => hmem _ (h.root hc)⟩

theorem left_register (id : Nat) (sent : Bool) : (s.lorieRegisterBuffer id sent).Left ↔ s.Left := by
  obtain ⟨r, c, he⟩ := register_frame s id sent
  rw [he]
  rfl

theorem left_unregister (id : Nat) : (s.lorieUnregisterBuffer id).Left ↔ s.Left := by
  obtain ⟨r, c, he⟩ := unregister_frame s id
  rw [he]
  rfl

/-- Publishing an entry whose buffers will be there. -/
theorem Named.push (h : s.Named) {src dst : Nat} (hsrc : src ∈ s.eventual) (hdst : dst ∈ s.eventual) (v : List Entry) :
    ({ s with ring := s.ring ++ [⟨src, dst⟩], vblanks := v } : State).Named := by
  refine { h with ring := ?_ }
  intro e hmem id hid
  rcases List.mem_append.1 hmem with hmem | hmem
  · exact h.ring e hmem id hid
  · rw [List.mem_singleton.1 hmem] at hid
    simp only [Entry.ids, List.mem_cons, List.not_mem_nil, or_false] at hid
    rcases hid with rfl | rfl
    · exact hsrc
    · exact hdst

/-- A scheduled copy names buffers that will be there. -/
theorem named_schedule {src dst : Nat} {a b : Bool} (h : s.Named) (hc : s.KeepsBuffers (.schedule src dst a b))
    (hs : s.step (.schedule src dst a b) = some s') : s'.Named := by
  obtain ⟨hsrc, hdst⟩ := hc
  simp only [step] at hs
  split at hs
  · cases hs
    have h₁ := h.register src a
    have hsrc₁ := mem_eventual_registered h.registered hsrc
    obtain ⟨r, c, he⟩ := register_frame s src a
    by_cases hroot : dst = s.root
    · rw [if_pos hroot] at hdst ⊢
      rw [he] at h₁ hsrc₁ ⊢
      exact h₁.push hsrc₁ (hroot ▸ h₁.root hdst) _
    · rw [if_neg hroot] at hdst ⊢
      have h₂ := h₁.register dst b
      have hsrc₂ := mem_eventual_register dst b hsrc₁
      have hdst₂ : dst ∈ ((s.lorieRegisterBuffer src a).lorieRegisterBuffer dst b).eventual := by
        refine mem_eventual_registered h₁.registered ?_
        rcases register_eq s src a with ⟨he, -⟩ | ⟨-, -, he⟩
        · rw [he]
          exact hdst
        · rw [he]
          exact hdst.imp_left (List.mem_cons_of_mem _)
      obtain ⟨r', c', he'⟩ := register_frame (s.lorieRegisterBuffer src a) dst b
      rw [he', he] at h₂ hsrc₂ hdst₂ ⊢
      exact h₂.push hsrc₂ hdst₂ _
  · cases hs

theorem named_destroyPixmap {id : Nat} (hb : s.Base) (h : s.Named) (hc : s.KeepsBuffers (.destroyPixmap id))
    (hs : s.step (.destroyPixmap id) = some s') : s'.Named := by
  simp only [step] at hs
  split at hs
  · rename_i hid
    cases hs
    have hreg := h.registered.unregister hb.nodup id
    have hmem : ∀ id', (id ∈ s.registeredBuffers ∧ s.connected → id' ≠ id) → id' ∈ s.eventual →
        id' ∈ (s.lorieUnregisterBuffer id).eventual := fun _ hne h => mem_eventual_unregister hne h
    obtain ⟨r, c, he⟩ := unregister_frame s id
    rw [he] at hreg hmem ⊢
    refine ⟨?_, hreg, fun hconn => hmem _ (fun _ hr => (hb.pixmaps id hid.1).2 hr.symm) (h.root hconn)⟩
    intro e hmem' id' hid'
    refine hmem id' (fun hsent heq => ?_) (h.ring e hmem' id' hid')
    exact hc hsent e hmem' (heq ▸ hid')
  · cases hs

theorem named_screenSetSize {sent : Bool} (hb : s.Base) (h : s.Named) (hc : s.KeepsBuffers (.screenSetSize sent))
    (hs : s.step (.screenSetSize sent) = some s') : s'.Named := by
  obtain ⟨hring, hsent⟩ := hc
  cases hs
  have hold : s.newRoot.Registered := h.registered
  have hreg := hold.unregister hb.nodup s.root
  have hreg' := hreg.register s.nextId sent
  obtain ⟨r, c, he⟩ := unregister_frame s.newRoot s.root
  have hroot : s.connected →
      s.nextId ∈ ((s.newRoot.lorieUnregisterBuffer s.root).lorieRegisterBuffer s.nextId sent).eventual := by
    intro hconn
    refine mem_eventual_registered hreg (.inr ⟨?_, hsent hconn⟩)
    rw [he]
    exact hconn
  have hkeep : ∀ e ∈ s.ring, ∀ id ∈ e.ids,
      id ∈ ((s.newRoot.lorieUnregisterBuffer s.root).lorieRegisterBuffer s.nextId sent).eventual := by
    intro e hmem id hid
    have hid' : id ∈ s.newRoot.eventual := h.ring e hmem id hid
    refine mem_eventual_register s.nextId sent (mem_eventual_unregister (fun hs heq => ?_) hid')
    exact hring hs e hmem (heq ▸ hid)
  obtain ⟨r', c', he'⟩ := register_frame (s.newRoot.lorieUnregisterBuffer s.root) s.nextId sent
  rw [he', he] at hreg' hroot hkeep ⊢
  exact ⟨hkeep, hreg', hroot⟩

theorem named_install {sent : Bool} (hc : s.KeepsBuffers (.install sent)) (hs : s.step (.install sent) = some s') :
    s'.Named := by
  obtain ⟨rfl, hring⟩ := hc
  simp only [step] at hs
  split at hs
  · cases hs
    have hreg : s.newConnection.Registered := by
      intro id hid
      cases hid
    have hreg' := hreg.register s.root true
    have hroot : s.root ∈ (s.newConnection.lorieRegisterBuffer s.root true).eventual :=
      mem_eventual_registered hreg (.inr ⟨rfl, rfl⟩)
    obtain ⟨r, c, he⟩ := register_frame s.newConnection s.root true
    rw [he] at hreg' hroot ⊢
    refine ⟨fun e hmem id hid => ?_, hreg', fun _ => hroot⟩
    rw [hring e hmem id hid]
    exact hroot
  · cases hs

/-- A renderer that is given a connection reads it from the start. -/
theorem named_attach {conn : Nat} (hb : s.Base) (h : ¬ s.Left → s.Named) (hs : s.step (.attach conn) = some s')
    (hl : ¬ s'.Left) : s'.Named := by
  simp only [step] at hs
  split at hs
  · rename_i hlt
    cases hs
    have hle : conn ≤ s.conn := by
      by_contra hgt
      exact hl ⟨fun heq => hgt (Nat.le_of_eq (Option.some.inj heq)), Nat.le_of_lt (Nat.lt_of_not_le hgt)⟩
    have hne : s.attached ≠ some s.conn := by
      intro heq
      have := hb.attached _ heq
      omega
    refine (h fun hl' => ?_).of_eventual (fun _ h => h) (fun _ h => h) rfl (fun h => h) fun id hid => ?_
    · have := hl'.2
      omega
    · unfold eventual at hid ⊢
      rw [if_neg hne] at hid
      show id ∈ List.foldl view (if some conn = some s.conn then ([] : List Nat) else []) (s.chan s.conn)
      rw [ite_self]
      exact hid
  · cases hs

theorem named_detach (hb : s.Base) (h : ¬ s.Left → s.Named) (hs : s.step .detach = some s') (hl : ¬ s'.Left) :
    s'.Named := by
  cases hs
  have hlt : s.lastAttached < s.conn := by
    by_contra hge
    exact hl ⟨by simp, Nat.le_of_not_lt hge⟩
  have hne : s.attached ≠ some s.conn := by
    intro heq
    have := hb.attached _ heq
    omega
  refine (h fun hl' => ?_).of_eventual (fun _ h => h) (fun _ h => h) rfl (fun h => h) fun id hid => ?_
  · have := hl'.2
    omega
  · unfold eventual at hid ⊢
    rw [if_neg hne] at hid
    exact hid

/-- Delivering an event changes nothing in the end. -/
theorem eventual_receive (hs : s.step .receive = some s') : s'.eventual = s.eventual := by
  simp only [step] at hs
  split at hs
  · cases hs
  rename_i k hk
  split at hs
  · cases hs
  rename_i e es hc
  cases hs
  have hp := deliver_present { s with chan := Function.update s.chan k es } e
  obtain ⟨m, f, w, a, b, r, hd⟩ := deliver_frame { s with chan := Function.update s.chan k es } e
  rw [hd] at hp ⊢
  unfold eventual
  by_cases heq : k = s.conn
  · subst heq
    simp only [hk, if_true, hc, Function.update_self, List.foldl_cons]
    exact congrArg (fun l => es.foldl view l) hp
  · have hne : s.attached ≠ some s.conn := by
      rw [hk]
      exact fun h => heq (Option.some.inj h)
    simp only [hne, if_false, Function.update_of_ne (Ne.symm heq)]

theorem named_receive (h : ¬ s.Left → s.Named) (hs : s.step .receive = some s') (hl : ¬ s'.Left) : s'.Named := by
  have he := eventual_receive hs
  simp only [step] at hs
  split at hs
  · cases hs
  rename_i k hk
  split at hs
  · cases hs
  rename_i e es hc
  obtain ⟨m, f, w, a, b, r, hd⟩ := deliver_frame { s with chan := Function.update s.chan k es } e
  rw [hd] at hs
  cases hs
  exact (h hl).of_eventual (fun _ h => h) (fun _ h => h) rfl (fun h => h) fun id hid => he ▸ hid

theorem findBuffer_frame {id : Nat} (hid : id ∈ s.present) :
    ∃ a b, s.findBuffer id = { s with addedBuffers := a, buffers := b } ∧ (a ++ b).Perm s.present := by
  unfold findBuffer
  split
  · exact ⟨_, _, rfl, List.Perm.refl _⟩
  · rename_i hnot
    have hadd : id ∈ s.addedBuffers := (List.mem_append.1 hid).resolve_right hnot
    exact ⟨_, _, rfl, List.perm_middle.trans ((List.perm_cons_erase hadd).symm.append_right _)⟩

/-- What the worker does at the head entry: it waits, it consumes the entry, or it ends the connection. -/
theorem copy_frame {ok : Bool} (hs : s.step (.copy ok) = some s') : ∃ a b q f w,
    s' = { s with addedBuffers := a, buffers := b, ring := q, connectionFailed := f, copyWaitingForBuffer := w } ∧
    (a ++ b).Perm s.present ∧ ∀ e ∈ q, e ∈ s.ring := by
  simp only [step] at hs
  split at hs
  · cases hs
  rename_i e es hr
  split at hs
  · split at hs
    · rename_i hp
      obtain ⟨a, b, he, hperm⟩ := findBuffer_frame hp.1
      have hdst : e.dstBufferId ∈ (s.findBuffer e.srcBufferId).present := by
        rw [he]
        exact hperm.mem_iff.2 hp.2
      obtain ⟨a', b', he', hperm'⟩ := findBuffer_frame hdst
      rw [he', he] at hs
      rw [he] at hperm'
      cases ok with
      | true =>
        cases hs
        exact ⟨a', b', es, _, _, rfl, hperm'.trans hperm, fun _ h => hr ▸ List.mem_cons_of_mem _ h⟩
      | false =>
        cases hs
        exact ⟨a', b', s.ring, true, _, rfl, hperm'.trans hperm, fun _ h => h⟩
    · cases hs
      exact ⟨_, _, s.ring, _, true, rfl, List.Perm.refl _, fun _ h => h⟩
  · cases hs

theorem named_copy {ok : Bool} (h : ¬ s.Left → s.Named) (hs : s.step (.copy ok) = some s') (hl : ¬ s'.Left) :
    s'.Named := by
  obtain ⟨a, b, q, f, w, rfl, hperm, hq⟩ := copy_frame hs
  refine (h hl).of_eventual hq (fun _ h => h) rfl (fun h => h) fun id hid => ?_
  refine (mem_eventual_of_perm ?_ ?_ ?_ ?_ id).2 hid
  · rfl
  · rfl
  · rfl
  · exact hperm

theorem named_attachBuffer (h : ¬ s.Left → s.Named) (hs : s.step .attachBuffer = some s') (hl : ¬ s'.Left) :
    s'.Named := by
  simp only [step] at hs
  split at hs
  · cases hs
  rename_i b bs hb
  cases hs
  have hperm : (bs ++ b :: s.buffers).Perm s.present := by
    rw [present, hb]
    exact List.perm_middle
  refine (h hl).of_eventual (fun _ h => h) (fun _ h => h) rfl (fun h => h) fun id hid => ?_
  refine (mem_eventual_of_perm ?_ ?_ ?_ ?_ id).2 hid
  · rfl
  · rfl
  · rfl
  · exact hperm

/-- Every step under the condition keeps the buffers of queued copies. -/
theorem step_named (a : Action) (hb : s.Base) (h : ¬ s.Left → s.Named) (hc : s.KeepsBuffers a)
    (hs : s.step a = some s') (hl : ¬ s'.Left) : s'.Named := by
  cases a with
  | schedule src dst a b =>
    refine named_schedule (h fun hl' => hl ?_) hc hs
    simp only [step] at hs
    split at hs
    · cases hs
      split
      · exact (left_register src a).2 hl'
      · exact (left_register dst b).2 ((left_register src a).2 hl')
    · cases hs
  | destroyPixmap id =>
    refine named_destroyPixmap hb (h fun hl' => hl ?_) hc hs
    simp only [step] at hs
    split at hs
    · cases hs
      exact (left_unregister id).2 hl'
    · cases hs
  | screenSetSize sent =>
    refine named_screenSetSize hb (h fun hl' => hl ?_) hc hs
    cases hs
    exact (left_register s.nextId sent).2 ((left_unregister s.root).2 hl')
  | install sent => exact named_install hc hs
  | attach conn => exact named_attach hb h hs hl
  | detach => exact named_detach hb h hs hl
  | receive => exact named_receive h hs hl
  | copy ok => exact named_copy h hs hl
  | attachBuffer => exact named_attachBuffer h hs hl
  | publish id sent =>
    simp only [step] at hs
    split at hs
    · cases hs
      exact (h fun hl' => hl ((left_register id sent).2 hl')).register id sent
    · cases hs
  | ack e =>
    simp only [step] at hs
    split at hs
    · cases hs; exact { h hl with }
    · cases hs
  | hangup =>
    simp only [step] at hs
    split at hs
    · cases hs; exact { h hl with root := by simp }
    · cases hs
  | reset => cases hs; exact { h hl with registered := by intro id hid; cases hid }
  | createPixmap => cases hs; exact { h hl with }
  | connect => cases hs; exact { h hl with }
  | releaseBuffers => cases hs; exact { h hl with }

end Named

/-! ## Runs -/

/-- A run under the condition keeps both parts of the invariant. -/
theorem reach_named {s : State} (h : Reach step KeepsBuffers State.init s) : s.Base ∧ (¬ s.Left → s.Named) := by
  refine h.invariant (I := fun s => s.Base ∧ (¬ s.Left → s.Named)) ⟨Base.init, fun hl => absurd ?_ hl⟩
    fun t a u hi hc hs => ?_
  · exact ⟨by simp [State.init], Nat.le_refl _⟩
  · exact ⟨step_base a hi.1 hs, step_named a hi.1 hi.2 hc hs⟩

/-- **A queued copy can make progress**, in every run under the condition: whenever the renderer has the shared state
mapped and does not find a buffer that an unconsumed entry names, the `EVENT_ADD_BUFFER` of that buffer was sent on the
current connection and is not delivered yet. -/
theorem missing_buffer_sent {s : State} (h : Reach step KeepsBuffers State.init s) (hm : s.mapped) {e : Entry}
    (he : e ∈ s.ring) {id : Nat} (hid : id ∈ e.ids) (hmiss : id ∉ s.present) : .addBuffer id ∈ s.chan s.conn := by
  obtain ⟨hb, hn⟩ := reach_named h
  obtain ⟨k, hk, hle⟩ := hb.mapped hm
  have hleft : ¬ s.Left := by
    rintro ⟨hne, hge⟩
    have := hb.attached k hk
    rw [hk] at hne
    exact hne (congrArg some (by omega))
  rcases mem_foldl_view ((hn hleft).ring e he id hid) with hp | hp
  · split at hp
    · exact absurd hp hmiss
    · cases hp
  · exact hp

/-- A connection is installed and read up to its root buffer, and a copy to the root is scheduled. -/
def scheduleActions : List Action :=
  [.connect, .install true, .attach 1, .receive, .receive, .createPixmap, .schedule 1 0 true true]

/-- The source of the copy is on its way. -/
theorem missing_buffer_sent_source : ∃ s, exec (fun s a => if KeepsBuffers s a then step s a else none) State.init
    scheduleActions = some s ∧ s.ring = [⟨1, 0⟩] ∧ 1 ∉ s.present ∧ .addBuffer 1 ∈ s.chan s.conn :=
  ⟨_, rfl, rfl, by decide, missing_buffer_sent (.of_exec_guarded scheduleActions rfl) rfl (e := ⟨1, 0⟩) (by decide)
    (by decide) (by decide)⟩

/-- The copy is acknowledged before it ran, the presented pixmap is destroyed, and both events of its buffer arrive. -/
def destroyActions : List Action :=
  scheduleActions ++ ([.ack ⟨1, 0⟩, .destroyPixmap 1, .receive, .receive, .copy true] : List Action)

/-- The worker waits for a buffer that was removed and that nothing will bring. -/
theorem head_buffer_removed : ∃ s, Reach step Free State.init s ∧ s.copyWaitingForBuffer = true ∧
    s.ring.head? = some ⟨1, 0⟩ ∧ 1 ∉ s.present ∧ s.chan s.conn = [] :=
  ⟨_, .of_exec destroyActions rfl, rfl, rfl, by decide, rfl⟩

end State

end Lorie.Registration
