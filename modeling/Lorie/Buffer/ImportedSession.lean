import Lorie.Lib.Transition
import Lorie.GpuCopy.Registration
import Lorie.Buffer.Imported

/-!
# Registered and imported buffers

The X server lists the buffers that it sent over the current connection (`cmdentrypoint.cpp`), and the looper of the renderer
takes its events in order (`session.cpp`).

- `step`: the server, the looper and the worker;
- `tell`: what an event does to the ids that the renderer finds;
- `Inv`: with the events on their way, the renderer finds the registered buffers;
- `imports_account`: where the received buffers are, and which ones are found.
-/

namespace Lorie.Imports

open Lorie.Lib
open Registration (Event)

/-- What the server, the connections and the renderer hold. -/
structure State where
  /-- How often the host called `lorieServerConnect`. -/
  connects : Nat
  /-- The connection that was installed last -/
  conn : Nat
  /-- `conn_fd != -1` -/
  connected : Bool
  /-- An event of the current connection could not be written. -/
  lost : Bool
  dataConnection : Nat
  /-- The generations of the queued work items that clear `registeredBuffers`. -/
  resets : List Nat
  registeredBuffers : List Nat
  /-- The buffers that a pixmap owns -/
  pixmaps : List Nat
  /-- The references that `lorieTryScheduleGpuCopy` took. -/
  acquired : List Nat
  nextId : Nat
  /-- The events of a connection that were not delivered yet -/
  chan : Nat → List Event
  /-- The connection that the renderer reads from -/
  attached : Option Nat
  /-- The last connection that the renderer was given -/
  lastAttached : Nat
  renderer : Renderer

inductive Action where
  /-- `lorieCreatePixmap` -/
  | createPixmap
  /-- `lorieRegisterBuffer`; `sent`: the event and the buffer can be written. -/
  | register (id : Nat) (sent : Bool)
  /-- `LorieBuffer_acquire` -/
  | acquire (id : Nat)
  /-- `LorieBuffer_release` in `lorieGpuCopyAck` -/
  | release (id : Nat)
  /-- `lorieExaDestroyPixmap`; `sent`: the event of `lorieUnregisterBuffer` can be written. -/
  | destroyPixmap (id : Nat) (sent : Bool)
  /-- `lorieServerConnect` -/
  | connect
  /-- The work item of `lorieServerConnect`, with `EVENT_SHARED_SERVER_STATE` -/
  | install (sent : Bool)
  /-- The error path of `handleLorieEvents` -/
  | hangup
  /-- The work item that the error path queues -/
  | reset
  /-- `LorieConnection::connect` with the descriptor of a later connection -/
  | attach (conn : Nat)
  /-- `LorieConnection::disconnect` -/
  | detach
  /-- `LorieConnection::receive` of the next event; `ok`: a buffer can be received. -/
  | receive (ok : Bool)
  /-- `lorieConnectionDestroy` -/
  | destroy
  | worker (a : Renderer.Step)
  deriving DecidableEq, Repr

namespace State

def init : State where
  connects := 0
  conn := 0
  connected := false
  lost := false
  dataConnection := 0
  resets := []
  registeredBuffers := []
  pixmaps := []
  acquired := []
  nextId := 0
  chan := fun _ => []
  attached := none
  lastAttached := 0
  renderer := .init

/-! ## The server -/

/-- An event is written to the current connection. -/
def send (s : State) (e : Event) (sent : Bool) : State :=
  if sent then { s with chan := Function.update s.chan s.conn (s.chan s.conn ++ [e]) }
  else { s with lost := true }

/-- `lorieRegisterBuffer` -/
def lorieRegisterBuffer (s : State) (id : Nat) (sent : Bool) : State :=
  if ¬ s.connected ∨ id ∈ s.registeredBuffers then s
  else if sent then { s.send (.addBuffer id) true with registeredBuffers := id :: s.registeredBuffers }
  else s.send (.addBuffer id) false

/-- `lorieUnregisterBuffer`, which does not look at what `write` returns. -/
def lorieUnregisterBuffer (s : State) (id : Nat) (sent : Bool) : State :=
  if id ∈ s.registeredBuffers ∧ s.connected then
    { s.send (.removeBuffer id) sent with registeredBuffers := s.registeredBuffers.erase id }
  else s

/-- `__LorieBuffer_free` of a buffer without references: its link goes too. -/
def collect (s : State) (id : Nat) : State :=
  if id ∈ s.pixmaps ∨ id ∈ s.acquired then s else { s with registeredBuffers := s.registeredBuffers.erase id }

/-- The next connection takes the place of the old one. -/
def newConnection (s : State) : State :=
  { s with
    conn := s.conn + 1
    connected := true
    lost := false
    dataConnection := s.dataConnection + 1
    registeredBuffers := [] }

/-! ## The looper -/

/-- `LorieConnection::disconnect` -/
def disconnect (s : State) : State :=
  { s with
    attached := none
    renderer := s.renderer.removeAllBuffers .looper }

/-- What the renderer does with an event; a buffer that cannot be received ends the connection. -/
def deliver (s : State) (ok : Bool) : Event → State
  | .sharedServerState => s
  | .addBuffer id => if ok then { s with renderer := s.renderer.addBuffer id } else s.disconnect
  | .removeBuffer id => { s with renderer := s.renderer.removeBuffer id }

/-- One step of the server, of the looper or of the worker. -/
def step (s : State) : Action → Option State
  | .createPixmap => some { s with pixmaps := s.nextId :: s.pixmaps, nextId := s.nextId + 1 }
  | .register id sent => if id ∈ s.pixmaps then some (s.lorieRegisterBuffer id sent) else none
  | .acquire id => if id ∈ s.pixmaps then some { s with acquired := id :: s.acquired } else none
  | .release id =>
    if id ∈ s.acquired then some ({ s with acquired := s.acquired.erase id }.collect id) else none
  | .destroyPixmap id sent =>
    if id ∈ s.pixmaps then
      some ({ s.lorieUnregisterBuffer id sent with pixmaps := s.pixmaps.filter (· ≠ id) }.collect id)
    else none
  | .connect => some { s with connects := s.connects + 1 }
  | .install sent => if s.conn < s.connects then some (s.newConnection.send .sharedServerState sent) else none
  | .hangup =>
    if s.connected then
      some { s with
        connected := false
        dataConnection := s.dataConnection + 1
        resets := s.resets ++ [s.dataConnection + 1] }
    else none
  | .reset =>
    match s.resets with
    | [] => none
    | generation :: resets =>
      some { s with
        resets := resets
        registeredBuffers := if s.dataConnection = generation then [] else s.registeredBuffers }
  | .attach conn =>
    if s.renderer.stopping = false ∧ s.lastAttached < conn ∧ conn ≤ s.connects then
      some { s.disconnect with attached := some conn, lastAttached := conn }
    else none
  | .detach => if s.renderer.stopping = false then some s.disconnect else none
  | .receive ok =>
    match s.attached with
    | none => none
    | some conn =>
      match s.chan conn with
      | [] => none
      | e :: es => some ({ s with chan := Function.update s.chan conn es }.deliver ok e)
  | .destroy =>
    if s.renderer.stopping = false then
      some { s.disconnect with renderer := { s.disconnect.renderer with stopping := true } }
    else none
  | .worker a => (s.renderer.workerStep a).map fun renderer => { s with renderer := renderer }

/-! ## The events on their way -/

/-- What an event does to the ids that the renderer finds -/
def tell (ids : List Nat) : Event → List Nat
  | .sharedServerState => ids
  | .addBuffer id => id :: ids
  | .removeBuffer id => ids.erase id

theorem tell_perm {ids ids' : List Nat} (h : ids.Perm ids') (events : List Event) :
    (events.foldl tell ids).Perm (events.foldl tell ids') := by
  induction events generalizing ids ids' with
  | nil => exact h
  | cons e events ih =>
    refine ih ?_
    cases e with
    | sharedServerState => exact h
    | addBuffer id => exact h.cons id
    | removeBuffer id => exact h.erase id

variable (s : State)

/-- The renderer reads from the current connection, or is still to be given it. -/
def Follows : Prop := s.attached = some s.conn ∨ s.lastAttached < s.conn

/-- What the renderer found before the events of the current connection that are on their way -/
def found : List Nat := if s.attached = some s.conn then s.renderer.presentIds else []

structure Inv : Prop where
  renderer : s.renderer.Inv
  generations : ∀ g ∈ s.resets, g ≤ s.dataConnection
  resets : s.connected = true → ∀ g ∈ s.resets, g < s.dataConnection
  owned : s.connected = true → ∀ id ∈ s.registeredBuffers, id ∈ s.pixmaps
  nodup : s.registeredBuffers.Nodup
  last : ∀ k, s.attached = some k → k = s.lastAttached ∧ s.renderer.stopping = false
  conn_le : s.conn ≤ s.connects
  silent : ∀ k, s.conn < k → s.chan k = []
  /-- A connection that was not installed yet brings nothing. -/
  early : ∀ k, s.attached = some k → s.conn < k → s.renderer.presentIds = []
  told : s.connected = true → s.lost = false → s.Follows → ((s.chan s.conn).foldl tell s.found).Perm s.registeredBuffers

variable {s}

theorem inv_init : init.Inv where
  renderer := Renderer.inv_init
  generations := fun g h => absurd h List.not_mem_nil
  resets := fun h => by cases h
  owned := fun h => by cases h
  nodup := List.nodup_nil
  last := fun k h => by cases h
  conn_le := Nat.le_refl _
  silent := fun k _ => rfl
  early := fun k h => by cases h
  told := fun h => by cases h

namespace Inv

/-! ### The server -/

/-- An event is written, and the list changes as it tells. -/
theorem send (h : s.Inv) {e : Event} {sent : Bool} {registered : List Nat} (hnodup : registered.Nodup)
    (howned : s.connected = true → ∀ id ∈ registered, id ∈ s.pixmaps)
    (htell : ∀ ids, ids.Perm s.registeredBuffers → (tell ids e).Perm registered) :
    Inv { s.send e sent with registeredBuffers := registered } := by
  cases sent with
  | false =>
    exact ⟨h.renderer, h.generations, h.resets, howned, hnodup, h.last, h.conn_le, h.silent, h.early,
      fun _ hlost => by cases hlost⟩
  | true =>
    refine ⟨h.renderer, h.generations, h.resets, howned, hnodup, h.last, h.conn_le, fun k hk => ?_, h.early,
      fun hc hlost hf => ?_⟩
    · exact (Function.update_of_ne (Nat.ne_of_gt hk) _ _).trans (h.silent k hk)
    · show (List.foldl tell _ (Function.update s.chan s.conn (s.chan s.conn ++ [e]) s.conn)).Perm registered
      rw [Function.update_self, List.foldl_append]
      exact htell _ (h.told hc hlost hf)

theorem lorieRegisterBuffer (h : s.Inv) {id : Nat} (hid : id ∈ s.pixmaps) (sent : Bool) :
    (s.lorieRegisterBuffer id sent).Inv := by
  unfold State.lorieRegisterBuffer
  split
  · exact h
  · rename_i hg
    obtain ⟨hc, hnot⟩ := not_or.1 hg
    have hc := not_not.1 hc
    split
    · refine h.send (List.nodup_cons.2 ⟨hnot, h.nodup⟩) (fun hc i hi => ?_) fun ids hp => hp.cons id
      rcases List.mem_cons.1 hi with rfl | hi
      · exact hid
      · exact h.owned hc i hi
    · exact ⟨h.renderer, h.generations, h.resets, h.owned, h.nodup, h.last, h.conn_le, h.silent, h.early,
        fun _ hlost => by cases hlost⟩

theorem lorieUnregisterBuffer (h : s.Inv) (id : Nat) (sent : Bool) :
    (s.lorieUnregisterBuffer id sent).Inv ∧
      ((s.lorieUnregisterBuffer id sent).connected = true → id ∉ (s.lorieUnregisterBuffer id sent).registeredBuffers) := by
  unfold State.lorieUnregisterBuffer
  split
  · rename_i hg
    refine ⟨h.send (h.nodup.erase id) (fun hc i hi => h.owned hc i (List.mem_of_mem_erase hi))
      fun ids hp => hp.erase id, fun _ hm => ?_⟩
    exact (List.Nodup.mem_erase_iff h.nodup).1 hm |>.1 rfl
  · rename_i hg
    exact ⟨h, fun hc hm => hg ⟨hm, hc⟩⟩

theorem collect (h : s.Inv) (id : Nat) : (s.collect id).Inv := by
  unfold State.collect
  split
  · exact h
  · rename_i hg
    refine ⟨h.renderer, h.generations, h.resets, fun hc i hi => h.owned hc i (List.mem_of_mem_erase hi), h.nodup.erase id,
      h.last, h.conn_le, h.silent, h.early, fun hc hlost hf => ?_⟩
    have hnot : id ∉ s.registeredBuffers := fun hm => hg (.inl (h.owned hc id hm))
    exact (h.told hc hlost hf).trans (.of_eq (List.erase_of_not_mem hnot).symm)

theorem destroyPixmap (h : s.Inv) (id : Nat) (sent : Bool) :
    ({ s.lorieUnregisterBuffer id sent with pixmaps := s.pixmaps.filter (· ≠ id) }.collect id).Inv := by
  obtain ⟨ht, hnot⟩ := h.lorieUnregisterBuffer id sent
  have hpixmaps : (s.lorieUnregisterBuffer id sent).pixmaps = s.pixmaps := by
    unfold State.lorieUnregisterBuffer State.send
    cases sent <;> split <;> rfl
  refine collect ?_ id
  refine ⟨ht.renderer, ht.generations, ht.resets, fun hc i hi => ?_, ht.nodup, ht.last, ht.conn_le, ht.silent, ht.early,
    ht.told⟩
  refine List.mem_filter.2 ⟨hpixmaps ▸ ht.owned hc i hi, decide_eq_true fun e => hnot hc ?_⟩
  exact e ▸ hi

/-- Nothing is registered on a new connection. -/
theorem install (h : s.Inv) (hlt : s.conn < s.connects) (sent : Bool) : (s.newConnection.send .sharedServerState sent).Inv := by
  have hnew : s.newConnection.Inv := by
    refine ⟨h.renderer, fun g hg => Nat.le_succ_of_le (h.generations g hg), fun _ g hg => Nat.lt_succ_of_le (h.generations g hg),
      fun _ id hid => absurd hid List.not_mem_nil, List.nodup_nil, h.last, hlt, fun k hk => h.silent k (Nat.lt_of_succ_lt hk),
      fun k hk hlt => h.early k hk (Nat.lt_of_succ_lt hlt), fun _ _ _ => ?_⟩
    show ((s.chan (s.conn + 1)).foldl tell (found s.newConnection)).Perm []
    rw [h.silent _ (Nat.lt_succ_self _)]
    unfold found
    split
    · rename_i hattached
      exact .of_eq (h.early _ hattached (Nat.lt_succ_self _))
    · exact .refl _
  have hsend : Inv { s.newConnection.send .sharedServerState sent with registeredBuffers := [] } :=
    hnew.send List.nodup_nil (fun _ id hid => absurd hid List.not_mem_nil) fun ids hp => hp
  cases sent <;> exact hsend

/-! ### The looper and the worker -/

theorem disconnected (h : s.Inv) (hstop : s.renderer.stopping = false) :
    s.disconnect.renderer.Inv ∧ s.disconnect.renderer.presentIds = [] ∧ s.disconnect.renderer.stopping = false := by
  obtain ⟨hl, hpresent⟩ := Renderer.removeAllBuffers_spec .looper h.renderer (h.renderer.not_retiring hstop)
    (h.renderer.not_ended hstop)
  exact ⟨hl.inv, congrArg (List.map _) hpresent, hl.stopping.trans hstop⟩

/-- The renderer leaves its connection. -/
theorem leave (h : s.Inv) {renderer : Renderer} (hr : renderer.Inv) : Inv { s with attached := none, renderer := renderer } := by
  refine ⟨hr, h.generations, h.resets, h.owned, h.nodup, fun k hk => (by cases hk), h.conn_le, h.silent,
    fun k hk => (by cases hk), fun hc hlost hf => ?_⟩
  have hlt : s.lastAttached < s.conn := hf.resolve_left fun e => by cases e
  have hnone : s.found = [] := if_neg fun e => Nat.ne_of_lt hlt ((h.last _ e).1.symm)
  have htold := h.told hc hlost (.inr hlt)
  rw [hnone] at htold
  exact htold

theorem attach (h : s.Inv) {k : Nat} (hstop : s.renderer.stopping = false) (hlt : s.lastAttached < k) :
    Inv { s.disconnect with attached := some k, lastAttached := k } := by
  obtain ⟨hr, hids, hstop'⟩ := h.disconnected hstop
  refine ⟨hr, h.generations, h.resets, h.owned, h.nodup, fun j hj => ?_, h.conn_le, h.silent, fun _ _ _ => hids,
    fun hc hlost hf => ?_⟩
  · cases hj
    exact ⟨rfl, hstop'⟩
  · have hlast : s.lastAttached < s.conn := by
      rcases hf with e | hk
      · exact Option.some.inj e ▸ hlt
      · exact Nat.lt_trans hlt hk
    have hnone : s.found = [] := if_neg fun e => Nat.ne_of_lt hlast ((h.last _ e).1.symm)
    have htold := h.told hc hlost (.inr hlast)
    rw [hnone] at htold
    refine .trans (.of_eq (congrArg (fun ids => (s.chan s.conn).foldl tell ids) ?_)) htold
    unfold found
    split
    · exact hids
    · rfl

/-- The renderer finds what the event tells. -/
theorem deliver_found (h : s.Inv) (e : Event) (hstop : s.renderer.stopping = false) :
    (s.deliver true e).renderer.Inv ∧ (s.deliver true e).renderer.stopping = false ∧
      (s.deliver true e).renderer.presentIds.Perm (tell s.renderer.presentIds e) := by
  cases e with
  | sharedServerState => exact ⟨h.renderer, hstop, .refl _⟩
  | addBuffer id =>
    exact ⟨Renderer.addBuffer_inv h.renderer hstop id, hstop, .of_eq (Renderer.addBuffer_ids h.renderer id)⟩
  | removeBuffer id =>
    refine ⟨Renderer.removeBuffer_inv h.renderer hstop id, ?_, Renderer.removeBuffer_ids h.renderer id⟩
    show (s.renderer.removeBuffer id).stopping = false
    unfold Renderer.removeBuffer
    split
    · exact hstop
    · split <;> exact hstop

theorem receive (h : s.Inv) {k : Nat} (hk : s.attached = some k) {e : Event} {es : List Event} (hchan : s.chan k = e :: es)
    (ok : Bool) : ({ s with chan := Function.update s.chan k es }.deliver ok e).Inv := by
  have hstop := (h.last k hk).2
  have hle : k ≤ s.conn := by
    refine Nat.le_of_not_lt fun hlt => ?_
    rw [h.silent k hlt] at hchan
    cases hchan
  have hsilent : ∀ j, s.conn < j → Function.update s.chan k es j = [] := fun j hj =>
    (Function.update_of_ne (Nat.ne_of_gt (Nat.lt_of_le_of_lt hle hj)) _ _).trans (h.silent j hj)
  -- the other connections bring what they brought
  have hother : s.lastAttached < s.conn → Function.update s.chan k es s.conn = s.chan s.conn := fun hlt =>
    Function.update_of_ne (fun e => Nat.ne_of_lt hlt ((h.last k hk).1.symm.trans e.symm)) _ _
  by_cases hok : ok = false ∧ ∃ id, e = .addBuffer id
  · obtain ⟨rfl, id, rfl⟩ := hok
    obtain ⟨hr, -, -⟩ := h.disconnected hstop
    have hleft := h.leave hr
    refine ⟨hr, h.generations, h.resets, h.owned, h.nodup, hleft.last, h.conn_le, hsilent, hleft.early, fun hc hlost hf => ?_⟩
    have hlt : s.lastAttached < s.conn := hf.resolve_left fun e => by cases e
    refine .trans (.of_eq ?_) (hleft.told hc hlost (.inr hlt))
    exact congrArg (List.foldl tell []) (hother hlt)
  · have hdeliver : ({ s with chan := Function.update s.chan k es }.deliver ok e) =
        { s with chan := Function.update s.chan k es, renderer := (s.deliver true e).renderer } := by
      cases e with
      | sharedServerState => rfl
      | removeBuffer id => rfl
      | addBuffer id =>
        cases ok with
        | true => rfl
        | false => exact absurd ⟨rfl, id, rfl⟩ hok
    obtain ⟨hr, hstop', hids⟩ := h.deliver_found e hstop
    rw [hdeliver]
    refine ⟨hr, h.generations, h.resets, h.owned, h.nodup, fun j hj => ⟨(h.last j hj).1, hstop'⟩, h.conn_le, hsilent,
      fun j hj hlt => ?_, fun hc hlost hf => ?_⟩
    · rw [hk] at hj
      cases hj
      exact absurd hle (Nat.not_le_of_lt hlt)
    · have htold := h.told hc hlost hf
      unfold found at htold ⊢
      dsimp only
      rcases hf with hf | hlt
      · have hconn : k = s.conn := Option.some.inj (hk.symm.trans hf)
        subst hconn
        rw [if_pos hk, hchan, List.foldl_cons] at htold
        rw [if_pos hk, Function.update_self]
        exact (tell_perm hids es).trans htold
      · have hne : s.attached ≠ some s.conn := fun e => Nat.ne_of_lt hlt ((h.last _ e).1.symm)
        rw [if_neg hne] at htold
        rw [if_neg hne, hother hlt]
        exact htold

theorem worker (h : s.Inv) {a : Renderer.Step} {renderer : Renderer} (hs : s.renderer.workerStep a = some renderer) :
    Inv { s with renderer := renderer } := by
  have hr := Renderer.workerStep_inv h.renderer hs
  have hstopping := Renderer.workerStep_stopping h.renderer hs
  have hids : ∀ {k}, s.attached = some k → renderer.presentIds.Perm s.renderer.presentIds := fun hk =>
    Renderer.workerStep_ids h.renderer hs (h.last _ hk).2
  refine ⟨hr, h.generations, h.resets, h.owned, h.nodup, fun k hk => ⟨(h.last k hk).1, hstopping.trans (h.last k hk).2⟩,
    h.conn_le, h.silent, fun k hk hlt => ?_, fun hc hlost hf => ?_⟩
  · exact List.perm_nil.1 (h.early k hk hlt ▸ hids hk)
  · refine .trans (tell_perm ?_ _) (h.told hc hlost hf)
    unfold found
    split
    · exact hids ‹_›
    · exact .refl _

end Inv

/-- Every step keeps the invariant. -/
theorem step_inv {a : Action} {t : State} (h : s.Inv) (hs : s.step a = some t) : t.Inv := by
  unfold step at hs
  cases a with
  | createPixmap =>
    cases hs
    exact ⟨h.renderer, h.generations, h.resets, fun hc id hid => List.mem_cons_of_mem _ (h.owned hc id hid), h.nodup, h.last,
      h.conn_le, h.silent, h.early, h.told⟩
  | register id sent =>
    dsimp only at hs
    split at hs
    · rename_i hid
      cases hs
      exact h.lorieRegisterBuffer hid sent
    · cases hs
  | acquire id =>
    dsimp only at hs
    split at hs
    · cases hs
      exact ⟨h.renderer, h.generations, h.resets, h.owned, h.nodup, h.last, h.conn_le, h.silent, h.early, h.told⟩
    · cases hs
  | release id =>
    dsimp only at hs
    split at hs
    · cases hs
      refine Inv.collect ?_ id
      exact ⟨h.renderer, h.generations, h.resets, h.owned, h.nodup, h.last, h.conn_le, h.silent, h.early, h.told⟩
    · cases hs
  | destroyPixmap id sent =>
    dsimp only at hs
    split at hs
    · cases hs
      exact h.destroyPixmap id sent
    · cases hs
  | connect =>
    cases hs
    exact ⟨h.renderer, h.generations, h.resets, h.owned, h.nodup, h.last, Nat.le_succ_of_le h.conn_le, h.silent, h.early,
      h.told⟩
  | install sent =>
    dsimp only at hs
    split at hs
    · rename_i hlt
      cases hs
      exact h.install hlt sent
    · cases hs
  | hangup =>
    dsimp only at hs
    split at hs
    · cases hs
      refine ⟨h.renderer, fun g hg => ?_, fun hc => (by cases hc), fun hc => (by cases hc), h.nodup, h.last, h.conn_le,
        h.silent, h.early, fun hc => (by cases hc)⟩
      rcases List.mem_append.1 hg with hg | hg
      · exact Nat.le_succ_of_le (h.generations g hg)
      · exact Nat.le_of_eq (List.mem_singleton.1 hg)
    · cases hs
  | reset =>
    dsimp only at hs
    split at hs
    · cases hs
    · rename_i generation resets hresets
      cases hs
      have hmem : generation ∈ s.resets := hresets ▸ List.mem_cons_self
      have hrest : ∀ g ∈ resets, g ∈ s.resets := fun g hg => hresets ▸ List.mem_cons_of_mem _ hg
      -- on a connection, the work item is of an older generation
      have hkept : s.connected = true →
          (if s.dataConnection = generation then [] else s.registeredBuffers) = s.registeredBuffers := fun hc =>
        if_neg (Nat.ne_of_gt (h.resets hc generation hmem))
      refine ⟨h.renderer, fun g hg => h.generations g (hrest g hg), fun hc g hg => h.resets hc g (hrest g hg), ?_, ?_, h.last,
        h.conn_le, h.silent, h.early, fun hc hlost hf => (h.told hc hlost hf).trans (.of_eq (hkept hc).symm)⟩
      · intro hc id hid
        exact h.owned hc id (hkept hc ▸ hid)
      · dsimp only
        split
        · exact List.nodup_nil
        · exact h.nodup
  | attach k =>
    dsimp only at hs
    split at hs
    · rename_i hg
      cases hs
      exact h.attach hg.1 hg.2.1
    · cases hs
  | detach =>
    dsimp only at hs
    split at hs
    · rename_i hstop
      cases hs
      exact h.leave (h.disconnected hstop).1
    · cases hs
  | receive ok =>
    dsimp only at hs
    split at hs
    · cases hs
    · rename_i k hk
      split at hs
      · cases hs
      · rename_i e es hchan
        cases hs
        exact h.receive hk hchan ok
  | destroy =>
    dsimp only at hs
    split at hs
    · rename_i hstop
      cases hs
      obtain ⟨hr, -, -⟩ := h.disconnected hstop
      refine h.leave ⟨hr.places, hr.added, hr.looper, hr.attaching, fun hw => ⟨rfl, (hr.retiring hw).2⟩,
        fun hw => ⟨rfl, (hr.ended hw).2⟩⟩
    · cases hs
  | worker a =>
    obtain ⟨renderer, hr, rfl⟩ := Option.map_eq_some_iff.1 hs
    exact h.worker hr

/-- **Imported buffers are accounted for.** A received buffer is in one of the three lists, with the worker that is about to
release it, or released, and there once; the looper releases none that has an image, and when the worker has ended each was
released once. On a connection whose events were all written and delivered, the renderer finds the registered buffers. -/
theorem imports_account {s : State} (h : Reach step Free init s) :
    (∀ b < s.renderer.received, s.renderer.places.count b = 1) ∧
      (∀ b, (b, .looper) ∈ s.renderer.released → s.renderer.graphicsImage b = false) ∧
      (s.renderer.worker = .ended → ∀ b < s.renderer.received, (s.renderer.released.map Prod.fst).count b = 1) ∧
      (s.connected = true → s.attached = some s.conn → s.lost = false → s.chan s.conn = [] →
        s.renderer.presentIds.Perm s.registeredBuffers ∧ s.registeredBuffers.Nodup) := by
  have hinv : s.Inv := h.invariant inv_init fun _ _ _ hi _ hs => step_inv hi hs
  have honce : ∀ b < s.renderer.received, s.renderer.places.count b = 1 := fun b hb =>
    List.count_eq_one_of_mem hinv.renderer.nodup (hinv.renderer.places.mem_iff.2 (List.mem_range.2 hb))
  refine ⟨honce, hinv.renderer.looper, fun hw b hb => ?_, fun hc ha hlost hchan => ?_⟩
  · have hplaces : s.renderer.places = s.renderer.released.map Prod.fst := by
      unfold Renderer.places
      rw [(hinv.renderer.ended hw).2, hw]
      rfl
    exact hplaces ▸ honce b hb
  · have htold := hinv.told hc hlost (.inl ha)
    unfold found at htold
    rw [hchan, if_pos ha] at htold
    exact ⟨htold, hinv.nodup⟩

/-- The renderer is connected, and two buffers are registered; one of them was received. -/
def importing : List Action :=
  [.connect, .install true, .attach 1, .receive true, .createPixmap, .register 0 true, .createPixmap, .register 1 true,
    .receive true]

/-- The worker has an image for the first buffer, whose pixmap goes; the second one is received. -/
def retired : List Action :=
  importing ++
    ([.worker .takeAdded, .worker (.attach true), .destroyPixmap 0 true, .receive true, .receive true] : List Action)

theorem imports_account_retired :
    ∃ s, exec step init retired = some s ∧ s.renderer.places.count 0 = 1 ∧ s.renderer.presentIds.Perm [1] := by
  obtain ⟨s, hs, hfacts⟩ : ∃ s, exec step init retired = some s ∧ s.renderer.received = 2 ∧ s.connected = true ∧
      s.attached = some 1 ∧ s.conn = 1 ∧ s.lost = false ∧ s.chan 1 = [] ∧ s.registeredBuffers = [1] :=
    ⟨_, rfl, by decide⟩
  obtain ⟨hreceived, hc, ha, hconn, hlost, hchan, hregistered⟩ := hfacts
  obtain ⟨honce, -, -, hids⟩ := imports_account (.of_exec retired hs)
  refine ⟨s, hs, honce 0 (by omega), ?_⟩
  exact hregistered ▸ (hids hc (hconn ▸ ha) hlost (hconn ▸ hchan)).1

/-- A buffer that the worker took out of `removedBuffers` is in none of the lists, and after the host has left a connection
nothing is found. -/
theorem taken_in_no_list :
    (¬ ∀ s, Reach step Free init s → ∀ b < s.renderer.received,
        (s.renderer.lists.all ++ s.renderer.released.map Prod.fst).count b = 1) ∧
      ¬ ∀ s, Reach step Free init s → s.connected = true → s.lost = false → s.chan s.conn = [] →
        s.renderer.presentIds.Perm s.registeredBuffers := by
  constructor
  · intro h
    obtain ⟨s, hs, hfacts⟩ : ∃ s, exec step init (retired ++ [Action.worker .takeRemoved]) = some s ∧ 0 < s.renderer.received ∧
        (s.renderer.lists.all ++ s.renderer.released.map Prod.fst).count 0 = 0 :=
      ⟨_, rfl, by decide⟩
    have hone := h s (.of_exec _ hs) 0 hfacts.1
    rw [hfacts.2] at hone
    cases hone
  · intro h
    obtain ⟨s, hs, hfacts⟩ : ∃ s, exec step init (importing ++ [Action.receive true, Action.detach]) = some s ∧ s.connected = true ∧
        s.lost = false ∧ s.conn = 1 ∧ s.chan 1 = [] ∧ s.renderer.presentIds = [] ∧ s.registeredBuffers = [1, 0] :=
      ⟨_, rfl, by decide⟩
    obtain ⟨hc, hlost, hconn, hchan, hids, hregistered⟩ := hfacts
    have hperm := h s (.of_exec _ hs) hc hlost (hconn ▸ hchan)
    rw [hids, hregistered] at hperm
    exact absurd hperm.length_eq (by decide)

end State

end Lorie.Imports
