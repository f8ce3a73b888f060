import Lorie.RendererThread.Model
import Mathlib.Data.List.Nodup

/-!
# What the two threads know of each other

The fields that the requests of the host are about (`Core`), where the worker stands (`Stage`), and what holds between them in
every run (`Control`): only the record whose request is open is marked as changed, a shared state is pending only while its
sender waits, a mapping is in use only while the connection's descriptor is open, and a worker that has not begun or is about to
end finds nothing to release but its device.

- `core_..`: what a step makes of the core; `stage_signal`;
- `Control.request`, `Control.take`, ...: what the steps do to `Control`.
-/

namespace Lorie.RendererThread

open Lorie.Lib

/-- What `setOutputSurface` and `refreshOutputSurfaces` change of a record. -/
structure Slot where
  id : Nat
  window : Option Nat
  pending : Option Nat
  surface : Option Surface
  changed : Bool

def Output.slot (o : Output) : Slot := ⟨o.id, o.window, o.pending, o.surface, o.changed⟩

/-- What a record owns. -/
def Slot.resources (o : Slot) : List Resource :=
  o.surface.toList.map Resource.surface ++ o.window.toList.map Resource.window ++ o.pending.toList.map Resource.window

/-- The fields that the requests of the host are about. -/
structure Core where
  slots : List Slot
  stateChanged : Bool
  pendingState : Option Mapping
  state : Option Mapping
  peerFd : Option Nat
  fd : Option Nat
  host : Host
  leaving : Bool
  initialized : Bool
  stopping : Bool
  graphicsDevice : Bool
  lost : List Resource

def State.core (s : State) : Core where
  slots := s.outputs.map Output.slot
  stateChanged := s.stateChanged
  pendingState := s.pendingState
  state := s.state
  peerFd := s.peerFd
  fd := s.fd
  host := s.host
  leaving := s.leaving
  initialized := s.initialized
  stopping := s.stopping
  graphicsDevice := s.graphicsDevice
  lost := s.lost

/-- The stages of the worker's life -/
inductive Stage where
  | absent
  | starting
  /-- Between two passes of the loop -/
  | looping
  /-- In `drawOutputs` -/
  | drawing
  | releasing
  | released
  | exited
  deriving DecidableEq

def Worker.stage : Worker → Stage
  | .absent => .absent
  | .starting => .starting
  | .testing | .asleep | .retiring => .looping
  | .releasing => .releasing
  | .released => .released
  | .exited => .exited
  | _ => .drawing

/-- The worker is in its loop. -/
def Stage.runs : Stage → Bool
  | .looping | .drawing => true
  | _ => false

/-- The host waits for the surface of this record. -/
def Host.asks (id : Nat) : Host → Bool
  | .waiting (.surface i _ _) _ => i = id
  | _ => false

/-- The host waits for a shared state to be taken over. -/
def Host.shares : Host → Bool
  | .waiting (.shared _) _ => true
  | _ => false

/-- The host waits for the shared state to be given up. -/
def Host.detaches : Host → Bool
  | .waiting (.shared true) _ => true
  | _ => false

/-- The host waits for `init`. -/
def Host.initializes : Host → Bool
  | .waiting .init _ => true
  | _ => false

/-- The host's thread asks for nothing any more, or not yet. -/
def Host.ended (leaving : Bool) : Host → Bool
  | .born | .joining | .gone => true
  | .idle => leaving
  | .waiting r _ => r = .init

/-- There is nothing that the worker could use or release, but its device. -/
structure Core.Bare (c : Core) : Prop where
  slots : c.slots = []
  state : c.state = none
  pendingState : c.pendingState = none
  fd : c.fd = none
  stateChanged : c.stateChanged = false

/-- The worker does not run, or it is told to stop. -/
def Core.Ending (c : Core) (p : Stage) : Prop := c.stopping = true ∨ p.runs = false

/-- **What the threads know of each other.** -/
structure Control (c : Core) (p : Stage) : Prop where
  ids : (c.slots.map (·.id)).Nodup
  surface : ∀ o ∈ c.slots, ∀ f, o.surface = some f → o.window = some f.window
  changed : ∀ o ∈ c.slots, o.changed = true → c.host.asks o.id = true
  pending : ∀ o ∈ c.slots, o.changed = false → o.pending = none
  shares : c.stateChanged = true → c.host.shares = true
  pendingState : c.pendingState ≠ none → c.stateChanged = true
  distinct : ∀ m, c.state = some m → c.pendingState ≠ some m
  connected : c.state ≠ none ∨ c.pendingState ≠ none → c.fd ≠ none
  peer : c.peerFd = c.fd
  detaches : c.host.detaches = true → c.pendingState = none ∧ (c.stateChanged = false → c.state = none)
  asked : ∀ id w r b, c.host = .waiting (.surface id w r) b → ∀ o ∈ c.slots, o.id = id →
    (if o.changed then o.pending else o.window) = w
  ended : c.Ending p → c.Bare ∧ c.host.ended c.leaving = true
  leaving : c.leaving = true → c.host.detaches = true ∨ c.fd = none
  initializing : c.host.initializes = true → c.initialized = true → p.runs = true ∧ c.stopping = false
  uninitialized : p = .absent ∨ p = .starting → c.initialized = false
  starting : p = .starting → c.host.initializes = true ∧ c.stopping = false
  born : c.host = .born → p = .absent ∧ c.stopping = false
  gone : c.host = .gone → p = .exited ∨ p = .absent
  device : p.runs = true → c.graphicsDevice = true
  begun : p.runs = true → c.initialized = true
  released : c.graphicsDevice = true → p.runs = true ∨ p = .releasing
  mapped : p = .drawing → c.state ≠ none
  lost : ∀ f, Resource.surface f ∈ c.lost → Resource.window f.window ∈ c.lost

/-! ## Steps and the core -/

theorem stage_signal (s : State) : s.signal.worker.stage = s.worker.stage := by
  unfold State.signal
  split
  · rename_i h
    simp [h, Worker.stage]
  · rfl

theorem core_signal (s : State) : s.signal.core = s.core := by
  unfold State.signal
  split <;> rfl

theorem log_signal (s : State) : s.signal.log = s.log := by
  unfold State.signal
  split <;> rfl

/-- A record is changed outside its slot. -/
theorem slots_update {g : Output → Output} (hg : ∀ o, (g o).slot = o.slot) (id : Nat) (outputs : List Output) :
    (update id g outputs).map Output.slot = outputs.map Output.slot := by
  simp only [update, List.map_map]
  refine List.map_congr_left fun o _ => ?_
  simp only [Function.comp_apply]
  split
  · exact hg o
  · rfl

theorem slot_addLayer (o : Output) : o.addLayer.slot = o.slot := by
  unfold Output.addLayer
  split <;> rfl

theorem slots_invalidate (outputs : List Output) :
    (outputs.map Output.invalidate).map Output.slot = outputs.map Output.slot := by
  rw [List.map_map]
  exact List.map_congr_left fun o _ => rfl

/-- `setOutputSurface` of a slot -/
def Slot.request (window : Option Nat) (o : Slot) : Slot := { o with pending := window, changed := true }

/-- `refreshOutputSurfaces` of a slot -/
def Slot.refresh (failing : List Nat) (number : Nat) (o : Slot) : Slot :=
  if o.changed then
    { o with
      surface := if o.id ∈ failing then none else o.pending.map fun w => ⟨number, w⟩
      window := o.pending
      pending := none
      changed := false }
  else o

theorem slot_refresh (failing : List Nat) (number : Nat) (o : Output) :
    (o.refresh failing number).slot = o.slot.refresh failing number := by
  cases hchanged : o.changed <;> simp [Output.refresh, Slot.refresh, Output.slot, Output.surfaceFor, hchanged]

/-- `refreshOutputSurfaces` over the slots -/
def refreshSlots (failing : List Nat) : Nat → List Slot → List Slot
  | _, [] => []
  | n, o :: os => o.refresh failing n :: refreshSlots failing (n + 1) os

theorem slots_refreshOutputs (failing : List Nat) (n : Nat) (outputs : List Output) :
    (refreshOutputs failing n outputs).map Output.slot = refreshSlots failing n (outputs.map Output.slot) := by
  induction outputs generalizing n with
  | nil => rfl
  | cons o os ih => simp [refreshOutputs, refreshSlots, slot_refresh, ih]

theorem slots_request (id : Nat) (window : Option Nat) (release : Bool) (outputs : List Output) :
    (update id (·.request window release) outputs).map Output.slot =
      (outputs.map Output.slot).map fun o => if o.id = id then o.request window else o := by
  simp only [update, List.map_map]
  refine List.map_congr_left fun o _ => ?_
  simp only [Function.comp_apply]
  by_cases hid : o.id = id <;> simp [hid, Output.slot, Output.request, Slot.request]

/-! ## The requests of the host -/

namespace Control

variable {c : Core} {p : Stage} {o : Slot}

/-- Who asks for something knows that the worker runs. -/
theorem running (h : Control c p) (hhost : c.host.ended c.leaving = false) : ¬c.Ending p := by
  intro hending
  rw [(h.ended hending).2] at hhost
  cases hhost

theorem not_starting {P : Prop} (hrunning : ¬c.Ending p) (hp : p = .starting) : P :=
  absurd (.inr (by simp [hp, Stage.runs])) hrunning

theorem idle_unchanged (h : Control c p) (hidle : c.host = .idle) (ho : o ∈ c.slots) : o.changed = false := by
  cases hchanged : o.changed
  · rfl
  · have hasks := h.changed o ho hchanged
    simp [hidle, Host.asks] at hasks

theorem idle_settled (h : Control c p) (hidle : c.host = .idle) : c.stateChanged = false := by
  cases hchanged : c.stateChanged
  · rfl
  · have hshares := h.shares hchanged
    simp [hidle, Host.shares] at hshares

theorem idle_left (h : Control c p) (hidle : c.host = .idle) (hleaving : c.leaving = true) : c.fd = none := by
  rcases h.leaving hleaving with hdetaches | hfd
  · simp [hidle, Host.detaches] at hdetaches
  · exact hfd

/-- `setOutputSurface` of a record that is there. -/
theorem request (h : Control c p) (hidle : c.host = .idle) (hrunning : ¬c.Ending p) (id : Nat) (window : Option Nat)
    (release : Bool) :
    Control { c with
      slots := c.slots.map fun o => if o.id = id then o.request window else o
      host := .waiting (.surface id window release) true } p := by
  have hids (o : Slot) : (if o.id = id then o.request window else o).id = o.id := by
    split <;> rfl
  refine { h with
    ids := ?_, surface := ?_, changed := ?_, pending := ?_, shares := ?_, detaches := ?_, asked := ?_, ended := ?_,
    leaving := ?_,
    initializing := ?_, starting := not_starting hrunning, born := ?_, gone := ?_ }
  · simpa [List.map_map, Function.comp_def, hids] using h.ids
  · intro o' ho' f hf
    obtain ⟨o, ho, rfl⟩ := List.mem_map.1 ho'
    have hsurface := h.surface o ho f
    by_cases hid : o.id = id <;> simp only [hid, if_true, if_false, Slot.request] at hf ⊢ <;> exact hsurface hf
  · intro o' ho' hchanged
    obtain ⟨o, ho, rfl⟩ := List.mem_map.1 ho'
    by_cases hid : o.id = id
    · simp [hid, Host.asks, Slot.request]
    · have hunchanged := h.idle_unchanged hidle ho
      simp [hid, hunchanged] at hchanged
  · intro o' ho' hchanged
    obtain ⟨o, ho, rfl⟩ := List.mem_map.1 ho'
    by_cases hid : o.id = id
    · simp [hid, Slot.request] at hchanged
    · simp only [hid, if_false] at hchanged ⊢
      exact h.pending o ho hchanged
  · intro hchanged
    have hsettled := h.idle_settled hidle
    simp [hsettled] at hchanged
  · simp [Host.detaches]
  · intro i w r b hhost o' ho' hid'
    obtain ⟨o, ho, rfl⟩ := List.mem_map.1 ho'
    cases hhost
    rw [hids] at hid'
    simp [hid', Slot.request]
  · exact fun hending => absurd hending hrunning
  · exact fun hleaving => .inr (h.idle_left hidle hleaving)
  · simp [Host.initializes]
  · simp
  · simp

/-- `setOutputSurface` with a new record -/
theorem create (h : Control c p) (hidle : c.host = .idle) (hrunning : ¬c.Ending p) {id : Nat}
    (hid : ∀ o ∈ c.slots, o.id ≠ id) (window : Option Nat) (release : Bool) :
    Control { c with
      slots := (Output.new id).slot.request window :: c.slots
      host := .waiting (.surface id window release) true } p := by
  refine { h with
    ids := ?_, surface := ?_, changed := ?_, pending := ?_, shares := ?_, detaches := ?_, asked := ?_, ended := ?_,
    leaving := ?_,
    initializing := ?_, starting := not_starting hrunning, born := ?_, gone := ?_ }
  · simp only [List.map_cons, List.nodup_cons, List.mem_map, not_exists, not_and]
    exact ⟨fun o ho => hid o ho, h.ids⟩
  · refine List.forall_mem_cons.2 ⟨fun f hf => ?_, h.surface⟩
    simp [Slot.request, Output.slot, Output.new] at hf
  · refine List.forall_mem_cons.2 ⟨fun _ => ?_, fun o ho hchanged => ?_⟩
    · simp [Slot.request, Output.slot, Output.new, Host.asks]
    · simp [h.idle_unchanged hidle ho] at hchanged
  · refine List.forall_mem_cons.2 ⟨fun hchanged => ?_, h.pending⟩
    simp [Slot.request] at hchanged
  · intro hchanged
    simp [h.idle_settled hidle] at hchanged
  · simp [Host.detaches]
  · intro i w r b hhost
    cases hhost
    refine List.forall_mem_cons.2 ⟨fun _ => ?_, fun o ho hid' => absurd hid' (hid o ho)⟩
    simp [Slot.request]
  · exact fun hending => absurd hending hrunning
  · exact fun hleaving => .inr (h.idle_left hidle hleaving)
  · simp [Host.initializes]
  · simp
  · simp

/-- `setSharedState` -/
theorem share (h : Control c p) (hidle : c.host = .idle) (hrunning : ¬c.Ending p) {m : Option Mapping}
    {disconnecting leaving : Bool} (hm : m ≠ none → c.fd ≠ none) (hdistinct : ∀ m', c.state = some m' → m ≠ some m')
    (hdisconnecting : disconnecting = true → m = none) (hleaving : leaving = true → disconnecting = true) :
    Control { c with
      pendingState := m
      stateChanged := true
      leaving := leaving
      host := .waiting (.shared disconnecting) true } p := by
  refine { h with
    changed := ?_, shares := ?_, pendingState := ?_, distinct := hdistinct, connected := ?_, detaches := ?_,
    asked := by simp, ended := ?_,
    leaving := ?_, initializing := ?_, starting := not_starting hrunning, born := ?_, gone := ?_ }
  · intro o ho hchanged
    simp [h.idle_unchanged hidle ho] at hchanged
  · simp [Host.shares]
  · simp
  · rintro (hstate | hpending)
    · exact h.connected (.inl hstate)
    · exact hm hpending
  · cases disconnecting
    · simp [Host.detaches]
    · simp [hdisconnecting rfl]
  · exact fun hending => absurd hending hrunning
  · intro hl
    left
    simp [hleaving hl, Host.detaches]
  · simp [Host.initializes]
  · simp
  · simp

/-- `connect` with a descriptor -/
theorem connect (h : Control c p) (hrunning : ¬c.Ending p) (hleaving : c.leaving = false) (fd : Nat) :
    Control { c with fd := some fd, peerFd := some fd } p := by
  refine { h with connected := ?_, peer := rfl, ended := ?_, leaving := ?_ }
  · simp
  · exact fun hending => absurd hending hrunning
  · simp [hleaving]

/-- The end of `setOutputSurface` that keeps the record -/
theorem finishSurface (h : Control c p) {id : Nat} {window : Option Nat} {release asleep : Bool}
    (hhost : c.host = .waiting (.surface id window release) asleep)
    (hanswered : ∀ o ∈ c.slots, o.id = id → o.changed = false) :
    Control { c with host := .idle } p := by
  have hrunning := h.running (by simp [hhost, Host.ended])
  refine { h with
    changed := ?_, shares := ?_, detaches := ?_, asked := by simp, ended := ?_, leaving := ?_, initializing := ?_,
    starting := not_starting hrunning, born := ?_, gone := ?_ }
  · intro o ho hchanged
    have hasks := h.changed o ho hchanged
    simp only [hhost, Host.asks, decide_eq_true_eq] at hasks
    simp [hanswered o ho hasks.symm] at hchanged
  · intro hchanged
    have hshares := h.shares hchanged
    simp [hhost, Host.shares] at hshares
  · simp [Host.detaches]
  · exact fun hending => absurd hending hrunning
  · intro hleaving
    have hleft := h.leaving hleaving
    simpa [hhost, Host.detaches] using hleft
  · simp [Host.initializes]
  · simp
  · simp

/-- A record is freed. -/
theorem remove (h : Control c p) {pre post : List Slot} (hslots : c.slots = pre ++ o :: post) :
    Control { c with slots := pre ++ post, lost := c.lost ++ o.resources } p := by
  have hmem (o' : Slot) (ho' : o' ∈ pre ++ post) : o' ∈ c.slots := by
    rw [hslots]
    simp only [List.mem_append, List.mem_cons] at ho' ⊢
    tauto
  refine { h with
    ids := ?_, surface := ?_, changed := ?_, pending := ?_, asked := ?_, ended := ?_, lost := ?_ }
  · have hids := h.ids
    rw [hslots, List.map_append, List.map_cons] at hids
    rw [List.map_append]
    exact (List.nodup_middle.1 hids).of_cons
  · exact fun o' ho' => h.surface o' (hmem o' ho')
  · exact fun o' ho' => h.changed o' (hmem o' ho')
  · exact fun o' ho' => h.pending o' (hmem o' ho')
  · exact fun id w r b hhost o' ho' => h.asked id w r b hhost o' (hmem o' ho')
  · intro hending
    have hnil := (h.ended hending).1.slots
    simp [hslots] at hnil
  · intro f hf
    rcases List.mem_append.1 hf with hf | hf
    · exact List.mem_append_left _ (h.lost f hf)
    · have hsurface : o.surface = some f := by simpa [Slot.resources] using hf
      have hwindow := h.surface o (by simp [hslots]) f hsurface
      simp [Slot.resources, hwindow]

/-- The end of `setSharedState` with a new state -/
theorem finishShared (h : Control c p) {asleep : Bool} (hhost : c.host = .waiting (.shared false) asleep)
    (hanswered : c.stateChanged = false) : Control { c with host := .idle } p := by
  have hrunning := h.running (by simp [hhost, Host.ended])
  refine { h with
    changed := ?_, shares := ?_, detaches := ?_, asked := by simp, ended := ?_, leaving := ?_, initializing := ?_,
    starting := not_starting hrunning, born := ?_, gone := ?_ }
  · intro o ho hchanged
    have hasks := h.changed o ho hchanged
    simp [hhost, Host.asks] at hasks
  · simp [hanswered]
  · simp [Host.detaches]
  · exact fun hending => absurd hending hrunning
  · intro hleaving
    have hleft := h.leaving hleaving
    simpa [hhost, Host.detaches] using hleft
  · simp [Host.initializes]
  · simp
  · simp

/-- The end of `disconnect` -/
theorem finishDisconnect (h : Control c p) {asleep : Bool} (hhost : c.host = .waiting (.shared true) asleep)
    (hanswered : c.stateChanged = false) : Control { c with host := .idle, peerFd := none, fd := none } p := by
  have hrunning := h.running (by simp [hhost, Host.ended])
  obtain ⟨hpending, hstate⟩ := h.detaches (by simp [hhost, Host.detaches])
  refine { h with
    changed := ?_, shares := ?_, connected := ?_, peer := rfl, detaches := ?_, asked := by simp, ended := ?_, leaving := ?_,
    initializing := ?_, starting := not_starting hrunning, born := ?_, gone := ?_ }
  · intro o ho hchanged
    have hasks := h.changed o ho hchanged
    simp [hhost, Host.asks] at hasks
  · simp [hanswered]
  · simp [hpending, hstate hanswered]
  · simp [Host.detaches]
  · exact fun hending => absurd hending hrunning
  · simp
  · simp [Host.initializes]
  · simp
  · simp

/-- The end of `init` -/
theorem finishInit (h : Control c p) {asleep : Bool} (hhost : c.host = .waiting .init asleep)
    (hanswered : c.initialized = true ∨ c.stopping = true) :
    Control { c with host := .idle, leaving := !c.initialized } p := by
  have hinitialized (hi : c.initialized = true) : ¬c.Ending p := by
    have hrunning := h.initializing (by simp [hhost, Host.initializes]) hi
    simp [Core.Ending, hrunning]
  have hbare (hi : c.initialized = false) : c.Bare := (h.ended (.inl (hanswered.resolve_left (by simp [hi])))).1
  refine { h with
    changed := ?_, shares := ?_, detaches := ?_, asked := by simp, ended := ?_, leaving := ?_, initializing := ?_,
    starting := ?_, born := ?_,
    gone := ?_ }
  · intro o ho hchanged
    have hasks := h.changed o ho hchanged
    simp [hhost, Host.asks] at hasks
  · intro hchanged
    have hshares := h.shares hchanged
    simp [hhost, Host.shares] at hshares
  · simp [Host.detaches]
  · intro hending
    cases hi : c.initialized
    · exact ⟨{ hbare hi with }, by simp [Host.ended]⟩
    · exact absurd hending (hinitialized hi)
  · intro hleaving
    right
    exact (hbare (by simpa using hleaving)).fd
  · simp [Host.initializes]
  · intro hstarting
    rcases hanswered with hi | hstopping
    · simp [h.uninitialized (.inr hstarting)] at hi
    · simp [(h.starting hstarting).2] at hstopping
  · simp
  · simp

/-- `pthread_create` -/
theorem createThread (h : Control c p) (hborn : c.host = .born) :
    Control { c with host := .waiting .init true } .starting := by
  obtain ⟨habsent, hstopping⟩ := h.born hborn
  have hbare := (h.ended (.inr (by simp [habsent, Stage.runs]))).1
  have hinitialized := h.uninitialized (.inl habsent)
  have hreleased : c.graphicsDevice = false := by
    cases hdevice : c.graphicsDevice
    · rfl
    · have hstage := h.released hdevice
      simp [habsent, Stage.runs] at hstage
  refine { h with
    changed := ?_, shares := ?_, detaches := ?_, asked := by simp, ended := ?_, leaving := ?_, initializing := ?_,
    uninitialized := fun _ => hinitialized, starting := ?_, born := ?_, gone := ?_, device := ?_,
    begun := by simp [Stage.runs], released := ?_, mapped := ?_ }
  · simp [hbare.slots]
  · simp [hbare.stateChanged]
  · simp [Host.detaches]
  · exact fun _ => ⟨{ hbare with }, by simp [Host.ended]⟩
  · simp [hbare.fd]
  · simp [hinitialized]
  · simp [Host.initializes, hstopping]
  · simp
  · simp
  · simp [Stage.runs]
  · simp [hreleased]
  · simp

/-- `pthread_create` fails. -/
theorem createFailed (h : Control c p) (hborn : c.host = .born) :
    Control { c with stopping := true, host := .idle, leaving := true } p := by
  have habsent := (h.born hborn).1
  have hbare := (h.ended (.inr (by simp [habsent, Stage.runs]))).1
  refine { h with
    changed := ?_, shares := ?_, detaches := ?_, asked := by simp, ended := ?_, leaving := ?_, initializing := ?_,
    starting := ?_, born := ?_,
    gone := ?_ }
  · simp [hbare.slots]
  · simp [hbare.stateChanged]
  · simp [Host.detaches]
  · exact fun _ => ⟨{ hbare with }, by simp [Host.ended]⟩
  · simp [hbare.fd]
  · simp [Host.initializes]
  · simp [habsent]
  · simp
  · simp

/-- `destroy` up to `pthread_join` -/
theorem destroy (h : Control c p) (hidle : c.host = .idle) (hleaving : c.leaving = true) (hslots : c.slots = []) :
    Control { c with stopping := true, host := .joining } p := by
  have hfd := h.idle_left hidle hleaving
  have hsettled := h.idle_settled hidle
  have hstate : c.state = none := by
    by_contra hstate
    exact h.connected (.inl hstate) hfd
  have hpending : c.pendingState = none := by
    by_contra hpending
    exact h.connected (.inr hpending) hfd
  refine { h with
    changed := ?_, shares := ?_, detaches := ?_, asked := by simp, ended := ?_, leaving := fun _ => .inr hfd,
    initializing := ?_, starting := ?_,
    born := ?_, gone := ?_ }
  · simp [hslots]
  · simp [hsettled]
  · simp [Host.detaches]
  · exact fun _ => ⟨⟨hslots, hstate, hpending, hfd, hsettled⟩, by simp [Host.ended]⟩
  · simp [Host.initializes]
  · intro hstarting
    have hinitializes := (h.starting hstarting).1
    simp [hidle, Host.initializes] at hinitializes
  · simp
  · simp

/-- `pthread_join` returns. -/
theorem join (h : Control c p) (hp : p = .exited ∨ p = .absent) : Control { c with host := .gone } p := by
  have hbare := (h.ended (.inr (by rcases hp with rfl | rfl <;> simp [Stage.runs]))).1
  refine { h with
    changed := ?_, shares := ?_, detaches := ?_, asked := by simp, ended := ?_, leaving := fun _ => .inr hbare.fd,
    initializing := ?_, starting := ?_, born := ?_, gone := fun _ => hp }
  · simp [hbare.slots]
  · simp [hbare.stateChanged]
  · simp [Host.detaches]
  · exact fun _ => ⟨{ hbare with }, by simp [Host.ended]⟩
  · simp [Host.initializes]
  · rcases hp with rfl | rfl <;> simp
  · simp

/-! ## The worker -/

/-- A waiting host is signalled, or goes to sleep. -/
theorem wake (h : Control c p) {r : Request} {asleep : Bool} (hhost : c.host = .waiting r asleep) (b : Bool) :
    Control { c with host := .waiting r b } p := by
  have hasks (id : Nat) : (Host.waiting r b).asks id = c.host.asks id := by
    rw [hhost]
    cases r <;> rfl
  have hshares : (Host.waiting r b).shares = c.host.shares := by
    rw [hhost]
    cases r <;> rfl
  have hdetaches : (Host.waiting r b).detaches = c.host.detaches := by
    rw [hhost]
    rcases r with _ | _ | d
    · rfl
    · rfl
    · cases d <;> rfl
  have hinitializes : (Host.waiting r b).initializes = c.host.initializes := by
    rw [hhost]
    cases r <;> rfl
  have hended : (Host.waiting r b).ended c.leaving = c.host.ended c.leaving := by
    rw [hhost]
    rfl
  refine { h with
    changed := ?_, shares := ?_, detaches := ?_, asked := ?_, ended := ?_, leaving := ?_, initializing := ?_, starting := ?_,
    born := ?_,
    gone := ?_ }
  · simpa only [hasks] using h.changed
  · simpa only [hshares] using h.shares
  · simpa only [hdetaches] using h.detaches
  · intro id w release b' hsame
    cases hsame
    exact h.asked id w release asleep hhost
  · intro hending
    obtain ⟨hbare, hhost'⟩ := h.ended hending
    exact ⟨{ hbare with }, hended.trans hhost'⟩
  · simpa only [hdetaches] using h.leaving
  · simpa only [hinitializes] using h.initializing
  · simpa only [hinitializes] using h.starting
  · simp
  · simp

/-- A new shared state is taken over. -/
theorem take (h : Control c .looping) : Control { c with
    state := c.pendingState
    pendingState := none
    stateChanged := false } .looping := by
  refine { h with
    shares := ?_, pendingState := ?_, distinct := ?_, connected := ?_, detaches := ?_, ended := ?_, mapped := ?_ }
  · simp
  · simp
  · simp
  · rintro (hstate | hpending)
    · exact h.connected (.inr hstate)
    · exact absurd rfl hpending
  · exact fun hdetaches => ⟨rfl, fun _ => (h.detaches hdetaches).1⟩
  · intro hending
    obtain ⟨hbare, hhost⟩ := h.ended hending
    exact ⟨⟨hbare.slots, hbare.pendingState, rfl, hbare.fd, rfl⟩, hhost⟩
  · simp

theorem refreshSlots_ids (failing : List Nat) (n : Nat) (slots : List Slot) :
    (refreshSlots failing n slots).map (·.id) = slots.map (·.id) := by
  induction slots generalizing n with
  | nil => rfl
  | cons o os ih =>
    have hid : (o.refresh failing n).id = o.id := by
      unfold Slot.refresh
      split <;> rfl
    simp [refreshSlots, hid, ih]

theorem mem_refreshSlots {failing : List Nat} {n : Nat} {slots : List Slot} (ho : o ∈ refreshSlots failing n slots) :
    ∃ o' ∈ slots, ∃ k, o = o'.refresh failing k := by
  induction slots generalizing n with
  | nil => simp [refreshSlots] at ho
  | cons o' os ih =>
    rcases List.mem_cons.1 ho with rfl | ho
    · exact ⟨o', by simp, n, rfl⟩
    · obtain ⟨o'', ho'', hk⟩ := ih ho
      exact ⟨o'', List.mem_cons_of_mem _ ho'', hk⟩

/-- A record takes over the surface of its window. -/
theorem refresh_surface (h : ∀ f, o.surface = some f → o.window = some f.window) (failing : List Nat) (n : Nat)
    {f : Surface} (hf : (o.refresh failing n).surface = some f) : (o.refresh failing n).window = some f.window := by
  cases hchanged : o.changed
  · simp only [Slot.refresh, hchanged, Bool.false_eq_true, if_false] at hf ⊢
    exact h f hf
  · simp only [Slot.refresh, hchanged, if_true] at hf ⊢
    split at hf
    · cases hf
    · obtain ⟨w, hw, rfl⟩ := Option.map_eq_some_iff.1 hf
      exact hw

/-- The records take over their surfaces. -/
theorem refresh (h : Control c p) (failing : List Nat) (n : Nat) :
    Control { c with slots := refreshSlots failing n c.slots } p := by
  refine { h with ids := ?_, surface := ?_, changed := ?_, pending := ?_, asked := ?_, ended := ?_ }
  · simpa only [refreshSlots_ids] using h.ids
  · intro o' ho' f hf
    obtain ⟨o, ho, k, rfl⟩ := mem_refreshSlots ho'
    exact refresh_surface (h.surface o ho) failing k hf
  · intro o' ho' hchanged'
    obtain ⟨o, ho, k, rfl⟩ := mem_refreshSlots ho'
    cases hchanged : o.changed <;> simp [Slot.refresh, hchanged] at hchanged'
  · intro o' ho' _
    obtain ⟨o, ho, k, rfl⟩ := mem_refreshSlots ho'
    cases hchanged : o.changed
    · simpa [Slot.refresh, hchanged] using h.pending o ho hchanged
    · simp [Slot.refresh, hchanged]
  · intro id w r b hhost o' ho' hid
    obtain ⟨o, ho, k, rfl⟩ := mem_refreshSlots ho'
    have hasked := h.asked id w r b hhost o ho
    cases hchanged : o.changed <;> simp [Slot.refresh, hchanged] at hid hasked ⊢ <;> exact hasked hid
  · intro hending
    obtain ⟨hbare, hhost⟩ := h.ended hending
    exact ⟨{ hbare with slots := by simp [hbare.slots, refreshSlots] }, hhost⟩

/-- `drawOutputs` begins or ends. -/
theorem turn (h : Control c p) {q : Stage} (hp : p.runs = true) (hq : q = .looping ∨ q = .drawing ∧ c.state ≠ none) :
    Control c q := by
  have hrunsq : q.runs = true := by
    rcases hq with rfl | ⟨rfl, -⟩ <;> rfl
  refine { h with
    ended := ?_, initializing := ?_, uninitialized := ?_, starting := ?_, born := ?_, gone := ?_,
    device := fun _ => h.device hp, begun := fun _ => h.begun hp, released := fun _ => .inl hrunsq, mapped := ?_ }
  · intro hending
    refine h.ended (hending.imp_right fun hruns => ?_)
    simp [hrunsq] at hruns
  · exact fun hinitializes hi => ⟨hrunsq, (h.initializing hinitializes hi).2⟩
  · rcases hq with rfl | ⟨rfl, -⟩ <;> simp
  · rcases hq with rfl | ⟨rfl, -⟩ <;> simp
  · intro hborn
    have habsent := (h.born hborn).1
    simp [habsent, Stage.runs] at hp
  · intro hgone
    rcases h.gone hgone with rfl | rfl <;> simp [Stage.runs] at hp
  · rcases hq with rfl | ⟨rfl, hstate⟩
    · simp
    · exact fun _ => hstate

/-- `initThread` makes the device. -/
theorem start (h : Control c .starting) : Control { c with graphicsDevice := true, initialized := true } .looping := by
  obtain ⟨hinitializes, hstopping⟩ := h.starting rfl
  obtain ⟨hbare, -⟩ := h.ended (.inr rfl)
  refine { h with
    ended := ?_, initializing := fun _ _ => ⟨rfl, hstopping⟩, uninitialized := ?_, starting := ?_, born := ?_, gone := ?_,
    device := fun _ => rfl, begun := fun _ => rfl, released := fun _ => .inl rfl, mapped := ?_ }
  · intro hending
    simp [Core.Ending, hstopping, Stage.runs] at hending
  · simp
  · simp
  · intro hborn
    have habsent := (h.born hborn).1
    cases habsent
  · intro hgone
    rcases h.gone hgone with habsent | habsent <;> cases habsent
  · simp

/-- The loop ends, or there is no device. -/
theorem leave (h : Control c p) (hp : p = .looping ∧ c.stopping = true ∨ p = .starting) : Control c .releasing := by
  have hending : c.Ending p := by
    rcases hp with ⟨-, hstopping⟩ | rfl
    · exact .inl hstopping
    · exact .inr rfl
  refine { h with
    ended := fun _ => h.ended hending, initializing := ?_, uninitialized := ?_, starting := ?_, born := ?_, gone := ?_,
    device := ?_, begun := by simp [Stage.runs], released := fun _ => .inr rfl, mapped := ?_ }
  · intro hinitializes hi
    rcases hp with ⟨-, hstopping⟩ | rfl
    · have hrunning := (h.initializing hinitializes hi).2
      simp [hstopping] at hrunning
    · have huninitialized := h.uninitialized (.inr rfl)
      simp [hi] at huninitialized
  · simp
  · simp
  · intro hborn
    have habsent := (h.born hborn).1
    rcases hp with ⟨rfl, -⟩ | rfl <;> cases habsent
  · intro hgone
    rcases hp with ⟨rfl, -⟩ | rfl <;> rcases h.gone hgone with habsent | habsent <;> cases habsent
  · simp [Stage.runs]
  · simp

/-- `releaseGraphics` -/
theorem release (h : Control c .releasing) : Control { c with graphicsDevice := false } .released := by
  refine { h with
    ended := fun _ => ?_, initializing := ?_, uninitialized := ?_, starting := ?_, born := ?_, gone := ?_, device := ?_,
    begun := by simp [Stage.runs],
    released := ?_, mapped := ?_ }
  · obtain ⟨hbare, hhost⟩ := h.ended (.inr rfl)
    exact ⟨{ hbare with }, hhost⟩
  · intro hinitializes hi
    have hruns := (h.initializing hinitializes hi).1
    cases hruns
  · simp
  · simp
  · intro hborn
    have habsent := (h.born hborn).1
    cases habsent
  · intro hgone
    rcases h.gone hgone with habsent | habsent <;> cases habsent
  · simp [Stage.runs]
  · simp
  · simp

/-- The worker has stopped. -/
theorem exit (h : Control c .released) : Control { c with stopping := true } .exited := by
  refine { h with
    ended := fun _ => ?_, initializing := ?_, uninitialized := ?_, starting := ?_, born := ?_, gone := ?_, device := ?_,
    begun := by simp [Stage.runs],
    released := ?_, mapped := ?_ }
  · obtain ⟨hbare, hhost⟩ := h.ended (.inr rfl)
    exact ⟨{ hbare with }, hhost⟩
  · intro hinitializes hi
    have hruns := (h.initializing hinitializes hi).1
    cases hruns
  · simp
  · simp
  · intro hborn
    have habsent := (h.born hborn).1
    cases habsent
  · simp
  · simp [Stage.runs]
  · intro hdevice
    rcases h.released hdevice with hruns | hstage
    · cases hruns
    · cases hstage
  · simp

end Control

end Lorie.RendererThread
