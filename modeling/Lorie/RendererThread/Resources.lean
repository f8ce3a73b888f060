import Lorie.RendererThread.Control
import Lorie.RendererThread.Steps

/-!
# What the renderer acquires is released once, and not used after that

The connection, the records of its outputs, the mapping and the graphics device are what the renderer has in hand
(`State.resources`). The log of what was done with them is accepted in every run of the threads: nothing is used that was given
back, whatever the snapshot of a draw still refers to, nothing is given back twice, and a window only after its surface.

- `Closed`, `give`: surfaces are in hand with their windows, and resources are given back in this order;
- `Quietly`: a step that uses what is in hand and leaves the core alone;
- `Inv`: `Control`, the log, and the resources that the draws borrow;
- `Ready.pass_cases`, `Inv.worker_cases`: what a pass of the loop and a step of the worker can do; `Inv.workerStep`.
-/

namespace Lorie.RendererThread

open Lorie.Lib

/-- What is in hand. -/
def Core.resources (c : Core) : List Resource :=
  (if c.graphicsDevice then [.device] else []) ++ c.slots.flatMap Slot.resources ++ c.state.toList.map .mapping ++
    c.pendingState.toList.map .mapping ++ c.fd.toList.map .socket ++ c.lost

/-- The device, the records' surfaces and windows, the mappings, the descriptor, and what was lost. -/
def State.resources (s : State) : List Resource :=
  (if s.graphicsDevice then [.device] else []) ++ s.outputs.flatMap Output.resources ++ s.state.toList.map .mapping ++
    s.pendingState.toList.map .mapping ++ s.fd.toList.map .socket ++ s.lost

theorem resources_core (s : State) : s.core.resources = s.resources := by
  simp only [Core.resources, State.core, State.resources, List.flatMap_map]
  rfl

/-- Surfaces are in hand with their windows. -/
def Closed (owned : List Resource) : Prop := ∀ f, Resource.surface f ∈ owned → Resource.window f.window ∈ owned

theorem Closed.append {l l' : List Resource} (h : Closed l) (h' : Closed l') : Closed (l ++ l') := by
  intro f hf
  rcases List.mem_append.1 hf with hf | hf
  · exact List.mem_append_left _ (h f hf)
  · exact List.mem_append_right _ (h' f hf)

/-- Without surfaces -/
theorem Closed.of_none {l : List Resource} (h : ∀ f, Resource.surface f ∉ l) : Closed l := fun f hf => absurd hf (h f)

theorem Closed.slot {o : Slot} (h : ∀ f, o.surface = some f → o.window = some f.window) : Closed o.resources := by
  intro f hf
  have hsurface : o.surface = some f := by simpa [Slot.resources] using hf
  simp [Slot.resources, h f hsurface]

theorem Closed.slots {os : List Slot} (h : ∀ o ∈ os, ∀ f, o.surface = some f → o.window = some f.window) :
    Closed (os.flatMap Slot.resources) := by
  intro f hf
  obtain ⟨o, ho, hfo⟩ := List.mem_flatMap.1 hf
  exact List.mem_flatMap.2 ⟨o, ho, Closed.slot (h o ho) f hfo⟩

theorem Control.closed {c : Core} {p : Stage} (h : Control c p) : Closed c.resources := by
  unfold Core.resources
  refine Closed.append (Closed.append (Closed.append (Closed.append (Closed.append ?_ ?_) ?_) ?_) ?_) h.lost
  · refine Closed.of_none fun f => ?_
    split <;> simp
  · exact Closed.slots h.surface
  · exact Closed.of_none (by simp)
  · exact Closed.of_none (by simp)
  · exact Closed.of_none (by simp)

/-- A resource is given back, and the others stay closed. -/
theorem give {log : List (Access Resource)} {owned owned' : List Resource} {k : Resource} (h : Holds parents log owned)
    (hperm : owned.Perm (k :: owned')) (hclosed : Closed owned') : Holds parents (log ++ [Access.release k]) owned' := by
  refine h.release hperm fun c hc hk => ?_
  cases c with
  | surface f =>
    obtain rfl : k = .window f.window := by simpa [parents] using hk
    exact hclosed f hc
  | _ => simp [parents] at hk

/-! ## Surfaces and windows of the records -/

/-- What `refreshOutputSurfaces` releases and makes. -/
def Slot.refreshed (failing : List Nat) (number : Nat) (o : Slot) : List (Access Resource) :=
  if o.changed then
    o.surface.toList.map (fun f => Access.release (.surface f)) ++
      o.window.toList.map (fun w => Access.release (.window w)) ++
      o.pending.toList.flatMap (fun w => [Access.use .device, Access.use (.window w)]) ++
      (if o.id ∈ failing then none else o.pending.map fun w => Surface.mk number w).toList.map fun f => Access.acquire (.surface f)
  else []

def refreshedSlots (failing : List Nat) : Nat → List Slot → List (Access Resource)
  | _, [] => []
  | n, o :: os => o.refreshed failing n ++ refreshedSlots failing (n + 1) os

theorem refreshedOutputs_slots (failing : List Nat) (n : Nat) (outputs : List Output) :
    refreshedOutputs failing n outputs = refreshedSlots failing n (outputs.map Output.slot) := by
  induction outputs generalizing n with
  | nil => rfl
  | cons o os ih =>
    have hfirst : o.refreshed failing n = o.slot.refreshed failing n := rfl
    simp [refreshedOutputs, refreshedSlots, hfirst, ih]

section Refresh

variable {log : List (Access Resource)} {rest : List Resource} {o : Slot}

/-- What was attached to a record is given back. -/
theorem detach_holds (h : Holds parents log (o.resources ++ rest)) (hrest : Closed rest) :
    Holds parents (log ++ (o.surface.toList.map (fun f => Access.release (.surface f)) ++
      o.window.toList.map fun w => Access.release (.window w))) (o.pending.toList.map Resource.window ++ rest) := by
  have hpending : Closed (o.pending.toList.map Resource.window ++ rest) := (Closed.of_none (by simp)).append hrest
  have hwindow : Closed (o.window.toList.map Resource.window ++ (o.pending.toList.map Resource.window ++ rest)) :=
    (Closed.of_none (by simp)).append hpending
  have hafter : Holds parents (log ++ o.surface.toList.map fun f => Access.release (.surface f))
      (o.window.toList.map Resource.window ++ (o.pending.toList.map Resource.window ++ rest)) := by
    cases hs : o.surface with
    | none => simpa [Slot.resources, hs] using h
    | some f =>
      simp only [Slot.resources, hs, Option.toList_some, List.map_cons, List.map_nil, List.cons_append, List.nil_append,
        List.append_assoc] at h
      exact give h (.refl _) hwindow
  rw [← List.append_assoc]
  cases hw : o.window with
  | none => simpa [hw] using hafter
  | some w =>
    simp only [hw, Option.toList_some, List.map_cons, List.map_nil, List.cons_append, List.nil_append] at hafter
    exact give hafter (.refl _) hpending

/-- A record takes over its pending window. -/
theorem refresh_holds (h : Holds parents log (o.resources ++ rest)) (hdevice : Resource.device ∈ rest) (hrest : Closed rest)
    (failing : List Nat) (number : Nat) :
    Holds parents (log ++ o.refreshed failing number) ((o.refresh failing number).resources ++ rest) := by
  cases hchanged : o.changed with
  | false => simpa [Slot.refreshed, Slot.refresh, hchanged] using h
  | true =>
    have hdetached := detach_holds h hrest
    cases hp : o.pending with
    | none => simpa [Slot.refreshed, Slot.refresh, Slot.resources, hchanged, hp] using hdetached
    | some w =>
      simp only [hp, Option.toList_some, List.map_cons, List.map_nil, List.cons_append, List.nil_append] at hdetached
      have hused := (hdetached.use (k := .device) (by simp [hdevice])).use (k := .window w) (by simp)
      by_cases hfailing : o.id ∈ failing
      · simpa [Slot.refreshed, Slot.refresh, Slot.resources, hchanged, hp, hfailing] using hused
      · have hmade := hused.acquire (k := .surface ⟨number, w⟩) (by simp [parents])
        simpa [Slot.refreshed, Slot.refresh, Slot.resources, hchanged, hp, hfailing] using hmade

end Refresh

/-- The records take over their pending windows. -/
theorem refreshSlots_holds {log : List (Access Resource)} {rest : List Resource} {slots : List Slot}
    (h : Holds parents log (slots.flatMap Slot.resources ++ rest)) (hdevice : Resource.device ∈ rest) (hrest : Closed rest)
    (hsurface : ∀ o ∈ slots, ∀ f, o.surface = some f → o.window = some f.window) (failing : List Nat) (n : Nat) :
    Holds parents (log ++ refreshedSlots failing n slots) ((refreshSlots failing n slots).flatMap Slot.resources ++ rest) := by
  induction slots generalizing log rest n with
  | nil => simpa [refreshedSlots, refreshSlots] using h
  | cons o os ih =>
    obtain ⟨ho, hos⟩ := List.forall_mem_cons.1 hsurface
    have hclosed : Closed (os.flatMap Slot.resources ++ rest) := (Closed.slots hos).append hrest
    simp only [List.flatMap_cons, List.append_assoc] at h
    have hfirst := refresh_holds h (List.mem_append_right _ hdevice) hclosed failing n
    -- the record that is done joins the rest
    have hmoved : Holds parents (log ++ o.refreshed failing n)
        (os.flatMap Slot.resources ++ ((o.refresh failing n).resources ++ rest)) :=
      hfirst.congr (List.perm_append_comm_assoc ..)
    have hnew : ∀ f, (o.refresh failing n).surface = some f → (o.refresh failing n).window = some f.window :=
      fun f hf => Control.refresh_surface ho failing n hf
    have htail := ih hmoved (List.mem_append_right _ hdevice) ((Closed.slot hnew).append hrest) hos (n + 1)
    simp only [refreshedSlots, refreshSlots, List.flatMap_cons, List.append_assoc] at htail ⊢
    exact htail.congr (List.perm_append_comm_assoc ..)

/-! ## Steps that only use what is in hand -/

/-- The step leaves the core alone, uses what is in hand, and does not open the connection again. -/
structure Quietly (s t : State) : Prop where
  core : t.core = s.core
  log : ∃ ks : List Resource, t.log = s.log ++ ks.map Access.use ∧ ∀ k ∈ ks, k ∈ s.core.resources
  number : t.nextNumber = s.nextNumber
  down : s.down = true → t.down = true

namespace Quietly

variable {r s t : State}

theorem refl (s : State) : Quietly s s := ⟨rfl, ⟨[], by simp⟩, rfl, id⟩

theorem trans (h₁ : Quietly r s) (h₂ : Quietly s t) : Quietly r t := by
  obtain ⟨ks, hlog, hks⟩ := h₁.log
  obtain ⟨ks', hlog', hks'⟩ := h₂.log
  refine ⟨h₂.core.trans h₁.core, ⟨ks ++ ks', ?_, ?_⟩, h₂.number.trans h₁.number, h₂.down ∘ h₁.down⟩
  · rw [hlog', hlog, List.map_append, List.append_assoc]
  · intro k hk
    rcases List.mem_append.1 hk with hk | hk
    · exact hks k hk
    · rw [← h₁.core]
      exact hks' k hk

/-- Resources are used. -/
theorem note (s : State) (ks : List Resource) (hks : ∀ k ∈ ks, k ∈ s.core.resources) : Quietly s (s.note (ks.map Access.use)) :=
  ⟨rfl, ⟨ks, rfl, hks⟩, rfl, id⟩

theorem useState (s : State) : Quietly s (s.note s.useState) := by
  have h := note s (s.state.toList.map .mapping) fun k hk => by
    simp only [Core.resources, State.core, List.mem_append]
    tauto
  simpa [State.useState, List.map_map, Function.comp_def] using h

theorem usePeer (hpeer : s.peerFd = s.fd) : Quietly s (s.note s.usePeer) := by
  have h := note s (s.peerFd.toList.map .socket) fun k hk => by
    rw [hpeer] at hk
    simp only [Core.resources, State.core, List.mem_append]
    tauto
  simpa [State.usePeer, List.map_map, Function.comp_def] using h

theorem changeAt (s : State) (region : Nat) (g : Shared → Shared) : Quietly s (s.changeAt region g) :=
  ⟨rfl, ⟨[], by simp [State.changeAt]⟩, rfl, id⟩

theorem change (s : State) (g : Shared → Shared) : Quietly s (s.change g) := by
  unfold State.change
  split
  · exact changeAt ..
  · exact refl s

theorem fail (hpeer : s.peerFd = s.fd) : Quietly s s.fail := by
  have huse := usePeer hpeer
  refine ⟨huse.core, huse.log, huse.number, fun hdown => ?_⟩
  simp [State.fail, State.note, hdown]

theorem endDraws (s : State) (rendered : Bool) : Quietly s (s.endDraws rendered) := by
  cases rendered
  · exact ⟨rfl, ⟨[], by simp [State.endDraws]⟩, rfl, id⟩
  · have hchange := change { s with worker := .retiring } fun h => { h with waitForNextFrame := true }
    have huse := useState s
    refine ⟨hchange.core, ?_, hchange.number, hchange.down⟩
    obtain ⟨ks, hlog, hks⟩ := huse.log
    refine ⟨ks, ?_, hks⟩
    have hsame : (State.change { s with worker := .retiring } fun h => { h with waitForNextFrame := true }).log = s.log := by
      unfold State.change
      split <;> rfl
    simp only [State.endDraws, if_true, State.note, hsame]
    exact hlog

theorem findBuffers (hdevice : s.graphicsDevice = true) (moved : Nat) : Quietly s (s.findBuffers moved) := by
  refine ⟨rfl, ⟨[.device], rfl, ?_⟩, rfl, id⟩
  simp [Core.resources, State.core, hdevice]

theorem publishSurface (s : State) : Quietly s s.publishSurface := by
  have huse := useState s
  have hsame : (s.change fun h => { h with surfaceAvailable := hasOutputSurface s.outputs }).log = s.log := by
    unfold State.change
    split <;> rfl
  have hchange := change s fun h => { h with surfaceAvailable := hasOutputSurface s.outputs }
  refine ⟨hchange.core, ?_, hchange.number, hchange.down⟩
  obtain ⟨ks, hlog, hks⟩ := huse.log
  refine ⟨ks, ?_, hks⟩
  simp only [State.publishSurface, State.note, hsame]
  exact hlog

/-- The records change outside their slots. -/
theorem update {g : Output → Output} (hg : ∀ o, (g o).slot = o.slot) (id : Nat) (s : State) :
    Quietly s { s with outputs := RendererThread.update id g s.outputs } := by
  refine ⟨?_, ⟨[], by simp⟩, rfl, fun hdown => hdown⟩
  simp only [State.core, slots_update hg]

end Quietly

/-! ## The invariant -/

/-- The draws that the worker still has before it. -/
def Worker.draws : Worker → List Draw
  | .drawing _ draws => draws
  | .lockingDraw _ d draws | .painting _ d draws | .presenting _ _ _ d draws | .recording _ _ _ _ d draws => d :: draws
  | _ => []

/-- The resources that a draw borrows are in hand. -/
def Borrowed (c : Core) (d : Draw) : Prop :=
  Resource.surface d.surface ∈ c.resources ∧ ∀ w, d.window = some w → Resource.window w ∈ c.resources

/-- `Control`, the log of what is in hand, the draws' resources, and the numbers of the mappings. -/
structure Inv (s : State) : Prop where
  control : Control s.core s.worker.stage
  holds : Holds parents s.log s.core.resources
  borrowed : ∀ d ∈ s.worker.draws, Borrowed s.core d
  numbered : ∀ m, s.state = some m ∨ s.pendingState = some m → m.number < s.nextNumber

namespace Inv

variable {s t : State}

theorem init : Inv State.init where
  control := by
    constructor <;>
      simp [State.init, State.core, Host.shares, Host.detaches, Host.initializes, Host.ended, Worker.stage, Stage.runs]
    exact fun _ => ⟨rfl, rfl, rfl, rfl, rfl⟩
  holds := Holds.nil
  borrowed := by simp [State.init, Worker.draws]
  numbered := by simp [State.init]

/-- What is used after the step `Quietly` is in hand. -/
theorem used (h : Inv s) (hq : Quietly s t) : Holds parents t.log t.core.resources := by
  obtain ⟨ks, hlog, hks⟩ := hq.log
  rw [hlog, hq.core]
  exact h.holds.useAll hks

/-- A step that only uses what is in hand. -/
theorem quiet (h : Inv s) (hq : Quietly s t) (hcontrol : Control s.core t.worker.stage)
    (hdraws : ∀ d ∈ t.worker.draws, d ∈ s.worker.draws ∨ Borrowed s.core d) : Inv t where
  control := by
    rw [hq.core]
    exact hcontrol
  holds := h.used hq
  borrowed := by
    intro d hd
    rw [hq.core]
    exact (hdraws d hd).elim (h.borrowed d) id
  numbered := by
    have hstate : t.state = s.state := congrArg Core.state hq.core
    have hpending : t.pendingState = s.pendingState := congrArg Core.pendingState hq.core
    rw [hstate, hpending, hq.number]
    exact h.numbered

/-- A step beside the worker that only uses what is in hand. -/
theorem quiet_stage (h : Inv s) (hq : Quietly s t) (hstage : t.worker.stage = s.worker.stage)
    (hdraws : ∀ d ∈ t.worker.draws, d ∈ s.worker.draws) : Inv t := by
  refine h.quiet hq ?_ fun d hd => .inl (hdraws d hd)
  rw [hstage]
  exact h.control

end Inv

/-! ## Turns of the loop -/

/-- The worker goes on in its loop, and only uses what is in hand. -/
structure Turns (s t : State) : Prop where
  quiet : Quietly s t
  runs : s.worker.stage.runs = true
  stage : t.worker.stage = .looping ∨ t.worker.stage = .drawing ∧ s.worker.stage = .drawing
  awake : t.worker ≠ .asleep
  draws : ∀ d ∈ t.worker.draws, d ∈ s.worker.draws ∨ ∃ o ∈ s.outputs, o.draw = some d

namespace Turns

variable {s t : State}

/-- Another place of `drawOutputs` -/
theorem draw (hq : Quietly s t) (hs : s.worker.stage = .drawing) (ht : t.worker.stage = .drawing)
    (hdraws : ∀ d ∈ t.worker.draws, d ∈ s.worker.draws ∨ ∃ o ∈ s.outputs, o.draw = some d) : Turns s t := by
  refine ⟨hq, by rw [hs]; rfl, .inr ⟨ht, hs⟩, fun hasleep => ?_, hdraws⟩
  rw [hasleep] at ht
  cases ht

/-- The same with no other draws -/
theorem within (hq : Quietly s t) (hs : s.worker.stage = .drawing) (ht : t.worker.stage = .drawing)
    (hdraws : ∀ d ∈ t.worker.draws, d ∈ s.worker.draws) : Turns s t :=
  draw hq hs ht fun d hd => .inl (hdraws d hd)

/-- `drawOutputs` is done. -/
theorem done (hq : Quietly s t) (hs : s.worker.stage = .drawing) (ht : t.worker = .retiring) : Turns s t :=
  ⟨hq, by rw [hs]; rfl, .inl (by rw [ht]; rfl), by simp [ht], by simp [ht, Worker.draws]⟩

end Turns

/-! ## A pass of the loop -/

/-- What a pass starts from and keeps. -/
structure Ready (s : State) : Prop where
  control : Control s.core .looping
  holds : Holds parents s.log s.core.resources
  numbered : ∀ m, s.state = some m ∨ s.pendingState = some m → m.number < s.nextNumber

/-- The mapping that is in use, and the other resources -/
theorem resources_state (c : Core) :
    c.resources.Perm (c.state.toList.map .mapping ++ Core.resources { c with state := none }) := by
  simp only [Core.resources, Option.toList_none, List.map_nil, List.append_nil, List.append_assoc]
  refine (List.Perm.append_left _ (List.perm_append_comm_assoc _ _ _)).trans ?_
  exact List.perm_append_comm_assoc _ _ _

/-- The resources of the records, and the others -/
theorem resources_slots (c : Core) :
    c.resources.Perm (c.slots.flatMap Slot.resources ++ Core.resources { c with slots := [] }) := by
  simp only [Core.resources, List.flatMap_nil, List.append_nil, List.append_assoc]
  exact List.perm_append_comm_assoc _ _ _

theorem Control.closed_slots {c : Core} {p : Stage} (h : Control c p) : Closed (Core.resources { c with slots := [] }) := by
  unfold Core.resources
  refine Closed.append (Closed.append (Closed.append (Closed.append (Closed.append ?_ ?_) ?_) ?_) ?_) h.lost
  · refine Closed.of_none fun f => ?_
    split <;> simp
  all_goals exact Closed.of_none (by simp)

theorem Control.closed_state {c : Core} {p : Stage} (h : Control c p) : Closed (Core.resources { c with state := none }) := by
  intro f hf
  have hall := h.closed f ((resources_state c).mem_iff.2 (List.mem_append_right _ hf))
  simpa using (resources_state c).mem_iff.1 hall

/-! What the parts of a pass make of the core -/

theorem refreshed_core (s : State) (failing : List Nat) :
    (State.core { s with
      outputs := refreshOutputs failing s.nextNumber s.outputs
      nextNumber := s.nextNumber + s.outputs.length
      log := s.log ++ refreshedOutputs failing s.nextNumber s.outputs }) =
        { s.core with slots := refreshSlots failing s.nextNumber s.core.slots } := by
  simp [State.core, slots_refreshOutputs]

theorem refreshOutputSurfaces_core (s : State) (failing : List Nat) : (s.refreshOutputSurfaces failing).core =
    { s.core with slots := refreshSlots failing s.nextNumber s.core.slots } := by
  unfold State.refreshOutputSurfaces
  rw [(Quietly.publishSurface _).core]
  exact refreshed_core s failing

theorem attachBuffers_core (s : State) : s.attachBuffers.core = s.core := by
  unfold State.attachBuffers
  split
  · simp only [State.core, State.note, slots_invalidate]
  · rfl

theorem broadcast_core (s : State) : s.broadcast.core = { s.core with host := s.broadcast.host } := by
  unfold State.broadcast
  split <;> rfl

theorem broadcast_host {s t : State} (hhost : t.host = s.host) : t.broadcast.host = s.broadcast.host := by
  unfold State.broadcast
  rw [hhost]
  split
  · rfl
  · exact hhost

namespace Ready

variable {s : State}

theorem quiet {t : State} (h : Ready s) (hq : Quietly s t) : Ready t := by
  obtain ⟨ks, hlog, hks⟩ := hq.log
  have hstate : t.state = s.state := congrArg Core.state hq.core
  have hpending : t.pendingState = s.pendingState := congrArg Core.pendingState hq.core
  refine ⟨?_, ?_, ?_⟩
  · rw [hq.core]
    exact h.control
  · rw [hlog, hq.core]
    exact h.holds.useAll hks
  · rw [hstate, hpending, hq.number]
    exact h.numbered

/-- What the end of a mapping does. -/
theorem dropState_eq (h : Ready s) :
    s.dropState.core = s.core ∧ s.dropState.nextNumber = s.nextNumber ∧
      s.dropState.log = s.log ++ s.state.toList.flatMap fun m => [Access.use (.mapping m), Access.release (.mapping m)] := by
  unfold State.dropState
  cases hstate : s.state with
  | none =>
    split
    · simp [State.change, State.note, State.useState, hstate, State.core]
    · simp
  | some m =>
    have hne : ¬s.pendingState = some m := h.control.distinct m hstate
    have hne' : some m ≠ s.pendingState := fun heq => hne heq.symm
    simp only [ne_eq, hne', not_false_eq_true, if_true]
    refine ⟨?_, ?_, ?_⟩ <;> simp [State.change, State.changeAt, State.note, State.useState, State.core, hstate]

/-- The old mapping is given back, and the new one taken over. -/
theorem take (h : Ready s) : Ready s.takeState := by
  unfold State.takeState
  split
  · obtain ⟨hcore, hnumber, hlog⟩ := h.dropState_eq
    refine Ready.quiet (s := { s.dropState with
      state := s.dropState.pendingState
      pendingState := none
      stateChanged := false
      connectionFailed := false
      copyWaitingForBuffer := false }) ?_ (Quietly.publishSurface _)
    have hafter : Holds parents s.dropState.log (Core.resources { s.core with state := none }) := by
      have hholds := h.holds.congr (resources_state s.core)
      rw [hlog]
      cases hstate : s.state with
      | none => simpa [State.core, hstate] using hholds
      | some m =>
        have hcstate : s.core.state = some m := hstate
        rw [hcstate] at hholds
        have hused := hholds.use (k := .mapping m) (by simp)
        have hgiven := give hused (List.Perm.refl _) h.control.closed_state
        simpa using hgiven
    have hpending : s.dropState.pendingState = s.pendingState := congrArg Core.pendingState hcore
    refine ⟨?_, ?_, ?_⟩
    · have hcontrol := h.control
      rw [← hcore] at hcontrol
      exact hcontrol.take
    · have heq : (State.core { s.dropState with
          state := s.dropState.pendingState
          pendingState := none
          stateChanged := false
          connectionFailed := false
          copyWaitingForBuffer := false }).resources = Core.resources { s.dropState.core with state := none } := by
        simp only [Core.resources, State.core, Option.toList_none, List.map_nil, List.append_nil]
        rfl
      rw [heq, hcore]
      exact hafter
    · intro m hm
      have hm' : s.pendingState = some m := by
        rcases hm with hm | hm
        · exact hpending.symm.trans hm
        · cases hm
      have hlt := h.numbered m (.inr hm')
      rw [← hnumber] at hlt
      exact hlt
  · exact h

/-- The records take over their surfaces. -/
theorem refreshOutputSurfaces (h : Ready s) (failing : List Nat) : Ready (s.refreshOutputSurfaces failing) := by
  unfold State.refreshOutputSurfaces
  refine Ready.quiet (s := { s with
    outputs := refreshOutputs failing s.nextNumber s.outputs
    nextNumber := s.nextNumber + s.outputs.length
    log := s.log ++ refreshedOutputs failing s.nextNumber s.outputs }) ?_ (Quietly.publishSurface _)
  have hcore := refreshed_core s failing
  have hdevice : Resource.device ∈ Core.resources { s.core with slots := [] } := by
    have hd := h.control.device rfl
    simp [Core.resources, hd]
  refine ⟨?_, ?_, ?_⟩
  · rw [hcore]
    exact h.control.refresh failing s.nextNumber
  · have hrefreshed := refreshSlots_holds (h.holds.congr (resources_slots s.core)) hdevice h.control.closed_slots
      h.control.surface failing s.nextNumber
    rw [hcore, refreshedOutputs_slots]
    exact hrefreshed.congr (resources_slots { s.core with slots := refreshSlots failing s.nextNumber s.core.slots }).symm
  · exact fun m hm => Nat.lt_of_lt_of_le (h.numbered m hm) (Nat.le_add_right _ _)

theorem attachBuffers (h : Ready s) : Ready s.attachBuffers := by
  have hdevice := h.control.device rfl
  have hused : ∃ ks : List Resource, s.attachBuffers.log = s.log ++ ks.map Access.use ∧ ∀ k ∈ ks, k ∈ s.core.resources := by
    unfold State.attachBuffers
    split
    · exact ⟨[.device], rfl, by simp [Core.resources, hdevice]⟩
    · exact ⟨[], by simp⟩
  have hsame : s.attachBuffers.nextNumber = s.nextNumber ∧ s.attachBuffers.down = s.down := by
    unfold State.attachBuffers
    split <;> exact ⟨rfl, rfl⟩
  exact h.quiet ⟨attachBuffers_core s, hused, hsame.1, fun hdown => hsame.2.trans hdown⟩

/-- The waiting host is signalled. -/
theorem broadcast (h : Ready s) : Ready s.broadcast := by
  unfold State.broadcast
  split
  · rename_i r asleep hhost
    exact ⟨h.control.wake hhost false, h.holds, h.numbered⟩
  · exact h

/-- What a pass makes of the core. -/
def taken (c : Core) (failing : List Nat) (n : Nat) (host : Host) : Core :=
  { c with
    slots := refreshSlots failing n c.slots
    state := if c.stateChanged then c.pendingState else c.state
    pendingState := if c.stateChanged then none else c.pendingState
    stateChanged := false
    host := host }

theorem takeState_core (h : Ready s) : s.takeState.core =
    { s.core with
      state := if s.stateChanged then s.pendingState else s.state
      pendingState := if s.stateChanged then none else s.pendingState
      stateChanged := false } := by
  unfold State.takeState
  cases hchanged : s.stateChanged
  · simp [State.core, hchanged]
  · obtain ⟨hcore, -, -⟩ := h.dropState_eq
    dsimp only
    simp only [if_true]
    rw [(Quietly.publishSurface _).core]
    have hpending : s.dropState.pendingState = s.pendingState := congrArg Core.pendingState hcore
    have hdropped : ∀ m, (State.core { s.dropState with
        state := m
        pendingState := none
        stateChanged := false
        connectionFailed := false
        copyWaitingForBuffer := false }) =
          { s.dropState.core with state := m, pendingState := none, stateChanged := false } := fun _ => rfl
    rw [hdropped, hcore, hpending]

/-- **What a pass of the loop can do.** -/
theorem pass_cases (h : Ready s) (failing : List Nat) :
    (s.stopping = true ∧ s.pass failing = { s with worker := .releasing }) ∨
      (s.stopping = false ∧ s.shouldWait = true ∧ s.pass failing = { s with worker := .asleep }) ∨
        (s.stopping = false ∧ ((s.pass failing).worker = .draining ∨ (s.pass failing).worker = .retiring) ∧
          ∃ n, (s.pass failing).core = taken s.core failing n s.broadcast.host) := by
  unfold State.pass
  split
  · rename_i hstopping
    exact .inl ⟨hstopping, rfl⟩
  · rename_i hstopping
    have hgoing : s.stopping = false := by simpa using hstopping
    split
    · rename_i hwait
      exact .inr (.inl ⟨hgoing, hwait, rfl⟩)
    · refine .inr (.inr ⟨hgoing, ?_, ?_⟩)
      · dsimp only
        split
        · exact .inl rfl
        · exact .inr rfl
      · have hrefreshed := refreshOutputSurfaces_core s.takeState failing
        rw [h.takeState_core] at hrefreshed
        have hattached := (attachBuffers_core (s.takeState.refreshOutputSurfaces failing)).trans hrefreshed
        have hhost : (s.takeState.refreshOutputSurfaces failing).attachBuffers.host = s.host := congrArg Core.host hattached
        refine ⟨s.takeState.nextNumber, ?_⟩
        have hcore := broadcast_core (s.takeState.refreshOutputSurfaces failing).attachBuffers
        rw [hattached, broadcast_host hhost] at hcore
        exact hcore

/-- A pass of the loop -/
theorem pass (h : Ready s) (failing : List Nat) : Inv (s.pass failing) := by
  unfold State.pass
  split
  · rename_i hstopping
    exact ⟨h.control.leave (.inl ⟨rfl, hstopping⟩), h.holds, by simp [Worker.draws], h.numbered⟩
  · split
    · exact ⟨h.control, h.holds, by simp [Worker.draws], h.numbered⟩
    · have hafter := (((h.take).refreshOutputSurfaces failing).attachBuffers).broadcast
      refine ⟨?_, hafter.holds, ?_, hafter.numbered⟩
      · dsimp only
        split
        · rename_i hstate
          exact hafter.control.turn rfl (.inr ⟨rfl, by simpa [State.core, Option.isSome_iff_ne_none] using hstate⟩)
        · exact hafter.control
      · dsimp only
        split <;> simp [Worker.draws]

end Ready

/-! ## The worker's steps -/

/-- A draw is made of a record with a surface. -/
theorem draw_some {o : Output} {d : Draw} (hd : o.draw = some d) :
    ∃ f, o.surface = some f ∧ d = ⟨o.id, f, o.window, o.frame, o.layerCount⟩ := by
  unfold Output.draw at hd
  split at hd
  · obtain ⟨f, hf, rfl⟩ := Option.map_eq_some_iff.1 hd
    exact ⟨f, hf, rfl⟩
  · cases hd

/-- The draw of a record borrows what the record owns. -/
theorem borrowed_draw {s : State} {o : Output} {d : Draw} (ho : o ∈ s.outputs) (hd : o.draw = some d) : Borrowed s.core d := by
  obtain ⟨f, hf, rfl⟩ := draw_some hd
  have hmem : o.slot ∈ s.core.slots := List.mem_map_of_mem ho
  have hresources (k : Resource) (hk : k ∈ o.slot.resources) : k ∈ s.core.resources :=
    (resources_slots s.core).mem_iff.2 (List.mem_append_left _ (List.mem_flatMap.2 ⟨o.slot, hmem, hk⟩))
  refine ⟨hresources _ ?_, fun w hw => hresources _ ?_⟩
  · simp [Slot.resources, Output.slot, hf]
  · have hw' : o.window = some w := hw
    simp [Slot.resources, Output.slot, hw']

/-- A turn of the loop keeps `Inv`. -/
theorem Inv.turns {s t : State} (h : Inv s) (ht : Turns s t) : Inv t := by
  refine h.quiet ht.quiet (h.control.turn ht.runs ?_) fun d hd => ?_
  · exact ht.stage.imp_right fun hdrawing => ⟨hdrawing.1, h.control.mapped hdrawing.2⟩
  · refine (ht.draws d hd).imp_right fun hsnapshot => ?_
    obtain ⟨o, ho, hod⟩ := hsnapshot
    exact borrowed_draw ho hod

theorem endDraws_worker (s : State) (rendered : Bool) : (s.endDraws rendered).worker = .retiring := by
  cases rendered
  · rfl
  · simp only [State.endDraws, if_true, State.note, State.change]
    split <;> rfl

/-- The steps in the loop, but the one that takes `stateLock` for a pass -/
def Action.turns : Action → Bool
  | .start _ | .pass _ | .releaseGraphics | .exit => false
  | _ => true

namespace Inv

variable {s t : State} {a : Action}

theorem ready (h : Inv s) (hstage : s.worker.stage = .looping) : Ready s := by
  have hcontrol := h.control
  rw [hstage] at hcontrol
  exact ⟨hcontrol, h.holds, h.numbered⟩

/-- `initThread` has made the device. -/
theorem started (h : Inv s) (hworker : s.worker = .starting) :
    Ready (State.broadcast (State.note { s with graphicsDevice := true, initialized := true } [.acquire .device])) := by
  have hcontrol := h.control
  rw [hworker] at hcontrol
  have hnodevice : s.graphicsDevice = false := by
    cases hdevice : s.graphicsDevice
    · rfl
    · have hreleased := hcontrol.released hdevice
      simp [Worker.stage, Stage.runs] at hreleased
  refine Ready.broadcast ⟨hcontrol.start, ?_, h.numbered⟩
  have hacquired := h.holds.acquire (k := .device) (by simp [parents])
  simpa [State.note, State.core, Core.resources, hnodevice] using hacquired

/-- `initThread` -/
theorem start (h : Inv s) (hworker : s.worker = .starting) (created : Bool) : Inv (s.start created) := by
  unfold State.start
  split
  · exact (h.started hworker).pass []
  · have hcontrol := h.control
    rw [hworker] at hcontrol
    exact ⟨hcontrol.leave (.inr rfl), h.holds, by simp [Worker.draws], h.numbered⟩

/-- The snapshot of `drawOutputs` -/
theorem snapshot_turns (hworker : s.worker = .snapshotting) (memory : Bool) : Turns s (s.snapshot memory) := by
  have huse := Quietly.useState s
  have hstage : s.worker.stage = .drawing := by rw [hworker]; rfl
  unfold State.snapshot
  dsimp only
  split
  · exact Turns.done ⟨huse.core, huse.log, huse.number, huse.down⟩ hstage rfl
  · split
    · exact Turns.done ⟨huse.core, huse.log, huse.number, huse.down⟩ hstage rfl
    · refine Turns.draw ⟨huse.core, huse.log, huse.number, huse.down⟩ hstage rfl fun d hd => .inr ?_
      exact List.mem_filterMap.1 hd

/-- A draw is recorded. -/
theorem recordDraw (h : Inv s) {ok complete presented rendered : Bool} {d : Draw} {draws : List Draw}
    (hworker : s.worker = .recording ok complete presented rendered d draws) :
    Turns s (s.recordDraw ok complete presented rendered d draws) := by
  have hslot (o : Output) : (o.drew d complete).slot = o.slot := rfl
  have hupdate := Quietly.update hslot d.id s
  have hstage : s.worker.stage = .drawing := by rw [hworker]; rfl
  have hpeer : s.peerFd = s.fd := h.control.peer
  cases ok
  · -- what follows the recording uses the peer's descriptor and the mapping
    have hrest (r : State) (hr : Quietly s r) (hrp : r.peerFd = r.fd) : Quietly s (r.fail.endDraws rendered) :=
      hr.trans ((Quietly.fail hrp).trans (Quietly.endDraws _ rendered))
    refine Turns.done ?_ hstage ?_
    · exact hrest _ ⟨hupdate.core, hupdate.log, hupdate.number, hupdate.down⟩ hpeer
    · exact endDraws_worker _ rendered
  · -- the count of a presented frame uses the mapping
    have hcount (r : State) (hr : Quietly s r) : Quietly s (r.note (if presented then r.useState else [])) := by
      cases presented
      · exact hr.trans (Quietly.note r [] (by simp))
      · exact hr.trans (Quietly.useState r)
    have huse := hcount { s with
      outputs := update d.id (·.drew d complete) s.outputs
      records := s.records ++ if s.outputs.any fun o => o.id = d.id && o.acknowledges d complete then
        [Record.acknowledged d.id d.frame.presentation presented] else [] }
      ⟨hupdate.core, hupdate.log, hupdate.number, hupdate.down⟩
    refine Turns.within ⟨huse.core, huse.log, huse.number, huse.down⟩ hstage rfl ?_
    intro e he
    rw [hworker]
    exact List.mem_cons_of_mem _ he

theorem releaseGraphics_core (h : Inv s) (hworker : s.worker = .releasing) :
    s.releaseGraphics.core = { s.core with graphicsDevice := false } := by
  have hcontrol := h.control
  rw [hworker] at hcontrol
  obtain ⟨hbare, -⟩ := hcontrol.ended (.inr rfl)
  have houtputs : s.outputs = [] := List.map_eq_nil_iff.1 hbare.slots
  have hstate : s.state = none := hbare.state
  simp [State.releaseGraphics, State.note, State.core, houtputs, hstate]

/-- `releaseGraphics` -/
theorem releaseGraphics (h : Inv s) (hworker : s.worker = .releasing) : Inv s.releaseGraphics := by
  have hcontrol := h.control
  rw [hworker] at hcontrol
  obtain ⟨hbare, -⟩ := hcontrol.ended (.inr rfl)
  have houtputs : s.outputs = [] := List.map_eq_nil_iff.1 hbare.slots
  have hstate : s.state = none := hbare.state
  have hcore := h.releaseGraphics_core hworker
  refine ⟨?_, ?_, ?_, ?_⟩
  · rw [hcore]
    exact hcontrol.release
  · rw [hcore]
    have hrest : Closed (Core.resources { s.core with graphicsDevice := false }) := by
      have hclosed := hcontrol.release.closed
      exact hclosed
    simp only [State.releaseGraphics, State.note, State.releases, houtputs, hstate]
    cases hdevice : s.graphicsDevice
    · have hcdevice : s.core.graphicsDevice = false := hdevice
      simpa [Core.resources, hcdevice] using h.holds
    · have hcdevice : s.core.graphicsDevice = true := hdevice
      have hgiven := give (k := .device) h.holds (by simp [Core.resources, hcdevice]) hrest
      simpa using hgiven
  · simp [State.releaseGraphics, State.note, Worker.draws]
  · intro m hm
    rcases hm with hm | hm
    · cases hm
    · exact h.numbered m (.inr hm)

/-- The worker has stopped. -/
theorem exit (h : Inv s) (hworker : s.worker = .released) :
    Inv (State.broadcast { s with stopping := true, worker := .exited }) := by
  have hcontrol := h.control
  rw [hworker] at hcontrol
  have hexit := hcontrol.exit
  unfold State.broadcast
  split
  · rename_i r asleep hhost
    exact ⟨hexit.wake hhost false, h.holds, by simp [Worker.draws], h.numbered⟩
  · exact ⟨hexit, h.holds, by simp [Worker.draws], h.numbered⟩

/-- The mapping is used, and the buffers of the next copy are looked up. -/
theorem copy_use (h : Inv s) (hworker : s.worker = .copying) (moved : Nat) :
    Quietly s ((s.note s.useState).findBuffers moved) := by
  have hdevice : s.graphicsDevice = true := h.control.device (by rw [hworker]; rfl)
  exact (Quietly.useState s).trans (Quietly.findBuffers (s := s.note s.useState) hdevice moved)

/-- What is used to acquire the target of the next draw. -/
theorem acquire_use (h : Inv s) {rendered : Bool} {d : Draw} {draws : List Draw}
    (hworker : s.worker = .drawing rendered (d :: draws)) :
    Quietly s (s.note (d.window.toList.map (fun w => Access.use (.window w)) ++ [Access.use (.surface d.surface)])) := by
  obtain ⟨hsurface, hwindow⟩ := h.borrowed d (by simp [hworker, Worker.draws])
  have hnote := Quietly.note s (d.window.toList.map Resource.window ++ [Resource.surface d.surface]) fun k hk => by
    rcases List.mem_append.1 hk with hk | hk
    · obtain ⟨w, hw, rfl⟩ := List.mem_map.1 hk
      exact hwindow w (by simpa using hw)
    · obtain rfl := List.mem_singleton.1 hk
      exact hsurface
  simpa [List.map_map, Function.comp_def] using hnote

/-- The layers are drawn. -/
theorem paint (h : Inv s) (ok complete : Bool) (moved : Nat) {rendered : Bool} {d : Draw} {draws : List Draw}
    (hworker : s.worker = .painting rendered d draws) :
    Turns s (({ s with worker := .presenting ok complete rendered d draws }.findBuffers moved).note
      (.use (.surface d.surface) :: s.useState)) := by
  have hstage : s.worker.stage = .drawing := by rw [hworker]; rfl
  have hdevice : s.graphicsDevice = true := h.control.device (by rw [hstage]; rfl)
  obtain ⟨hsurface, -⟩ := h.borrowed d (by simp [hworker, Worker.draws])
  have hfound := Quietly.findBuffers hdevice moved
  have hused := hfound.trans (Quietly.note (s.findBuffers moved) [.surface d.surface] fun k hk => by
    obtain rfl := List.mem_singleton.1 hk
    rw [hfound.core]
    exact hsurface)
  have hstate := hused.trans (Quietly.useState _)
  refine Turns.within ⟨hstate.core, ?_, hstate.number, hstate.down⟩ hstage rfl ?_
  · obtain ⟨ks, hlog, hks⟩ := hstate.log
    exact ⟨ks, by simpa [State.note, State.findBuffers, State.useState] using hlog, hks⟩
  · simp [hworker, State.note, State.findBuffers, Worker.draws]

/-- A step in the loop -/
theorem turn (h : Inv s) (hs : WorkerStep s a t) (ha : a.turns = true) : Turns s t := by
  have hpeer : s.peerFd = s.fd := h.control.peer
  have huse := Quietly.useState s
  have hfail := huse.trans (Quietly.fail (s := s.note s.useState) hpeer)
  have hpoll := Quietly.usePeer hpeer
  have hgone := hpoll.trans (Quietly.fail (s := s.note s.usePeer) hpeer)
  cases hs with
  | start | pass | releaseGraphics | exit => cases ha
  | drained hworker | copies hworker | locked hworker | copiesDone outcome moved hworker =>
    exact Turns.within ⟨huse.core, huse.log, huse.number, huse.down⟩ (by rw [hworker]; rfl) rfl (by simp [Worker.draws])
  | lockFailed hworker =>
    exact Turns.within ⟨hfail.core, hfail.log, hfail.number, hfail.down⟩ (by rw [hworker]; rfl) rfl (by simp [Worker.draws])
  | @drawLockFailed rendered d draws hworker =>
    exact Turns.done (hfail.trans (Quietly.endDraws _ rendered)) (by rw [hworker]; rfl) (endDraws_worker _ _)
  | drawLocked hworker =>
    exact Turns.within ⟨huse.core, huse.log, huse.number, huse.down⟩ (by rw [hworker]; rfl) rfl (by simp [hworker, Worker.draws])
  | peerGone hworker =>
    exact Turns.within ⟨hgone.core, hgone.log, hgone.number, hgone.down⟩ (by rw [hworker]; rfl) rfl (by simp [Worker.draws])
  | @drawPeerGone rendered d draws hworker =>
    exact Turns.done (hgone.trans (Quietly.endDraws _ rendered)) (by rw [hworker]; rfl) (endDraws_worker _ _)
  | peerThere hworker | drawPeerThere hworker =>
    have hstage : s.worker.stage = .drawing := by rw [hworker]; rfl
    exact Turns.within hpoll hstage (by rw [← hstage]; rfl) fun d hd => hd
  | copied moved hworker =>
    have hstage : s.worker.stage = .drawing := by rw [hworker]; rfl
    have hchange := (h.copy_use hworker moved).trans (Quietly.change _ fun h => { h with copies := h.copies - 1 })
    have hsame : (((s.note s.useState).findBuffers moved).change fun h => { h with copies := h.copies - 1 }).worker =
        s.worker := by
      unfold State.change
      split <;> rfl
    exact Turns.within hchange hstage (by rw [hsame, hstage]) fun d hd => by rwa [hsame] at hd
  | copyMissing moved hworker =>
    have hfound := h.copy_use hworker moved
    exact Turns.within ⟨hfound.core, hfound.log, hfound.number, hfound.down⟩ (by rw [hworker]; rfl) rfl (by simp [Worker.draws])
  | copyFailed moved hworker =>
    have hcopyFail := (h.copy_use hworker moved).trans (Quietly.fail hpeer)
    exact Turns.within ⟨hcopyFail.core, hcopyFail.log, hcopyFail.number, hcopyFail.down⟩ (by rw [hworker]; rfl) rfl
      (by simp [Worker.draws])
  | snapshot memory hworker => exact snapshot_turns hworker memory
  | acquired hworker =>
    have hacquire := h.acquire_use hworker
    exact Turns.within ⟨hacquire.core, hacquire.log, hacquire.number, hacquire.down⟩ (by rw [hworker]; rfl) rfl
      (by simp [hworker, Worker.draws])
  | @notAcquired rendered d draws hworker =>
    have hacquireFail := (h.acquire_use hworker).trans (Quietly.fail (s := s.note _) hpeer)
    exact Turns.done (hacquireFail.trans (Quietly.endDraws _ rendered)) (by rw [hworker]; rfl) (endDraws_worker _ _)
  | paint ok found moved hworker => exact h.paint ok _ moved hworker
  | @present presented ok complete rendered d draws hworker =>
    obtain ⟨hsurface, -⟩ := h.borrowed d (by simp [hworker, Worker.draws])
    have hpresent : Quietly s (s.note (if ok then [.use (.surface d.surface)] else [])) := by
      cases ok
      · exact Quietly.note s [] (by simp)
      · exact Quietly.note s [.surface d.surface] (by simpa using hsurface)
    exact Turns.within ⟨hpresent.core, hpresent.log, hpresent.number, hpresent.down⟩ (by rw [hworker]; rfl) rfl
      (by simp [hworker, State.note, Worker.draws])
  | record hworker => exact h.recordDraw hworker
  | @endDraw rendered hworker => exact Turns.done (Quietly.endDraws s rendered) (by rw [hworker]; rfl) (endDraws_worker _ _)
  | removed hworker =>
    have hlooping : s.worker.stage = .looping := by rw [hworker]; rfl
    exact ⟨⟨rfl, ⟨[], by simp⟩, rfl, id⟩, by rw [hlooping]; rfl, .inl hlooping, by simp [hworker], fun d hd => .inl hd⟩
  | retired hworker =>
    exact ⟨⟨rfl, ⟨[], by simp⟩, rfl, id⟩, by rw [hworker]; rfl, .inl rfl, by simp, by simp [Worker.draws]⟩

/-- **What a step of the worker can do.** -/
theorem worker_cases (h : Inv s) (hs : s.workerStep a = some t) :
    (∃ created, s.worker = .starting ∧ t = s.start created) ∨ (∃ failing, s.worker = .testing ∧ t = s.pass failing) ∨
      (s.worker = .releasing ∧ t = s.releaseGraphics) ∨
      (s.worker = .released ∧ t = State.broadcast { s with stopping := true, worker := .exited }) ∨
      (a.turns = true ∧ Turns s t) := by
  cases hturns : a.turns with
  | true => exact .inr (.inr (.inr (.inr ⟨rfl, h.turn (workerStep_spec hs) hturns⟩)))
  | false =>
    cases workerStep_spec hs with
    | start created hworker => exact .inl ⟨created, hworker, rfl⟩
    | pass failing hworker => exact .inr (.inl ⟨failing, hworker, rfl⟩)
    | releaseGraphics hworker => exact .inr (.inr (.inl ⟨hworker, rfl⟩))
    | exit hworker => exact .inr (.inr (.inr (.inl ⟨hworker, rfl⟩)))
    | _ => cases hturns

/-- **A step of the worker** -/
theorem workerStep (h : Inv s) (hs : s.workerStep a = some t) : Inv t := by
  rcases h.worker_cases hs with ⟨created, hworker, rfl⟩ | ⟨failing, hworker, rfl⟩ | ⟨hworker, rfl⟩ | ⟨hworker, rfl⟩ |
    ⟨-, hturns⟩
  · exact h.start hworker created
  · exact (h.ready (by rw [hworker]; rfl)).pass failing
  · exact h.releaseGraphics hworker
  · exact h.exit hworker
  · exact h.turns hturns

end Inv

end Lorie.RendererThread
