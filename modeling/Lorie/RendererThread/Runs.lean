import Lorie.RendererThread.Resources

/-!
# The runs of the renderer's threads

The host's side of `Inv`, and what holds in every run of the host's thread, the worker and their environment.

- `Inv.sleep`, `Inv.requested`, `Inv.setSharedState`: a request is made; `Inv.await`: it is answered, or waits on;
- `Inv.host_cases`, `environment_cases`: what the steps of the two can do; `Inv.hostStep`, `Inv.step`: every step keeps `Inv`;
- `resources_exact`: the log of every run; `nothing_left`: where records are released without a window, nothing is left in hand
  when the connection is gone.
-/

namespace Lorie.RendererThread

open Lorie.Lib

/-! ## Asking the worker -/

theorem draws_signal (s : State) : s.signal.worker.draws = s.worker.draws := by
  unfold State.signal
  split
  · rename_i hworker
    simp [hworker, Worker.draws]
  · rfl

theorem nextNumber_signal (s : State) : s.signal.nextNumber = s.nextNumber := by
  unfold State.signal
  split <;> rfl

theorem unanswered_signal (s : State) (r : Request) : s.signal.unanswered r = s.unanswered r := by
  unfold State.signal
  split
  · cases r <;> rfl
  · rfl

theorem await_asleep {s : State} {r : Request} (h : s.unanswered r = true) :
    s.await r = { s with host := .waiting r true } := by
  simp [State.await, h]

/-- What a request makes of the core. -/
theorem core_await {s : State} {r : Request} (h : s.unanswered r = true) :
    (s.signal.await r).core = { s.core with host := .waiting r true } := by
  rw [await_asleep (by rw [unanswered_signal]; exact h), ← core_signal s]
  rfl

namespace Inv

variable {s t : State}

/-- A step of the host's thread that leaves the worker where it is. -/
theorem beside (h : Inv s) (hstage : t.worker.stage = s.worker.stage) (hdraws : t.worker.draws = s.worker.draws)
    (hcontrol : Control t.core s.worker.stage) (hholds : Holds parents t.log t.core.resources)
    (hborrowed : ∀ d, Borrowed s.core d → Borrowed t.core d)
    (hnumbered : ∀ m, t.state = some m ∨ t.pendingState = some m → m.number < t.nextNumber) : Inv t where
  control := by
    rw [hstage]
    exact hcontrol
  holds := hholds
  borrowed := by
    intro d hd
    rw [hdraws] at hd
    exact hborrowed d (h.borrowed d hd)
  numbered := hnumbered

/-- What is borrowed is still there when the resources are. -/
theorem still_borrowed {c c' : Core} (hmem : ∀ k ∈ c.resources, k ∈ c'.resources) (d : Draw) (h : Borrowed c d) :
    Borrowed c' d := ⟨hmem _ h.1, fun w hw => hmem _ (h.2 w hw)⟩

theorem signal (h : Inv s) : Inv s.signal := by
  have hcore := core_signal s
  have hstate : s.signal.state = s.state := congrArg Core.state hcore
  have hpending : s.signal.pendingState = s.pendingState := congrArg Core.pendingState hcore
  refine h.beside (stage_signal s) (draws_signal s) ?_ ?_ (still_borrowed ?_) ?_
  · rw [hcore]
    exact h.control
  · rw [hcore, log_signal]
    exact h.holds
  · rw [hcore]
    exact fun k hk => hk
  · rw [hstate, hpending, nextNumber_signal]
    exact h.numbered

/-- A request is made: the worker is signalled, and the host's thread sleeps. -/
theorem sleep (h : Inv s) {r : Request} (hworker : t.worker = s.worker) (hopen : t.unanswered r = true)
    (hcontrol : Control { t.core with host := .waiting r true } s.worker.stage) (hholds : Holds parents t.log t.core.resources)
    (hmem : ∀ k ∈ s.core.resources, k ∈ t.core.resources)
    (hnumbered : ∀ m, t.state = some m ∨ t.pendingState = some m → m.number < t.nextNumber) : Inv (t.signal.await r) := by
  have hasleep : t.signal.await r = { t.signal with host := .waiting r true } :=
    await_asleep (by rw [unanswered_signal]; exact hopen)
  have hcore := core_await hopen
  have hstate : (t.signal.await r).state = t.state := congrArg Core.state hcore
  have hpending : (t.signal.await r).pendingState = t.pendingState := congrArg Core.pendingState hcore
  refine h.beside ?_ ?_ ?_ ?_ (still_borrowed ?_) ?_
  · rw [hasleep, ← hworker]
    exact stage_signal t
  · rw [hasleep, ← hworker]
    exact draws_signal t
  · rw [hcore]
    exact hcontrol
  · rw [hcore, hasleep]
    have hlog := log_signal t
    rw [← hlog] at hholds
    exact hholds
  · rw [hcore]
    exact hmem
  · rw [hstate, hpending, hasleep]
    have hnumber := nextNumber_signal t
    rw [← hnumber] at hnumbered
    exact hnumbered

end Inv

/-! ## The requests -/

/-- A window, or none, is acquired. -/
theorem acquire_window {log : List (Access Resource)} {owned : List Resource} (h : Holds parents log owned)
    (window : Option Nat) :
    Holds parents (log ++ window.toList.map fun w => Access.acquire (.window w)) (window.toList.map Resource.window ++ owned) := by
  cases window with
  | none => simpa using h
  | some w => exact h.acquire (k := .window w) (by simp [parents])

/-- And it is given back. -/
theorem return_window {log : List (Access Resource)} {owned : List Resource} (h : Holds parents log owned)
    (hclosed : Closed owned) (window : Option Nat) :
    Holds parents (log ++ window.toList.map (fun w => Access.acquire (.window w)) ++
      window.toList.map fun w => Access.release (.window w)) owned := by
  have hacquired := acquire_window h window
  cases window with
  | none => simpa using h
  | some w => exact give hacquired (.refl _) hclosed

/-- The record with an id, between the others -/
theorem slots_split {slots : List Slot} {id : Nat} (hids : (slots.map (·.id)).Nodup) (hmem : ∃ o ∈ slots, o.id = id) :
    ∃ pre o post, slots = pre ++ o :: post ∧ o.id = id ∧ ∀ o' ∈ pre ++ post, o'.id ≠ id := by
  obtain ⟨o, ho, rfl⟩ := hmem
  obtain ⟨pre, post, rfl⟩ := List.append_of_mem ho
  refine ⟨pre, o, post, rfl, rfl, fun o' ho' heq => ?_⟩
  simp only [List.map_append, List.map_cons] at hids
  have hfresh := (List.nodup_cons.1 (List.nodup_middle.1 hids)).1
  rw [← List.map_append] at hfresh
  exact hfresh (List.mem_map.2 ⟨o', ho', heq⟩)

/-- The request of a window for a record adds it to what is in hand. -/
theorem request_resources {slots : List Slot} {id : Nat} (hids : (slots.map (·.id)).Nodup) (hmem : ∃ o ∈ slots, o.id = id)
    (hpending : ∀ o ∈ slots, o.pending = none) (window : Option Nat) :
    ((slots.map fun o => if o.id = id then o.request window else o).flatMap Slot.resources).Perm
      (window.toList.map Resource.window ++ slots.flatMap Slot.resources) := by
  obtain ⟨pre, o, post, rfl, rfl, hothers⟩ := slots_split hids hmem
  have hsame (l : List Slot) (hl : ∀ o' ∈ l, o' ∈ pre ++ post) :
      (l.map fun o' => if o'.id = o.id then o'.request window else o') = l := by
    conv_rhs => rw [← List.map_id l]
    exact List.map_congr_left fun o' ho' => if_neg (hothers o' (hl o' ho'))
  have hnone : o.pending = none := hpending o (by simp)
  simp only [List.map_append, List.map_cons, hsame pre fun o' ho' => List.mem_append_left _ ho',
    hsame post fun o' ho' => List.mem_append_right _ ho', if_true, List.flatMap_append, List.flatMap_cons]
  have hrecord : (o.request window).resources.Perm (window.toList.map Resource.window ++ o.resources) := by
    simp only [Slot.request, Slot.resources, hnone, Option.toList_none, List.map_nil, List.append_nil]
    exact List.perm_append_comm
  have hmiddle := (hrecord.append_right (post.flatMap Slot.resources)).append_left (pre.flatMap Slot.resources)
  rw [List.append_assoc] at hmiddle
  exact hmiddle.trans (List.perm_append_comm_assoc _ _ _)

/-- The resources of other records -/
theorem resources_replace (c : Core) {slots : List Slot} {l : List Resource}
    (h : (slots.flatMap Slot.resources).Perm (l ++ c.slots.flatMap Slot.resources)) :
    (Core.resources { c with slots := slots }).Perm (l ++ c.resources) := by
  have hnew := resources_slots { c with slots := slots }
  have hreplaced := hnew.trans (h.append_right (Core.resources { c with slots := [] }))
  rw [List.append_assoc] at hreplaced
  exact hreplaced.trans ((resources_slots c).symm.append_left l)

/-- A record that is there waits for its surface. -/
theorem unanswered_update {s : State} (hstopping : s.stopping = false) {id : Nat} (hany : s.outputs.any fun o => o.id = id)
    (window : Option Nat) (release : Bool) :
    State.unanswered { s with outputs := update id (·.request window release) s.outputs }
      (.surface id window release) = true := by
  obtain ⟨o, ho, hid⟩ := List.any_eq_true.1 hany
  have hid' : o.id = id := by simpa using hid
  have hasked : o.request window release ∈ update id (·.request window release) s.outputs :=
    List.mem_map.2 ⟨o, ho, by simp [hid']⟩
  simp only [State.unanswered, hstopping, Bool.not_false, Bool.and_true, List.any_eq_true]
  exact ⟨_, hasked, by simp [Output.request, hid']⟩

/-- A new record waits for its surface. -/
theorem unanswered_new {s : State} (hstopping : s.stopping = false) (id : Nat) (window : Option Nat) (release : Bool) :
    State.unanswered { s with outputs := (Output.new id).request window release :: s.outputs }
      (.surface id window release) = true := by
  simp [State.unanswered, hstopping, Output.request, Output.new]

/-- What `setOutputSurface` makes of the core. -/
theorem setOutputSurface_core {s : State} (hstopping : s.stopping = false) (id : Nat) (window : Option Nat)
    (release memory : Bool) : (s.setOutputSurface id window release memory).core = s.core ∨
      ∃ slots, (s.setOutputSurface id window release memory).core =
        { s.core with slots := slots, host := .waiting (.surface id window release) true } := by
  unfold State.setOutputSurface
  dsimp only [State.note]
  split
  · rename_i hany
    exact .inr ⟨_, core_await (unanswered_update hstopping hany window release)⟩
  · split
    · exact .inl rfl
    · exact .inr ⟨_, core_await (unanswered_new hstopping id window release)⟩

/-- And `setSharedState` -/
theorem setSharedState_core {s : State} (hstopping : s.stopping = false) (m : Option Mapping) (disconnecting : Bool) :
    (s.setSharedState m disconnecting).core =
      { s.core with pendingState := m, stateChanged := true, host := .waiting (.shared disconnecting) true } := by
  unfold State.setSharedState
  rw [core_await (by simp [State.unanswered, hstopping])]
  rfl

namespace Inv

variable {s : State}

/-- A window is requested for a record, new or not. -/
theorem requested (h : Inv s) {t : State} {id : Nat} {window : Option Nat} {release : Bool} {slots : List Slot}
    (hworker : t.worker = s.worker) (hcore : t.core = { s.core with slots := slots })
    (hlog : t.log = s.log ++ window.toList.map fun w => Access.acquire (.window w)) (hnumber : t.nextNumber = s.nextNumber)
    (hopen : t.unanswered (.surface id window release) = true)
    (hcontrol : Control { s.core with slots := slots, host := .waiting (.surface id window release) true } s.worker.stage)
    (hresources : (slots.flatMap Slot.resources).Perm (window.toList.map Resource.window ++ s.core.slots.flatMap Slot.resources)) :
    Inv (t.signal.await (.surface id window release)) := by
  have hperm := resources_replace s.core hresources
  have hstate : t.state = s.state := congrArg Core.state hcore
  have hpending : t.pendingState = s.pendingState := congrArg Core.pendingState hcore
  refine h.sleep hworker hopen ?_ ?_ ?_ ?_
  · rw [hcore]
    exact hcontrol
  · rw [hlog, hcore]
    exact (acquire_window h.holds window).congr hperm.symm
  · rw [hcore]
    exact fun k hk => hperm.mem_iff.2 (List.mem_append_right _ hk)
  · rw [hstate, hpending, hnumber]
    exact h.numbered

theorem not_stopping (hrunning : ¬s.core.Ending s.worker.stage) : s.stopping = false := by
  cases hstopping : s.stopping
  · rfl
  · exact absurd (.inl hstopping) hrunning

/-- `setOutputSurface` -/
theorem setOutputSurface (h : Inv s) (hidle : s.host = .idle) (hrunning : ¬s.core.Ending s.worker.stage) (id : Nat)
    (window : Option Nat) (release memory : Bool) : Inv (s.setOutputSurface id window release memory) := by
  have hstopping := not_stopping hrunning
  have hpending : ∀ o ∈ s.core.slots, o.pending = none :=
    fun o ho => h.control.pending o ho (h.control.idle_unchanged hidle ho)
  unfold State.setOutputSurface
  dsimp only [State.note]
  split
  · -- the record is there
    rename_i hany
    obtain ⟨o, ho, hid⟩ := List.any_eq_true.1 hany
    have hid' : o.id = id := by simpa using hid
    have hmem : ∃ o ∈ s.core.slots, o.id = id := ⟨o.slot, List.mem_map_of_mem ho, hid'⟩
    refine h.requested rfl ?_ rfl rfl ?_ (h.control.request hidle hrunning id window release)
      (request_resources h.control.ids hmem hpending window)
    · simp only [State.core, slots_request]
    · exact unanswered_update hstopping hany window release
  · rename_i hany
    split
    · -- nothing is requested
      have hreturned := return_window h.holds h.control.closed window
      exact h.beside rfl rfl h.control hreturned (fun _ hd => hd) h.numbered
    · have hfresh : ∀ o ∈ s.core.slots, o.id ≠ id := by
        intro o' ho' heq
        obtain ⟨o, ho, rfl⟩ := List.mem_map.1 ho'
        exact hany (List.any_eq_true.2 ⟨o, ho, decide_eq_true heq⟩)
      refine h.requested rfl ?_ rfl rfl ?_ (h.control.create hidle hrunning hfresh window release) ?_
      · rfl
      · exact unanswered_new hstopping id window release
      · simp [Slot.resources, Slot.request, Output.slot, Output.new]

/-- `setSharedState` -/
theorem setSharedState (h : Inv s) {t : State} {m : Option Mapping} {disconnecting leaving : Bool} (hidle : s.host = .idle)
    (hrunning : ¬s.core.Ending s.worker.stage) (hworker : t.worker = s.worker)
    (hcore : t.core = { s.core with leaving := leaving })
    (hholds : Holds parents t.log (m.toList.map .mapping ++ s.core.resources)) (hnumber : s.nextNumber ≤ t.nextNumber)
    (hm : m ≠ none → s.fd ≠ none) (hnew : ∀ m', m = some m' → m'.number = s.nextNumber ∧ m'.number < t.nextNumber)
    (hdisconnecting : disconnecting = true → m = none) (hleaving : leaving = true → disconnecting = true) :
    Inv (t.setSharedState m disconnecting) := by
  have hstopping := not_stopping hrunning
  have hsettled := h.control.idle_settled hidle
  have hnopending : s.core.pendingState = none := by
    by_contra hpending
    simp [h.control.pendingState hpending] at hsettled
  have hdistinct : ∀ m', s.core.state = some m' → m ≠ some m' := by
    intro m' hm' heq
    have hlt := h.numbered m' (.inl hm')
    have hat := (hnew m' heq).1
    omega
  have htstopping : t.stopping = false := (congrArg Core.stopping hcore).trans hstopping
  have htstate : t.state = s.state := congrArg Core.state hcore
  have hshared : State.core { t with pendingState := m, stateChanged := true } =
      { s.core with pendingState := m, stateChanged := true, leaving := leaving } := by
    have heq : State.core { t with pendingState := m, stateChanged := true } =
        { t.core with pendingState := m, stateChanged := true } := rfl
    rw [heq, hcore]
  have hperm : (Core.resources { s.core with pendingState := m, stateChanged := true, leaving := leaving }).Perm
      (m.toList.map .mapping ++ s.core.resources) := by
    simp only [Core.resources, hnopending, Option.toList_none, List.map_nil, List.append_nil, List.append_assoc]
    refine (((List.perm_append_comm_assoc _ _ _).append_left _).append_left _).trans ?_
    exact ((List.perm_append_comm_assoc _ _ _).append_left _).trans (List.perm_append_comm_assoc _ _ _)
  refine h.sleep hworker ?_ ?_ ?_ ?_ ?_
  · simp [State.unanswered, htstopping]
  · rw [hshared]
    exact h.control.share hidle hrunning hm hdistinct hdisconnecting hleaving
  · rw [hshared]
    exact hholds.congr hperm.symm
  · rw [hshared]
    exact fun k hk => hperm.mem_iff.2 (List.mem_append_right _ hk)
  · intro m' hm'
    rcases hm' with hm' | hm'
    · exact Nat.lt_of_lt_of_le (h.numbered m' (.inl (htstate.symm.trans hm'))) hnumber
    · exact (hnew m' hm').2

/-- `disconnect`, alone or before the connection is destroyed -/
theorem disconnect (h : Inv s) (hidle : s.host = .idle) (hrunning : ¬s.core.Ending s.worker.stage) (leaving : Bool) :
    Inv (State.disconnect { s with leaving := leaving }) := by
  have hused : Holds parents (s.log ++ s.fd.toList.map fun fd => Access.use (.socket fd)) s.core.resources := by
    have hmem : ∀ k ∈ s.fd.toList.map Resource.socket, k ∈ s.core.resources := by
      intro k hk
      simp only [Core.resources, State.core, List.mem_append]
      tauto
    have huse := h.holds.useAll hmem
    simpa [List.map_map, Function.comp_def] using huse
  refine h.setSharedState hidle hrunning rfl rfl ?_ (Nat.le_refl _) (by simp) (by simp) (by simp) (by simp)
  exact hused

end Inv

/-- **What a step of the environment can do**: wake the host, wake the worker, or change something that is in none of the two
threads' hands. -/
theorem environment_cases {s t : State} {a : Action} (hs : s.environmentStep a = some t) :
    (∃ r, s.host = .waiting r true ∧ t = { s with host := .waiting r false }) ∨
      (s.worker = .asleep ∧ t = { s with worker := .testing }) ∨ Quietly s t ∧ t.worker = s.worker := by
  cases a with
  | wakeHost =>
    simp only [State.environmentStep] at hs
    split at hs
    · rename_i r hhost
      cases hs
      exact .inl ⟨r, hhost, rfl⟩
    · cases hs
  | wakeWorker =>
    simp only [State.environmentStep] at hs
    split at hs
    · rename_i hasleep
      cases hs
      exact .inr (.inl ⟨hasleep, rfl⟩)
    · cases hs
  | hangup =>
    simp only [State.environmentStep] at hs
    split at hs
    · cases hs
      exact .inr (.inr ⟨⟨rfl, ⟨[], by simp⟩, rfl, fun _ => rfl⟩, rfl⟩)
    · cases hs
  | serverLock region | serverUnlock region =>
    simp only [State.environmentStep] at hs
    split at hs
    · cases hs
      exact .inr (.inr ⟨Quietly.changeAt .., rfl⟩)
    · cases hs
  | schedule region | redraw region =>
    cases hs
    exact .inr (.inr ⟨Quietly.changeAt .., rfl⟩)
  | _ => simp [State.environmentStep] at hs

theorem step_cases {s t : State} {a : Action} (hs : step s a = some t) :
    s.hostStep a = some t ∨ s.environmentStep a = some t ∨ s.workerStep a = some t := by
  simp only [step, Option.orElse_eq_orElse, Option.orElse_eq_or, Option.or_eq_some_iff] at hs
  tauto

/-! ## The answers -/

/-- The resources of a record that is freed are lost. -/
theorem resources_remove {c : Core} {o : Slot} {pre post : List Slot} (hslots : c.slots = pre ++ o :: post) :
    (Core.resources { c with slots := pre ++ post, lost := c.lost ++ o.resources }).Perm c.resources := by
  refine List.perm_iff_count.2 fun k => ?_
  simp only [Core.resources, hslots, List.flatMap_append, List.flatMap_cons, List.count_append]
  omega

/-- The descriptor of the connection, and the other resources -/
theorem resources_socket (c : Core) :
    c.resources.Perm (c.fd.toList.map .socket ++ Core.resources { c with fd := none }) := by
  refine List.perm_iff_count.2 fun k => ?_
  simp only [Core.resources, List.count_append, Option.toList_none, List.map_nil, List.count_nil]
  omega

theorem finishSurface_frame (s : State) (id : Nat) (window : Option Nat) (release : Bool) :
    (s.finishSurface id window release).log = s.log ∧ (s.finishSurface id window release).worker = s.worker ∧
      (s.finishSurface id window release).nextNumber = s.nextNumber := by
  unfold State.finishSurface
  dsimp only
  split
  · split <;> exact ⟨rfl, rfl, rfl⟩
  · exact ⟨rfl, rfl, rfl⟩

/-- What the end of `setOutputSurface` makes of the core. -/
theorem finishSurface_core (s : State) (id : Nat) (window : Option Nat) (release : Bool) :
    (s.finishSurface id window release).core = { s.core with host := .idle } ∨
      release = true ∧ ∃ pre o post, s.core.slots = pre ++ o :: post ∧ o.id = id ∧
        (s.finishSurface id window release).core =
          { s.core with host := .idle, slots := pre ++ post, lost := s.core.lost ++ o.resources } := by
  unfold State.finishSurface
  dsimp only
  split
  · rename_i hrelease
    split
    · rename_i o hfind
      obtain ⟨hid, pre, post, houtputs, hpre⟩ := List.find?_eq_some_iff_append.1 hfind
      have hhead : ((o :: post).eraseP fun o => o.id = id) = post := List.eraseP_cons_of_pos hid
      have herased : (s.outputs.eraseP fun o => o.id = id) = pre ++ post := by
        rw [houtputs, List.eraseP_append_right _ fun b hb => by simpa using hpre b hb, hhead]
      refine .inr ⟨hrelease, pre.map Output.slot, o.slot, post.map Output.slot, ?_, of_decide_eq_true hid, ?_⟩
      · simp [State.core, houtputs]
      · rw [herased]
        simp only [State.core, List.map_append]
        rfl
    · exact .inl rfl
  · exact .inl rfl

namespace Inv

variable {s t : State} {a : Action}

/-- The record of an answered request is not changed any more. -/
theorem settled (h : Inv s) {id : Nat} {window : Option Nat} {release asleep : Bool}
    (hhost : s.host = .waiting (.surface id window release) asleep)
    (hanswered : s.unanswered (.surface id window release) = false) : ∀ o ∈ s.core.slots, o.id = id → o.changed = false := by
  have hrunning := h.control.running (by simp [State.core, hhost, Host.ended])
  intro o' ho' hid
  obtain ⟨o, ho, rfl⟩ := List.mem_map.1 ho'
  simp only [State.unanswered, not_stopping hrunning, Bool.not_false, Bool.and_true, List.any_eq_false] at hanswered
  have hunchanged := hanswered o ho
  have hid' : o.id = id := hid
  have hfalse : ¬o.changed = true := by simpa [hid'] using hunchanged
  exact Bool.eq_false_iff.2 hfalse

/-- The end of `setOutputSurface` -/
theorem finishSurface (h : Inv s) {id : Nat} {window : Option Nat} {release asleep : Bool}
    (hhost : s.host = .waiting (.surface id window release) asleep)
    (hanswered : s.unanswered (.surface id window release) = false) : Inv (s.finishSurface id window release) := by
  have hfinished := h.control.finishSurface hhost (h.settled hhost hanswered)
  obtain ⟨hlog, hworker, hnumber⟩ := finishSurface_frame s id window release
  have hnumbered {m : Mapping} (hm : s.state = some m ∨ s.pendingState = some m) :
      m.number < (s.finishSurface id window release).nextNumber := by
    rw [hnumber]
    exact h.numbered m hm
  rcases finishSurface_core s id window release with hcore | ⟨-, pre, o, post, hslots, -, hcore⟩
  · have hstate : (s.finishSurface id window release).state = s.state := congrArg Core.state hcore
    have hpending : (s.finishSurface id window release).pendingState = s.pendingState := congrArg Core.pendingState hcore
    refine h.beside (by rw [hworker]) (by rw [hworker]) ?_ ?_ (still_borrowed ?_) ?_
    · rw [hcore]
      exact hfinished
    · rw [hcore, hlog]
      exact h.holds
    · rw [hcore]
      exact fun k hk => hk
    · rw [hstate, hpending]
      exact fun m hm => hnumbered hm
  · have hstate : (s.finishSurface id window release).state = s.state := congrArg Core.state hcore
    have hpending : (s.finishSurface id window release).pendingState = s.pendingState := congrArg Core.pendingState hcore
    have hperm := resources_remove hslots
    refine h.beside (by rw [hworker]) (by rw [hworker]) ?_ ?_ (still_borrowed ?_) ?_
    · rw [hcore]
      exact hfinished.remove hslots
    · rw [hcore, hlog]
      exact h.holds.congr hperm.symm
    · rw [hcore]
      exact fun k hk => hperm.mem_iff.2 hk
    · rw [hstate, hpending]
      exact fun m hm => hnumbered hm

/-- The end of `setSharedState` -/
theorem finishShared (h : Inv s) {disconnecting asleep : Bool} (hhost : s.host = .waiting (.shared disconnecting) asleep)
    (hanswered : s.unanswered (.shared disconnecting) = false) : Inv (s.finishShared disconnecting) := by
  have hrunning := h.control.running (by simp [State.core, hhost, Host.ended])
  have hstopping := not_stopping hrunning
  have hsettled : s.core.stateChanged = false := by
    have hfalse : ¬s.stateChanged = true := by simpa [State.unanswered, hstopping] using hanswered
    exact Bool.eq_false_iff.2 hfalse
  cases disconnecting
  · exact h.beside rfl rfl (h.control.finishShared hhost hsettled) h.holds (fun _ hd => hd) h.numbered
  · have hfinished := h.control.finishDisconnect hhost hsettled
    have hperm := resources_socket s.core
    have hkept (k : Resource) (hk : k ∈ s.core.resources) (hsocket : ∀ fd, k ≠ .socket fd) :
        k ∈ Core.resources { s.core with fd := none } := by
      refine (List.mem_append.1 (hperm.mem_iff.1 hk)).resolve_left fun hfd => ?_
      obtain ⟨fd, -, rfl⟩ := List.mem_map.1 hfd
      exact hsocket fd rfl
    refine h.beside rfl rfl hfinished ?_ ?_ h.numbered
    · have hholds : Holds parents s.log (s.fd.toList.map .socket ++ Core.resources { s.core with fd := none }) :=
        h.holds.congr hperm
      have hgiven : Holds parents (s.log ++ s.fd.toList.map fun fd => Access.release (.socket fd))
          (Core.resources { s.core with fd := none }) := by
        cases hfd : s.fd with
        | none => simpa [hfd] using hholds
        | some fd =>
          rw [hfd] at hholds
          exact give hholds (.refl _) hfinished.closed
      exact hgiven
    · exact fun d hd => ⟨hkept _ hd.1 (by simp), fun w hw => hkept _ (hd.2 w hw) (by simp)⟩

/-- A wait of the host's thread goes on, or ends. -/
theorem await (h : Inv s) {r : Request} {asleep : Bool} (hhost : s.host = .waiting r asleep) : Inv (s.await r) := by
  unfold State.await
  split
  · exact h.beside rfl rfl (h.control.wake hhost true) h.holds (fun _ hd => hd) h.numbered
  · rename_i hopen
    have hanswered : s.unanswered r = false := by simpa using hopen
    cases r with
    | init =>
      have hended : s.core.initialized = true ∨ s.core.stopping = true := by
        simp only [State.unanswered, Bool.and_eq_false_iff, Bool.not_eq_false'] at hanswered
        exact hanswered
      exact h.beside rfl rfl (h.control.finishInit hhost hended) h.holds (fun _ hd => hd) h.numbered
    | surface id window release => exact h.finishSurface hhost hanswered
    | shared disconnecting => exact h.finishShared hhost hanswered

/-- The host's thread calls the renderer, whose worker runs. -/
theorem calls (h : Inv s) (hcalls : s.calls = true) :
    s.host = .idle ∧ s.leaving = false ∧ ¬s.core.Ending s.worker.stage := by
  simp only [State.calls, Bool.and_eq_true, decide_eq_true_eq, Bool.not_eq_true'] at hcalls
  refine ⟨hcalls.1, hcalls.2, h.control.running ?_⟩
  simp [State.core, hcalls.1, hcalls.2, Host.ended]

/-- As long as there is a record the worker runs. -/
theorem record_runs (h : Inv s) {id : Nat} (hhead : s.outputs.head?.map (·.id) = some id) : ¬s.core.Ending s.worker.stage := by
  intro hending
  have hnil : s.outputs = [] := List.map_eq_nil_iff.1 (h.control.ended hending).1.slots
  simp [hnil] at hhead

/-- The connection is shut down before its shared state is detached. -/
theorem disconnect_down (h : Inv s) : (s.down || s.fd.isSome) = true ∨ s.peerFd = none := by
  have hpeer : s.peerFd = s.fd := h.control.peer
  cases hfd : s.fd with
  | none => exact .inr (hpeer.trans hfd)
  | some fd => exact .inl (by simp)

/-- **What a step of the host's thread can do**: make the worker, ask it for a surface or a shared state, go on after a wait, or
something that waits for nothing. -/
theorem host_cases (h : Inv s) (hs : s.hostStep a = some t) :
    (s.host = .born ∧ t = { s with worker := .starting, host := .waiting .init true }) ∨
      (∃ id window release memory, a = .setOutputSurface id window release memory ∧ s.host = .idle ∧
        ¬s.core.Ending s.worker.stage ∧ t = s.setOutputSurface id window release memory) ∨
      (∃ u m disconnecting, t = State.setSharedState u m disconnecting ∧ ¬s.core.Ending s.worker.stage ∧ u.lost = s.lost ∧
        u.stopping = s.stopping ∧ u.worker = s.worker ∧ (disconnecting = true → u.down = true ∨ u.peerFd = none)) ∨
      (∃ r, s.host = .waiting r false ∧ t = s.await r) ∨ (t.lost = s.lost ∧ ∀ r b, t.host ≠ .waiting r b) := by
  have hsignal (u : State) (hlost : u.lost = s.lost) (hhost : ∀ r b, u.host ≠ .waiting r b) :
      u.signal.lost = s.lost ∧ ∀ r b, u.signal.host ≠ .waiting r b := by
    have hcore := core_signal u
    have hlost' : u.signal.lost = u.lost := congrArg Core.lost hcore
    have hhost' : u.signal.host = u.host := congrArg Core.host hcore
    rw [hlost', hhost']
    exact ⟨hlost, hhost⟩
  have hcalm (hcalls : s.calls = true) (r : Request) (b : Bool) : s.host ≠ .waiting r b := by
    rw [(h.calls hcalls).1]
    simp
  cases hostStep_spec hs with
  | created hborn => exact .inl ⟨hborn, rfl⟩
  | notCreated | join => exact .inr (.inr (.inr (.inr ⟨rfl, by simp⟩)))
  | noSurface window release memory hcalls | connect fd hcalls => exact .inr (.inr (.inr (.inr ⟨rfl, hcalm hcalls⟩)))
  | surface id window release memory hcalls =>
    obtain ⟨hidle, -, hrunning⟩ := h.calls hcalls
    exact .inr (.inl ⟨id, window, release, memory, rfl, hidle, hrunning, rfl⟩)
  | destroySurface id memory hidle hid => exact .inr (.inl ⟨id, none, true, memory, rfl, hidle, h.record_runs hid, rfl⟩)
  | layer id hcalls | frame id f hcalls | addBuffer hcalls | removeAttached hcalls | removeAdded hcalls | removeNone _ hcalls =>
    exact .inr (.inr (.inr (.inr (hsignal _ rfl (hcalm hcalls)))))
  | receiveState region hcalls =>
    exact .inr (.inr (.inl ⟨_, _, _, rfl, (h.calls hcalls).2.2, rfl, rfl, rfl, by simp⟩))
  | disconnect hcalls | leave hcalls =>
    exact .inr (.inr (.inl ⟨_, _, _, rfl, (h.calls hcalls).2.2, rfl, rfl, rfl, fun _ => h.disconnect_down⟩))
  | destroy => exact .inr (.inr (.inr (.inr (hsignal _ rfl (by simp)))))
  | resume r hhost => exact .inr (.inr (.inr (.inl ⟨r, hhost, rfl⟩)))

/-- The worker is signalled after a step that leaves the core alone. -/
theorem quiet_signal (h : Inv s) (hq : Quietly s t) (hworker : t.worker = s.worker) : Inv t.signal :=
  (h.quiet_stage hq (by rw [hworker]) fun d hd => by rwa [hworker] at hd).signal

/-- The descriptor of a new connection -/
theorem connect (h : Inv s) (fd : Nat) (hcalls : s.calls = true) (hnone : s.fd = none) :
    Inv ({ s with fd := some fd, peerFd := some fd, down := false }.note [.acquire (.socket fd)]) := by
  obtain ⟨-, hleaving, hrunning⟩ := h.calls hcalls
  have hcontrol := h.control.connect hrunning hleaving fd
  have hcnone : s.core.fd = none := hnone
  have hacquired := h.holds.acquire (k := .socket fd) (by simp [parents])
  have hperm : (Core.resources { s.core with fd := some fd, peerFd := some fd }).Perm (.socket fd :: s.core.resources) := by
    refine List.perm_iff_count.2 fun k => ?_
    simp only [Core.resources, hcnone, List.count_append, List.count_cons, Option.toList_some, Option.toList_none,
      List.map_cons, List.map_nil, List.count_nil]
    omega
  refine h.beside rfl rfl hcontrol (hacquired.congr hperm.symm) (still_borrowed ?_) h.numbered
  exact fun k hk => hperm.mem_iff.2 (List.mem_cons_of_mem _ hk)

/-- **A step of the host's thread** -/
theorem hostStep (h : Inv s) (hs : s.hostStep a = some t) : Inv t := by
  cases hostStep_spec hs with
  | created hborn => exact ⟨h.control.createThread hborn, h.holds, by simp [Worker.draws], h.numbered⟩
  | notCreated hborn => exact h.beside rfl rfl (h.control.createFailed hborn) h.holds (fun _ hd => hd) h.numbered
  | noSurface => exact h.beside rfl rfl h.control h.holds (fun _ hd => hd) h.numbered
  | surface id window release memory hcalls =>
    obtain ⟨hidle, -, hrunning⟩ := h.calls hcalls
    exact h.setOutputSurface hidle hrunning id window release memory
  | destroySurface id memory hidle hid => exact h.setOutputSurface hidle (h.record_runs hid) id none true memory
  | layer id => exact h.quiet_signal (Quietly.update slot_addLayer id s) rfl
  | frame id f =>
    have hupdate := Quietly.update (g := (·.commit f)) (fun _ => rfl) id s
    exact h.quiet_signal ⟨hupdate.core, hupdate.log, hupdate.number, hupdate.down⟩ rfl
  | addBuffer | removeAttached | removeAdded => exact h.quiet_signal ⟨rfl, ⟨[], by simp⟩, rfl, id⟩ rfl
  | removeNone => exact h.signal
  | connect fd hcalls hnone => exact h.connect fd hcalls hnone
  | receiveState region hcalls hfd =>
    obtain ⟨hidle, hleaving, hrunning⟩ := h.calls hcalls
    have hconnected : s.fd ≠ none := Option.isSome_iff_ne_none.1 hfd
    have hacquired := h.holds.acquire (k := .mapping ⟨s.nextNumber, region⟩) (by simp [parents])
    refine h.setSharedState hidle hrunning rfl rfl hacquired (Nat.le_succ _) (fun _ => hconnected) ?_ (by simp) ?_
    · intro m' hm'
      cases hm'
      exact ⟨rfl, Nat.lt_succ_self _⟩
    · exact fun hl => absurd (hleaving.symm.trans hl) (by simp)
  | disconnect hcalls =>
    obtain ⟨hidle, -, hrunning⟩ := h.calls hcalls
    exact h.disconnect hidle hrunning s.leaving
  | leave hcalls =>
    obtain ⟨hidle, -, hrunning⟩ := h.calls hcalls
    exact h.disconnect hidle hrunning true
  | destroy hidle hleaving hnone =>
    have hcontrol := h.control.destroy hidle hleaving (by simp [State.core, hnone])
    have hstopped : Inv { s with stopping := true, host := .joining } :=
      h.beside rfl rfl hcontrol h.holds (fun _ hd => hd) h.numbered
    exact hstopped.signal
  | join hjoining hended =>
    have hstage : s.worker.stage = .exited ∨ s.worker.stage = .absent := by
      rcases hended with hworker | hworker <;> simp [hworker, Worker.stage]
    exact h.beside rfl rfl (h.control.join hstage) h.holds (fun _ hd => hd) h.numbered
  | resume r hhost => exact h.await hhost

/-- **A step of the environment** -/
theorem environmentStep (h : Inv s) (hs : s.environmentStep a = some t) : Inv t := by
  rcases environment_cases hs with ⟨r, hhost, rfl⟩ | ⟨hasleep, rfl⟩ | ⟨hquiet, hworker⟩
  · exact h.beside rfl rfl (h.control.wake hhost false) h.holds (fun _ hd => hd) h.numbered
  · exact h.quiet_stage ⟨rfl, ⟨[], by simp⟩, rfl, id⟩ (by simp [hasleep, Worker.stage]) (by simp [Worker.draws])
  · exact h.quiet_stage hquiet (by rw [hworker]) fun d hd => by rwa [hworker] at hd

/-- **A step of any of the threads** -/
theorem step (h : Inv s) (hs : RendererThread.step s a = some t) : Inv t := by
  rcases step_cases hs with hhost | henvironment | hworker
  · exact h.hostStep hhost
  · exact h.environmentStep henvironment
  · exact h.workerStep hworker

end Inv

/-! ## Every run -/

theorem inv_of_reach {C : State → Action → Prop} {s : State} (h : Reach step C State.init s) : Inv s :=
  h.invariant Inv.init fun _ _ _ hinv _ hs => hinv.step hs

/-- When the connection is gone, the worker has released everything. -/
theorem Control.gone_resources {c : Core} {p : Stage} (h : Control c p) (hgone : c.host = .gone) : c.resources = c.lost := by
  have hp := h.gone hgone
  have hbare := (h.ended (.inr (by rcases hp with rfl | rfl <;> rfl))).1
  have hdevice : c.graphicsDevice = false := by
    cases hdevice : c.graphicsDevice
    · rfl
    · rcases h.released hdevice with hruns | rfl
      · rcases hp with rfl | rfl <;> cases hruns
      · rcases hp with hp | hp <;> cases hp
  simp [Core.resources, hdevice, hbare.slots, hbare.state, hbare.pendingState, hbare.fd]

/-- A window is attached, a frame is drawn in it, and the connection is destroyed. -/
def wholeRun : List Action :=
  [.create true, .start true, .resume, .setOutputSurface 1 (some 7) false true, .pass [], .resume, .connect 5, .retire,
    .receiveState 0, .pass [], .resume, .setOutputLayer 1, .setOutputFrame 1 ⟨1, 9, 10, 10⟩, .drain, .snapshot true,
    .acquire true, .lock false, .paint true true 0, .present true, .record, .endDraw, .leave, .retire, .pass [], .resume,
    .setOutputSurface 1 none true true, .retire, .pass [], .resume, .destroy, .retire, .pass [], .releaseGraphics, .exit, .join]

/-- The whole run ends with the connection. -/
theorem exists_gone : ∃ s, exec step State.init wholeRun = some s ∧ s.host = .gone ∧ s.log.length = 27 := by
  have hrun : (exec step State.init wholeRun).any (fun s => s.host = .gone && s.log.length = 27) = true := by
    decide +kernel
  obtain ⟨s, hs, hstate⟩ := (Option.any_eq_true ..).1 hrun
  simp only [Bool.and_eq_true, decide_eq_true_eq] at hstate
  exact ⟨s, hs, hstate⟩

/-- **The log of every run is accepted: nothing is used after it was given back, nothing is given back twice, no window before
its surface; and what was not given back is in hand. When the connection is gone, only what was lost with a record is left.** -/
theorem resources_exact {s : State} (h : Reach step Free State.init s) :
    ∃ held, exec (Access.step parents) [] s.log = some held ∧ held.Perm s.resources ∧
      (s.host = .gone → s.resources = s.lost) := by
  have hinv := inv_of_reach h
  obtain ⟨held, hexec, hperm⟩ := hinv.holds
  rw [resources_core] at hperm
  refine ⟨held, hexec, hperm, fun hgone => ?_⟩
  rw [← resources_core]
  exact hinv.control.gone_resources hgone

theorem resources_exact_whole : ∃ s held, exec step State.init wholeRun = some s ∧
    exec (Access.step parents) [] s.log = some held ∧ held.Perm s.resources ∧ s.resources = s.lost := by
  obtain ⟨s, hs, hgone, -⟩ := exists_gone
  obtain ⟨held, hexec, hperm, hlost⟩ := resources_exact (.of_exec wholeRun hs)
  exact ⟨s, held, hs, hexec, hperm, hlost hgone⟩

/-! ## Records that are released without a window -/

/-- The release of a record passes no window. -/
def Action.windowless : Action → Bool
  | .setOutputSurface _ (some _) true _ => false
  | _ => true

def Windowless (_ : State) (a : Action) : Prop := a.windowless = true

/-- The host does not wait to release a record with a window. -/
def Host.windowless : Host → Bool
  | .waiting (.surface _ (some _) true) _ => false
  | _ => true

/-- Nothing was lost, and nothing will be with the record that is to be released. -/
structure Careful (c : Core) : Prop where
  lost : c.lost = []
  windowless : c.host.windowless = true

namespace Careful

variable {s t : State} {a : Action}

theorem congr {c c' : Core} (h : Careful c) (hlost : c'.lost = c.lost) (hhost : c'.host.windowless = c.host.windowless) :
    Careful c' := ⟨hlost.trans h.lost, hhost.trans h.windowless⟩

/-- The host has its answer. -/
theorem idle {c c' : Core} (h : Careful c) (hlost : c'.lost = c.lost) (hhost : c'.host = .idle) : Careful c' :=
  ⟨hlost.trans h.lost, by simp [hhost, Host.windowless]⟩

theorem windowless_waiting (r : Request) (b b' : Bool) : (Host.waiting r b).windowless = (Host.waiting r b').windowless := by
  rcases r with _ | ⟨id, w, release⟩ | d
  · rfl
  · cases w <;> cases release <;> rfl
  · rfl

theorem broadcast_windowless (s : State) : s.broadcast.host.windowless = s.host.windowless := by
  unfold State.broadcast
  split
  · rename_i r asleep hhost
    rw [hhost]
    exact windowless_waiting r false asleep
  · rfl

/-- A record that was released without a window owns nothing. -/
theorem released (hinv : Inv s) {id : Nat} {asleep : Bool} (hhost : s.host = .waiting (.surface id none true) asleep)
    (hanswered : s.unanswered (.surface id none true) = false) {o : Slot} (ho : o ∈ s.core.slots) (hid : o.id = id) :
    o.resources = [] := by
  have hchanged := hinv.settled hhost hanswered o ho hid
  have hpending := hinv.control.pending o ho hchanged
  have hwindow : o.window = none := by
    have hasked := hinv.control.asked id none true asleep hhost o ho hid
    simpa [hchanged] using hasked
  have hsurface : o.surface = none := by
    cases hs : o.surface with
    | none => rfl
    | some f =>
      have hsome := hinv.control.surface o ho f hs
      simp [hwindow] at hsome
  simp [Slot.resources, hpending, hwindow, hsurface]

/-- A wait goes on or ends. -/
theorem await (h : Careful s.core) (hinv : Inv s) {r : Request} (hhost : s.host = .waiting r false) :
    Careful (s.await r).core := by
  have hwindowless : (Host.waiting r false).windowless = true := by
    have hw := h.windowless
    rwa [show s.core.host = .waiting r false from hhost] at hw
  unfold State.await
  split
  · exact ⟨h.lost, (windowless_waiting r true false).trans hwindowless⟩
  · rename_i hopen
    have hanswered : s.unanswered r = false := by simpa using hopen
    rcases r with _ | ⟨id, w, release⟩ | d
    · exact h.idle rfl rfl
    · rcases finishSurface_core s id w release with hcore | ⟨rfl, pre, o, post, hslots, hid, hcore⟩
      · have hlost : (s.finishSurface id w release).core.lost = s.core.lost := by rw [hcore]
        exact h.idle hlost (by simp only [State.finish, hcore])
      · cases w with
        | some w => cases hwindowless
        | none =>
          have hnothing := released hinv hhost hanswered (o := o) (by simp [hslots]) hid
          refine h.idle ?_ (congrArg Core.host hcore)
          refine (congrArg Core.lost hcore).trans ?_
          simp [hnothing]
    · cases d <;> exact h.idle rfl rfl

/-- A pass of the loop -/
theorem pass (h : Careful s.core) (hready : Ready s) (failing : List Nat) : Careful (s.pass failing).core := by
  rcases hready.pass_cases failing with ⟨-, heq⟩ | ⟨-, -, heq⟩ | ⟨-, -, n, heq⟩
  · rw [heq]
    exact h
  · rw [heq]
    exact h
  · rw [heq]
    exact h.congr rfl (broadcast_windowless s)

theorem workerStep (h : Careful s.core) (hinv : Inv s) (hs : s.workerStep a = some t) : Careful t.core := by
  rcases hinv.worker_cases hs with ⟨created, hworker, rfl⟩ | ⟨failing, hworker, rfl⟩ | ⟨hworker, rfl⟩ | ⟨hworker, rfl⟩ |
    ⟨-, hturns⟩
  · cases created
    · exact h
    · refine Careful.pass ?_ (hinv.started hworker) []
      rw [broadcast_core]
      exact h.congr rfl (broadcast_windowless _)
  · exact h.pass (hinv.ready (by rw [hworker]; rfl)) failing
  · exact h.congr rfl rfl
  · rw [broadcast_core]
    exact h.congr rfl (broadcast_windowless _)
  · rw [hturns.quiet.core]
    exact h

theorem setOutputSurface (h : Careful s.core) (hrunning : ¬s.core.Ending s.worker.stage) {id : Nat} {window : Option Nat}
    {release memory : Bool} (hwindow : Windowless s (.setOutputSurface id window release memory)) :
    Careful (s.setOutputSurface id window release memory).core := by
  rcases setOutputSurface_core (Inv.not_stopping hrunning) id window release memory with hcore | ⟨slots, hcore⟩
  · rw [hcore]
    exact h
  · rw [hcore]
    refine ⟨h.lost, ?_⟩
    cases window with
    | none => rfl
    | some w =>
      cases release with
      | false => rfl
      | true => cases hwindow

theorem hostStep (h : Careful s.core) (hinv : Inv s) (hwindow : Windowless s a) (hs : s.hostStep a = some t) :
    Careful t.core := by
  rcases hinv.host_cases hs with ⟨-, rfl⟩ | ⟨id, window, release, memory, rfl, -, hrunning, rfl⟩ |
    ⟨u, m, disconnecting, rfl, hrunning, hlost, hstopping, -, -⟩ | ⟨r, hhost, rfl⟩ | ⟨hlost, hhost⟩
  · exact ⟨h.lost, rfl⟩
  · exact h.setOutputSurface hrunning hwindow
  · rw [setSharedState_core (hstopping.trans (Inv.not_stopping hrunning))]
    exact ⟨hlost.trans h.lost, rfl⟩
  · exact h.await hinv hhost
  · refine ⟨hlost.trans h.lost, ?_⟩
    have hcalm (r : Request) (b : Bool) : t.core.host ≠ .waiting r b := hhost r b
    unfold Host.windowless
    split
    · rename_i heq
      exact absurd heq (hcalm _ _)
    · rfl

theorem environmentStep (h : Careful s.core) (hs : s.environmentStep a = some t) : Careful t.core := by
  rcases environment_cases hs with ⟨r, hhost, rfl⟩ | ⟨-, rfl⟩ | ⟨hquiet, -⟩
  · refine h.congr rfl ?_
    have hhost' : s.core.host = .waiting r true := hhost
    rw [hhost']
    exact windowless_waiting r false true
  · exact h
  · rw [hquiet.core]
    exact h

theorem step (h : Careful s.core) (hinv : Inv s) (hwindow : Windowless s a) (hs : RendererThread.step s a = some t) :
    Careful t.core := by
  rcases step_cases hs with hhost | henvironment | hworker
  · exact h.hostStep hinv hwindow hhost
  · exact h.environmentStep henvironment
  · exact h.workerStep hinv hworker

end Careful

theorem careful_of_reach {s : State} (h : Reach step Windowless State.init s) : Careful s.core := by
  have hboth : Inv s ∧ Careful s.core := by
    refine h.invariant (I := fun s => Inv s ∧ Careful s.core) ⟨Inv.init, rfl, rfl⟩ fun t a u ht hwindow hs => ?_
    exact ⟨ht.1.step hs, ht.2.step ht.1 hwindow hs⟩
  exact hboth.2

/-- **Where the release of a record passes no window, everything that was acquired is released when the connection is gone.** -/
theorem nothing_left {s : State} (h : Reach step Windowless State.init s) (hgone : s.host = .gone) :
    exec (Access.step parents) [] s.log = some [] := by
  have hinv := inv_of_reach h
  obtain ⟨held, hexec, hperm⟩ := hinv.holds
  rw [hinv.control.gone_resources hgone, (careful_of_reach h).lost] at hperm
  rw [hexec, List.perm_nil.1 hperm]

theorem nothing_left_whole : ∃ s, exec step State.init wholeRun = some s ∧ s.log.length = 27 ∧
    exec (Access.step parents) [] s.log = some [] := by
  obtain ⟨s, hs, hgone, hlength⟩ := exists_gone
  have hwindowless : ∀ a ∈ wholeRun, a.windowless = true := by decide
  exact ⟨s, hs, hlength, nothing_left (.of_exec_all (fun a ha _ => hwindowless a ha) hs) hgone⟩

end Lorie.RendererThread
