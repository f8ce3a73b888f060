import Lorie.RendererThread.Runs

/-!
# The host's thread is answered

A host's thread that sleeps in the renderer is not forgotten: its request is open, and the worker is not asleep (`Awake`). What
the worker then does by itself lowers a number (`State.work`) until it answers. It waits for others in one place: for the pixel
lock that the X server holds, as long as the peer is there; `disconnect` shuts the connection down first, and is answered.

- `Awake`, `awake_of_reach`: no wakeup is lost;
- `State.proceed`: a step that gets the worker on; `proceed_answers`: it answers, or lowers `State.work`;
- `host_answered`: how many steps the worker needs, and what it can wait for.
-/

namespace Lorie.RendererThread

open Lorie.Lib

/-- The worker is neither asleep nor gone. -/
def Worker.attends : Worker → Bool
  | .absent | .asleep | .exited => false
  | _ => true

/-- The request of the host has not been answered. -/
def Core.unanswered (c : Core) : Request → Bool
  | .init => !c.initialized && !c.stopping
  | .surface id _ _ => (c.slots.any fun o => o.id = id && o.changed) && !c.stopping
  | .shared _ => c.stateChanged && !c.stopping

theorem unanswered_core (s : State) (r : Request) : s.unanswered r = s.core.unanswered r := by
  cases r with
  | surface id window release =>
    simp only [State.unanswered, Core.unanswered, State.core, List.any_map]
    rfl
  | _ => rfl

theorem attends_of_runs {w : Worker} (hruns : w.stage.runs = true) (hasleep : w ≠ .asleep) : w.attends = true := by
  cases w <;> first | rfl | exact absurd rfl hasleep | cases hruns

theorem attends_signal {s : State} (hruns : s.worker.stage.runs = true) : s.signal.worker.attends = true := by
  unfold State.signal
  split
  · rfl
  · rename_i hasleep
    exact attends_of_runs hruns hasleep

/-- **No wakeup is lost**: who sleeps has an open request, and the worker attends to it. -/
structure Awake (c : Core) (w : Worker) : Prop where
  opened : ∀ r, c.host = .waiting r true → c.unanswered r = true
  attended : ∀ r b, c.host = .waiting r b → c.unanswered r = true → w.attends = true

namespace Awake

variable {c : Core} {w : Worker} {s t : State} {a : Action}

/-- The host waits for nothing. -/
theorem of_not_waiting (h : ∀ r b, c.host ≠ .waiting r b) : Awake c w :=
  ⟨fun r hhost => absurd hhost (h r true), fun r b hhost => absurd hhost (h r b)⟩

/-- The worker attends to whatever is open. -/
theorem of_attends (hopened : ∀ r, c.host = .waiting r true → c.unanswered r = true) (hw : w.attends = true) : Awake c w :=
  ⟨hopened, fun _ _ _ _ => hw⟩

/-- Who waits has the answer. -/
theorem of_answered (hhost : ∀ r b, c.host = .waiting r b → b = false ∧ c.unanswered r = false) : Awake c w where
  opened r hr := by cases (hhost r true hr).1
  attended r b hr hopen := by
    rw [(hhost r b hr).2] at hopen
    cases hopen

end Awake

theorem broadcast_waiting {s : State} {r : Request} {b : Bool} (h : s.broadcast.host = .waiting r b) :
    b = false ∧ ∃ b', s.host = .waiting r b' := by
  unfold State.broadcast at h
  split at h
  · rename_i r' b' hhost
    cases h
    exact ⟨rfl, b', hhost⟩
  · rename_i hnot
    exact absurd h (hnot r b)

theorem broadcast_twice (s : State) : s.broadcast.broadcast.host = s.broadcast.host := by
  cases hhost : s.host <;> simp [State.broadcast, hhost]

/-- A worker that may sleep leaves nothing unanswered. -/
theorem shouldWait_answered {s : State} (hinitialized : s.initialized = true) (hwait : s.shouldWait = true) (r : Request) :
    s.unanswered r = false := by
  have hnothing :
      ¬(s.stateChanged || 0 < s.addedBuffers || 0 < s.removedBuffers || outputSurfacesChanged s.outputs) = true := by
    intro hany
    simp [State.shouldWait, hany] at hwait
  simp only [Bool.or_eq_true, decide_eq_true_eq, not_or, Bool.not_eq_true] at hnothing
  obtain ⟨⟨⟨hchanged, -⟩, -⟩, hsurfaces⟩ := hnothing
  cases r with
  | init => simp [State.unanswered, hinitialized]
  | shared disconnecting => simp [State.unanswered, hchanged]
  | surface id window release =>
    have hnone : (s.outputs.any fun o => o.id = id && o.changed) = false := by
      refine List.any_eq_false.2 fun o ho => ?_
      have hunchanged := List.any_eq_false.1 hsurfaces o ho
      simp [hunchanged]
    simp [State.unanswered, hnone]

namespace Awake

variable {s t : State} {a : Action}

/-- A pass of the loop -/
theorem pass (h : Awake s.core s.worker) (hready : Ready s) (failing : List Nat) :
    Awake (s.pass failing).core (s.pass failing).worker := by
  rcases hready.pass_cases failing with ⟨-, heq⟩ | ⟨-, hwait, heq⟩ | ⟨-, hworker, n, heq⟩
  · rw [heq]
    exact of_attends h.opened rfl
  · rw [heq]
    refine ⟨h.opened, fun r b _ hopen => ?_⟩
    have hanswered := shouldWait_answered (hready.control.begun rfl) hwait r
    rw [unanswered_core] at hanswered
    exact absurd (hanswered.symm.trans hopen) (by simp)
  · rw [heq]
    refine of_attends (fun r hr => ?_) (by rcases hworker with hw | hw <;> rw [hw] <;> rfl)
    cases (broadcast_waiting hr).1

/-- `initThread` has made the device. -/
theorem started (hinv : Inv s) (hworker : s.worker = .starting) : Awake (s.start true).core (s.start true).worker := by
  have hready := hinv.started hworker
  refine Awake.pass ?_ hready []
  refine of_answered fun r b hr => ?_
  rw [broadcast_core] at hr ⊢
  obtain ⟨hb, b', hhost⟩ := broadcast_waiting hr
  have hinitializes := (hinv.control.starting (by rw [hworker]; rfl)).1
  refine ⟨hb, ?_⟩
  have hhost' : s.core.host = .waiting r b' := hhost
  rw [hhost'] at hinitializes
  cases r with
  | init => rfl
  | surface id window release => cases hinitializes
  | shared disconnecting => cases hinitializes

theorem workerStep (h : Awake s.core s.worker) (hinv : Inv s) (hs : s.workerStep a = some t) : Awake t.core t.worker := by
  rcases hinv.worker_cases hs with ⟨created, hworker, rfl⟩ | ⟨failing, hworker, rfl⟩ | ⟨hworker, rfl⟩ | ⟨hworker, rfl⟩ |
    ⟨-, hturns⟩
  · cases created
    · exact of_attends h.opened rfl
    · exact started hinv hworker
  · exact h.pass (hinv.ready (by rw [hworker]; rfl)) failing
  · rw [hinv.releaseGraphics_core hworker]
    exact of_attends h.opened rfl
  · refine of_answered fun r b hr => ?_
    rw [broadcast_core] at hr ⊢
    refine ⟨(broadcast_waiting hr).1, ?_⟩
    cases r <;> simp [Core.unanswered, State.core]
  · rw [hturns.quiet.core]
    refine of_attends h.opened (attends_of_runs ?_ hturns.awake)
    rcases hturns.stage with hstage | ⟨hstage, -⟩ <;> rw [hstage] <;> rfl

/-- A request is made of a worker that runs. -/
theorem asked {u : State} {r : Request} (hopen : u.unanswered r = true) (hruns : u.worker.stage.runs = true) :
    Awake (u.signal.await r).core (u.signal.await r).worker := by
  have hworker : (u.signal.await r).worker = u.signal.worker := by
    rw [await_asleep (by rw [unanswered_signal]; exact hopen)]
  rw [core_await hopen, hworker]
  refine of_attends (fun r' hr' => ?_) (attends_signal hruns)
  cases hr'
  rw [unanswered_core] at hopen
  cases r <;> exact hopen

theorem setOutputSurface (hidle : s.host = .idle) (hstopping : s.stopping = false) (hruns : s.worker.stage.runs = true)
    (id : Nat) (window : Option Nat) (release memory : Bool) :
    Awake (s.setOutputSurface id window release memory).core (s.setOutputSurface id window release memory).worker := by
  unfold State.setOutputSurface
  dsimp only [State.note]
  split
  · rename_i hany
    exact asked (unanswered_update hstopping hany window release) hruns
  · split
    · refine of_not_waiting fun r b hhost => ?_
      have hhost' : s.host = .waiting r b := hhost
      rw [hidle] at hhost'
      cases hhost'
    · exact asked (unanswered_new hstopping id window release) hruns

theorem finish_host (s : State) (r : Request) : (s.finish r).host = .idle := by
  cases r with
  | init => rfl
  | surface id window release =>
    rcases finishSurface_core s id window release with hcore | ⟨-, pre, o, post, -, -, hcore⟩
    · exact congrArg Core.host hcore
    · exact congrArg Core.host hcore
  | shared disconnecting => cases disconnecting <;> rfl

theorem runs_of_not_ending (hrunning : ¬s.core.Ending s.worker.stage) : s.worker.stage.runs = true := by
  cases hruns : s.worker.stage.runs
  · exact absurd (.inr hruns) hrunning
  · rfl

theorem hostStep (h : Awake s.core s.worker) (hinv : Inv s) (hs : s.hostStep a = some t) : Awake t.core t.worker := by
  rcases hinv.host_cases hs with ⟨hborn, rfl⟩ | ⟨id, window, release, memory, -, hidle, hrunning, rfl⟩ |
    ⟨u, m, disconnecting, rfl, hrunning, -, hstopping, hworker, -⟩ | ⟨r, hhost, rfl⟩ | ⟨-, hhost⟩
  · obtain ⟨habsent, hstopping⟩ := hinv.control.born hborn
    have huninitialized := hinv.control.uninitialized (.inl habsent)
    refine of_attends (fun r hr => ?_) rfl
    cases hr
    have hi : s.initialized = false := huninitialized
    have hg : s.stopping = false := hstopping
    simp [Core.unanswered, State.core, hi, hg]
  · exact setOutputSurface hidle (Inv.not_stopping hrunning) (runs_of_not_ending hrunning) id window release memory
  · refine asked ?_ ?_
    · simp [State.unanswered, hstopping.trans (Inv.not_stopping hrunning)]
    · have hruns := runs_of_not_ending hrunning
      rw [← hworker] at hruns
      exact hruns
  · unfold State.await
    split
    · rename_i hopen
      rw [unanswered_core] at hopen
      refine of_attends (fun r' hr' => ?_) (h.attended r false hhost hopen)
      cases hr'
      cases r <;> exact hopen
    · refine of_not_waiting fun r' b hr' => ?_
      have hidle := finish_host s r
      have hwaiting : (s.finish r).host = .waiting r' b := hr'
      rw [hidle] at hwaiting
      cases hwaiting
  · exact of_not_waiting hhost

theorem environmentStep (h : Awake s.core s.worker) (hs : s.environmentStep a = some t) : Awake t.core t.worker := by
  rcases environment_cases hs with ⟨r, hhost, rfl⟩ | ⟨-, rfl⟩ | ⟨hquiet, hworker⟩
  · refine ⟨fun r' hr' => ?_, fun r' b hr' hopen => ?_⟩
    · cases hr'
    · cases hr'
      refine h.attended r true hhost ?_
      cases r <;> exact hopen
  · exact of_attends h.opened rfl
  · rw [hquiet.core, hworker]
    exact h

theorem step (h : Awake s.core s.worker) (hinv : Inv s) (hs : RendererThread.step s a = some t) : Awake t.core t.worker := by
  rcases step_cases hs with hhost | henvironment | hworker
  · exact h.hostStep hinv hhost
  · exact h.environmentStep henvironment
  · exact h.workerStep hinv hworker

end Awake

/-! ## The connection that is shut down -/

/-- `disconnect` waits after it has shut the connection down. -/
def Hung (s : State) : Prop := s.host.detaches = true → s.down = true ∨ s.peerFd = none

theorem down_change {s : State} (g : Shared → Shared) : (s.change g).down = s.down := by
  unfold State.change
  split <;> rfl

theorem down_broadcast (s : State) : s.broadcast.down = s.down := by
  unfold State.broadcast
  split <;> rfl

theorem down_takeState (s : State) : s.takeState.down = s.down := by
  have hdrop : s.dropState.down = s.down := by
    unfold State.dropState
    split
    · simp only [State.note, down_change]
    · rfl
  unfold State.takeState
  split
  · simp only [State.publishSurface, State.note, down_change, hdrop]
  · rfl

theorem down_pass (s : State) (failing : List Nat) : (s.pass failing).down = s.down := by
  have hattach (u : State) : u.attachBuffers.down = u.down := by
    unfold State.attachBuffers
    split <;> rfl
  have hrefresh (u : State) : (u.refreshOutputSurfaces failing).down = u.down := by
    simp only [State.refreshOutputSurfaces, State.publishSurface, State.note, down_change]
  unfold State.pass
  split
  · rfl
  · split
    · rfl
    · simp only [down_broadcast, hattach, hrefresh, down_takeState]

/-- The worker does not open the connection again. -/
theorem worker_down {s t : State} {a : Action} (hinv : Inv s) (hs : s.workerStep a = some t) (hdown : s.down = true) :
    t.down = true := by
  rcases hinv.worker_cases hs with ⟨created, -, rfl⟩ | ⟨failing, -, rfl⟩ | ⟨-, rfl⟩ | ⟨-, rfl⟩ | ⟨-, hturns⟩
  · cases created
    · exact hdown
    · simp only [State.start, if_true, down_pass, down_broadcast]
      exact hdown
  · rw [down_pass]
    exact hdown
  · exact hdown
  · rw [down_broadcast]
    exact hdown
  · exact hturns.quiet.down hdown

theorem pass_waiting {s : State} (hready : Ready s) (failing : List Nat) :
    ((s.pass failing).host = s.host ∨ (s.pass failing).host = s.broadcast.host) ∧ (s.pass failing).peerFd = s.peerFd := by
  rcases hready.pass_cases failing with ⟨-, heq⟩ | ⟨-, -, heq⟩ | ⟨-, -, n, heq⟩
  · rw [heq]
    exact ⟨.inl rfl, rfl⟩
  · rw [heq]
    exact ⟨.inl rfl, rfl⟩
  · exact ⟨.inr (congrArg Core.host heq), congrArg Core.peerFd heq⟩

/-- `initThread` answers. -/
theorem started_waiting {s : State} (hinv : Inv s) (hworker : s.worker = .starting) :
    (s.start true).host = s.broadcast.host ∧ (s.start true).peerFd = s.peerFd := by
  obtain ⟨hhost, hpeer⟩ := pass_waiting (hinv.started hworker) []
  have hcore := broadcast_core (State.note { s with graphicsDevice := true, initialized := true } [.acquire .device])
  have hfirst : (State.note { s with graphicsDevice := true, initialized := true } [.acquire .device]).broadcast.host =
      s.broadcast.host := broadcast_host rfl
  refine ⟨?_, hpeer.trans (congrArg Core.peerFd hcore)⟩
  rcases hhost with hhost | hhost
  · exact hhost.trans hfirst
  · exact hhost.trans ((broadcast_twice _).trans hfirst)

/-- What the worker leaves of the host's wait, and of the descriptor that it polls. -/
theorem worker_waiting {s t : State} {a : Action} (hinv : Inv s) (hs : s.workerStep a = some t) :
    (t.host = s.host ∨ t.host = s.broadcast.host) ∧ t.peerFd = s.peerFd := by
  rcases hinv.worker_cases hs with ⟨created, hworker, rfl⟩ | ⟨failing, hworker, rfl⟩ | ⟨hworker, rfl⟩ | ⟨hworker, rfl⟩ |
    ⟨-, hturns⟩
  · cases created
    · exact ⟨.inl rfl, rfl⟩
    · obtain ⟨hhost, hpeer⟩ := started_waiting hinv hworker
      exact ⟨.inr hhost, hpeer⟩
  · exact pass_waiting (hinv.ready (by rw [hworker]; rfl)) failing
  · exact ⟨.inl rfl, rfl⟩
  · refine ⟨.inr (broadcast_host rfl), ?_⟩
    exact congrArg Core.peerFd (broadcast_core { s with stopping := true, worker := .exited })
  · exact ⟨.inl (congrArg Core.host hturns.quiet.core), congrArg Core.peerFd hturns.quiet.core⟩

theorem detaches_waiting (r : Request) (b b' : Bool) : (Host.waiting r b).detaches = (Host.waiting r b').detaches := by
  rcases r with _ | _ | disconnecting
  · rfl
  · rfl
  · cases disconnecting <;> rfl

theorem detaches_broadcast (s : State) : s.broadcast.host.detaches = s.host.detaches := by
  unfold State.broadcast
  split
  · rename_i r b hhost
    rw [hhost]
    exact detaches_waiting r false b
  · rfl

theorem detaches_idle {h : Host} (hcalm : ∀ r b, h ≠ .waiting r b) : h.detaches = false := by
  cases h with
  | waiting r b => exact absurd rfl (hcalm r b)
  | _ => rfl

theorem down_signal (s : State) : s.signal.down = s.down := by
  unfold State.signal
  split <;> rfl

namespace Hung

variable {s t : State} {a : Action}

/-- The host does not detach the shared state. -/
theorem of_detaches (h : t.host.detaches = false) : Hung t := by
  intro hdetaches
  rw [h] at hdetaches
  cases hdetaches

theorem setSharedState {u : State} {m : Option Mapping} {disconnecting : Bool} (hstopping : u.stopping = false)
    (hdown : disconnecting = true → u.down = true ∨ u.peerFd = none) : Hung (u.setSharedState m disconnecting) := by
  have hcore := setSharedState_core hstopping m disconnecting
  have hhost : (u.setSharedState m disconnecting).host = .waiting (.shared disconnecting) true := congrArg Core.host hcore
  have hpeer : (u.setSharedState m disconnecting).peerFd = u.peerFd := congrArg Core.peerFd hcore
  have hsame : (u.setSharedState m disconnecting).down = u.down := by
    unfold State.setSharedState
    rw [await_asleep (by rw [unanswered_signal]; simp [State.unanswered, hstopping])]
    exact down_signal _
  cases disconnecting with
  | false => exact of_detaches (by rw [hhost]; rfl)
  | true =>
    intro _
    rw [hsame, hpeer]
    exact hdown rfl

theorem await (h : Hung s) {r : Request} (hhost : s.host = .waiting r false) : Hung (s.await r) := by
  unfold State.await
  split
  · intro hdetaches
    refine h ?_
    rw [hhost, detaches_waiting r false true]
    exact hdetaches
  · exact of_detaches (by rw [Awake.finish_host]; rfl)

theorem hostStep (h : Hung s) (hinv : Inv s) (hs : s.hostStep a = some t) : Hung t := by
  rcases hinv.host_cases hs with ⟨hborn, rfl⟩ | ⟨id, window, release, memory, -, hidle, hrunning, rfl⟩ |
    ⟨u, m, disconnecting, rfl, hrunning, -, hstopping, -, hdown⟩ | ⟨r, hhost, rfl⟩ | ⟨-, hhost⟩
  · exact of_detaches rfl
  · have hstopping := Inv.not_stopping hrunning
    refine of_detaches ?_
    rcases setOutputSurface_core hstopping id window release memory with hcore | ⟨slots, hcore⟩
    · have hhost : (s.setOutputSurface id window release memory).host = s.host := congrArg Core.host hcore
      rw [hhost, hidle]
      rfl
    · have hhost : (s.setOutputSurface id window release memory).host = .waiting (.surface id window release) true :=
        congrArg Core.host hcore
      rw [hhost]
      rfl
  · exact setSharedState (hstopping.trans (Inv.not_stopping hrunning)) hdown
  · exact h.await hhost
  · exact of_detaches (detaches_idle hhost)

theorem environmentStep (h : Hung s) (hs : s.environmentStep a = some t) : Hung t := by
  rcases environment_cases hs with ⟨r, hhost, rfl⟩ | ⟨-, rfl⟩ | ⟨hquiet, -⟩
  · intro hdetaches
    refine h ?_
    rw [hhost, detaches_waiting r true false]
    exact hdetaches
  · exact h
  · have hsame : t.host = s.host := congrArg Core.host hquiet.core
    have hpeer : t.peerFd = s.peerFd := congrArg Core.peerFd hquiet.core
    unfold Hung
    rw [hsame, hpeer]
    exact fun hdetaches => (h hdetaches).imp_left hquiet.down

theorem workerStep (h : Hung s) (hinv : Inv s) (hs : s.workerStep a = some t) : Hung t := by
  obtain ⟨hhost, hpeer⟩ := worker_waiting hinv hs
  intro hdetaches
  have hbefore : s.host.detaches = true := by
    rcases hhost with hhost | hhost
    · rw [← hhost]
      exact hdetaches
    · rw [← detaches_broadcast, ← hhost]
      exact hdetaches
  rw [hpeer]
  exact (h hbefore).imp_left (worker_down hinv hs)

theorem step (h : Hung s) (hinv : Inv s) (hs : RendererThread.step s a = some t) : Hung t := by
  rcases step_cases hs with hhost | henvironment | hworker
  · exact h.hostStep hinv hhost
  · exact h.environmentStep henvironment
  · exact h.workerStep hinv hworker

end Hung

/-- Nobody is forgotten, and who disconnects has shut the connection down. -/
theorem awake_of_reach {C : State → Action → Prop} {s : State} (h : Reach step C State.init s) :
    Awake s.core s.worker ∧ Hung s := by
  have hall : Inv s ∧ Awake s.core s.worker ∧ Hung s := by
    refine h.invariant (I := fun s => Inv s ∧ Awake s.core s.worker ∧ Hung s) ⟨Inv.init, ?_, ?_⟩ fun t a u ht _ hs => ?_
    · exact Awake.of_not_waiting (by simp [State.core, State.init])
    · exact Hung.of_detaches rfl
    · exact ⟨ht.1.step hs, ht.2.1.step ht.1 hs, ht.2.2.step ht.1 hs⟩
  exact hall.2

/-! ## How long the worker needs -/

/-- A bound for the steps that the worker takes until it takes `stateLock` for its next pass, or stops. -/
def State.work (s : State) : Nat :=
  match s.worker with
  | .absent | .asleep | .exited => 0
  | .released => 1
  | .releasing => 2
  | .testing => 3
  | .starting => 4
  | .retiring => 4 + s.removedBuffers
  | .drawing _ draws => 5 + s.removedBuffers + 5 * draws.length
  | .recording _ _ _ _ _ draws => 6 + s.removedBuffers + 5 * draws.length
  | .presenting _ _ _ _ draws => 7 + s.removedBuffers + 5 * draws.length
  | .painting _ _ draws => 8 + s.removedBuffers + 5 * draws.length
  | .lockingDraw _ _ draws => 9 + s.removedBuffers + 5 * draws.length
  | .snapshotting => 6 + s.removedBuffers + 5 * s.outputs.length
  | .copying => 7 + s.removedBuffers + 5 * s.outputs.length + s.mapped.copies
  | .lockingCopies => 8 + s.removedBuffers + 5 * s.outputs.length + s.mapped.copies
  | .draining => 9 + s.removedBuffers + 5 * s.outputs.length + s.mapped.copies

/-- A step that gets the worker on: a poll that finds the peer there does not. -/
def State.proceed (s : State) (a : Action) : Option State :=
  if a = .poll ∧ (s.down || s.peerFd.isNone) = false then none else s.workerStep a

/-- The worker waits for the pixel lock, which the X server holds, and the peer is there. -/
def State.blocked (s : State) : Bool :=
  (match s.worker with
    | .lockingCopies | .lockingDraw .. => true
    | _ => false) && s.mapped.locked ≠ 0 && !(s.down || s.peerFd.isNone)

theorem work_endDraws (s : State) (rendered : Bool) : (s.endDraws rendered).work = 4 + s.removedBuffers := by
  have hremoved : (s.endDraws rendered).removedBuffers = s.removedBuffers := by
    cases rendered
    · rfl
    · simp only [State.endDraws, if_true, State.note, State.change]
      split <;> rfl
  simp only [State.work, endDraws_worker, hremoved]

/-- The next copy is done. -/
theorem work_copied {s : State} (hworker : s.worker = .copying) (hcopies : ¬s.mapped.copies = 0) :
    (s.change fun h => { h with copies := h.copies - 1 }).work < s.work := by
  cases hstate : s.state with
  | none => simp [State.mapped, hstate] at hcopies
  | some m =>
    simp only [State.mapped, hstate, Option.map_some, Option.getD_some] at hcopies
    simp only [State.work, State.change, State.changeAt, State.mapped, hstate, hworker, Option.map_some, Option.getD_some,
      Function.update_self]
    omega

/-- Every step of a turn lowers the bound. -/
theorem turn_work {s t : State} {a : Action} (hs : s.proceed a = some t) (ha : a.turns = true) : t.work < s.work := by
  unfold State.proceed at hs
  split at hs
  · cases hs
  rename_i hpoll
  have hthere (hclosed : a = .poll) (hopen : (s.down || s.peerFd.isNone) = false) : False := hpoll ⟨hclosed, hopen⟩
  cases workerStep_spec hs with
  | start | pass | releaseGraphics | exit => cases ha
  | peerThere _ hopen | drawPeerThere _ hopen => exact (hthere rfl hopen).elim
  | drained hworker | lockFailed hworker | peerGone hworker | copiesDone _ _ hworker =>
    simp only [State.work, hworker, State.fail, State.note]
    omega
  | copies hworker | locked hworker => simp [State.work, hworker, State.note, State.mapped]
  | drawLockFailed hworker | drawPeerGone hworker | notAcquired hworker =>
    rw [work_endDraws]
    simp only [State.work, hworker, State.fail, State.note]
    omega
  | drawLocked hworker => simp [State.work, hworker, State.note]
  | copied moved hworker hcopies => exact work_copied hworker hcopies
  | copyMissing moved hworker | copyFailed moved hworker =>
    simp only [State.work, hworker, State.note, State.findBuffers, State.fail]
    omega
  | snapshot memory hworker =>
    have hdraws := List.length_filterMap_le Output.draw s.outputs
    unfold State.snapshot
    dsimp only
    split
    · simp only [State.work, hworker, State.note]
      omega
    · split <;> simp only [State.work, hworker, State.note] <;> omega
  | acquired hworker =>
    simp only [State.work, hworker, State.note, List.length_cons]
    omega
  | paint ok found moved hworker =>
    simp only [State.work, hworker, State.note, State.findBuffers]
    omega
  | present presented hworker =>
    simp only [State.work, hworker, State.note]
    omega
  | @record ok complete presented rendered d draws hworker =>
    cases ok
    · simp only [State.recordDraw, Bool.false_eq_true, if_false, work_endDraws]
      simp only [State.work, hworker, State.fail, State.note]
      omega
    · simp only [State.recordDraw, if_true, State.work, hworker, State.note]
      omega
  | endDraw hworker =>
    rw [work_endDraws]
    simp [State.work, hworker]
  | removed hworker hremoved =>
    simp only [State.work, hworker]
    omega
  | retired hworker =>
    simp only [State.work, hworker]
    omega

theorem workerStep_of_proceed {s t : State} {a : Action} (hs : s.proceed a = some t) : s.workerStep a = some t := by
  unfold State.proceed at hs
  split at hs
  · cases hs
  · exact hs

theorem step_of_worker {s t : State} {a : Action} (hs : s.workerStep a = some t) : step s a = some t := by
  cases a <;> first | exact hs | simp [State.workerStep] at hs

theorem broadcast_of_waiting {s : State} {r : Request} {b : Bool} (hhost : s.host = .waiting r b) :
    s.broadcast.host = .waiting r false := by
  simp [State.broadcast, hhost]

/-- **A step that gets the worker on answers the host, or lowers the bound.** -/
theorem proceed_answers {s t : State} {a : Action} {r : Request} (hinv : Inv s) (hawake : Awake s.core s.worker)
    (hhost : s.host = .waiting r true) (hs : s.proceed a = some t) :
    t.host = .waiting r false ∨ t.host = .waiting r true ∧ t.work < s.work := by
  have hsignalled := broadcast_of_waiting hhost
  have hworkerStep := workerStep_of_proceed hs
  rcases hinv.worker_cases hworkerStep with ⟨created, hworker, rfl⟩ | ⟨failing, hworker, rfl⟩ | ⟨hworker, rfl⟩ |
    ⟨hworker, rfl⟩ | ⟨ha, hturns⟩
  · cases created
    · exact .inr ⟨hhost, by simp [State.start, State.work, hworker]⟩
    · exact .inl ((started_waiting hinv hworker).1.trans hsignalled)
  · have hready := hinv.ready (by rw [hworker]; rfl)
    rcases hready.pass_cases failing with ⟨-, heq⟩ | ⟨-, hwait, -⟩ | ⟨-, -, n, heq⟩
    · rw [heq]
      exact .inr ⟨hhost, by simp [State.work, hworker]⟩
    · have hopen := hawake.opened r hhost
      rw [← unanswered_core, shouldWait_answered (hready.control.begun rfl) hwait r] at hopen
      cases hopen
    · exact .inl ((congrArg Core.host heq).trans hsignalled)
  · exact .inr ⟨hhost, by simp [State.releaseGraphics, State.note, State.work, hworker]⟩
  · exact .inl (broadcast_of_waiting hhost)
  · have hsame : t.host = s.host := congrArg Core.host hturns.quiet.core
    exact .inr ⟨hsame.trans hhost, turn_work hs ha⟩

/-- Only a poll is refused. -/
theorem proceed_of_ne (s : State) {a : Action} (ha : a ≠ .poll) : s.proceed a = s.workerStep a :=
  if_neg fun hpoll => ha hpoll.1

/-- The worker gets on, unless it is blocked. -/
theorem proceed_enabled {s : State} (hattends : s.worker.attends = true) (hblocked : s.blocked = false) :
    ∃ a, a ≠ .lock true ∧ (s.proceed a).isSome := by
  cases hworker : s.worker with
  | absent | asleep | exited => simp [hworker, Worker.attends] at hattends
  | starting => exact ⟨.start true, by simp, by simp [State.proceed, State.workerStep, hworker]⟩
  | testing => exact ⟨.pass [], by simp, by simp [State.proceed, State.workerStep, hworker]⟩
  | draining =>
    refine ⟨.drain, by simp, ?_⟩
    rw [proceed_of_ne s (by simp)]
    simp only [State.workerStep, hworker, if_true]
    split <;> rfl
  | lockingCopies =>
    cases hgone : s.down || s.peerFd.isNone
    · have hfree : (s.note s.useState).mapped.locked = 0 := by
        have hlocked : s.mapped.locked = 0 := by simpa [State.blocked, hworker, hgone] using hblocked
        exact hlocked
      exact ⟨.lock false, by simp, by simp [State.proceed, State.workerStep, hworker, hfree]⟩
    · exact ⟨.poll, by simp, by simp [State.proceed, State.workerStep, State.note, hworker, hgone]⟩
  | copying =>
    refine ⟨.copy .copied 0, by simp, ?_⟩
    rw [proceed_of_ne s (by simp)]
    simp only [State.workerStep, hworker, if_true]
    split <;> rfl
  | snapshotting => exact ⟨.snapshot true, by simp, by simp [State.proceed, State.workerStep, hworker]⟩
  | drawing rendered draws =>
    cases draws with
    | nil => exact ⟨.endDraw, by simp, by simp [State.proceed, State.workerStep, hworker]⟩
    | cons d draws => exact ⟨.acquire true, by simp, by simp [State.proceed, State.workerStep, hworker]⟩
  | lockingDraw rendered d draws =>
    cases hgone : s.down || s.peerFd.isNone
    · have hfree : (s.note s.useState).mapped.locked = 0 := by
        have hlocked : s.mapped.locked = 0 := by simpa [State.blocked, hworker, hgone] using hblocked
        exact hlocked
      exact ⟨.lock false, by simp, by simp [State.proceed, State.workerStep, hworker, hfree]⟩
    · exact ⟨.poll, by simp, by simp [State.proceed, State.workerStep, State.note, hworker, hgone]⟩
  | painting rendered d draws => exact ⟨.paint true true 0, by simp, by simp [State.proceed, State.workerStep, hworker]⟩
  | presenting ok complete rendered d draws =>
    exact ⟨.present true, by simp, by simp [State.proceed, State.workerStep, hworker]⟩
  | recording ok complete presented rendered d draws =>
    exact ⟨.record, by simp, by simp [State.proceed, State.workerStep, hworker]⟩
  | retiring =>
    refine ⟨.retire, by simp, ?_⟩
    rw [proceed_of_ne s (by simp)]
    simp only [State.workerStep, hworker, if_true]
    split <;> rfl
  | releasing => exact ⟨.releaseGraphics, by simp, by simp [State.proceed, State.workerStep, hworker]⟩
  | released => exact ⟨.exit, by simp, by simp [State.proceed, State.workerStep, hworker]⟩

/-- What the worker has answered stays answered. -/
theorem answered_stays {s t : State} {r : Request} {as : List Action} (hreach : Reach step Free State.init s)
    (hhost : s.host = .waiting r false) (hs : exec State.proceed s as = some t) : t.host = .waiting r false := by
  induction as generalizing s with
  | nil =>
    cases hs
    exact hhost
  | cons a as ih =>
    simp only [exec] at hs
    obtain ⟨u, hu, hrest⟩ := Option.bind_eq_some_iff.1 hs
    have hworker := workerStep_of_proceed hu
    refine ih (hreach.tail trivial (step_of_worker hworker)) ?_ hrest
    rcases (worker_waiting (inv_of_reach hreach) hworker).1 with hsame | hsame
    · exact hsame.trans hhost
    · exact hsame.trans (broadcast_of_waiting hhost)

/-- As long as the host sleeps, the worker lowers the bound. -/
theorem proceeds_work {s t : State} {r : Request} {as : List Action} (hreach : Reach step Free State.init s)
    (hhost : s.host = .waiting r true) (hs : exec State.proceed s as = some t) (ht : t.host = .waiting r true) :
    Reach step Free State.init t ∧ as.length + t.work ≤ s.work := by
  induction as generalizing s with
  | nil =>
    cases hs
    exact ⟨hreach, by simp⟩
  | cons a as ih =>
    simp only [exec] at hs
    obtain ⟨u, hu, hrest⟩ := Option.bind_eq_some_iff.1 hs
    have hnext : Reach step Free State.init u := hreach.tail trivial (step_of_worker (workerStep_of_proceed hu))
    rcases proceed_answers (inv_of_reach hreach) (awake_of_reach hreach).1 hhost hu with hanswered | ⟨hasleep, hless⟩
    · -- who is answered is not put to sleep by the worker
      rw [answered_stays hnext hanswered hrest] at ht
      cases ht
    · obtain ⟨hreached, hbound⟩ := ih hnext hasleep hrest
      refine ⟨hreached, ?_⟩
      simp only [List.length_cons]
      omega

/-- **A host's thread that sleeps is answered by the worker: the worker has at most `State.work` steps before it answers, and
it is stopped only by the pixel lock that the X server holds while the peer is there; `disconnect` is not stopped by that.** -/
theorem host_answered {s t : State} {r : Request} {as : List Action} (hreach : Reach step Free State.init s)
    (hhost : s.host = .waiting r true) (hs : exec State.proceed s as = some t) (ht : t.host = .waiting r true) :
    as.length ≤ s.work ∧ (t.blocked = true ∨ ∃ a, a ≠ .lock true ∧ (t.proceed a).isSome) ∧
      (r = .shared true → t.blocked = false) := by
  obtain ⟨hreached, hbound⟩ := proceeds_work hreach hhost hs ht
  obtain ⟨hawake, hhung⟩ := awake_of_reach hreached
  have hattends := hawake.attended r true ht (hawake.opened r ht)
  refine ⟨by omega, ?_, ?_⟩
  · cases hblocked : t.blocked
    · exact .inr (proceed_enabled hattends hblocked)
    · exact .inl rfl
  · rintro rfl
    have hgone : (t.down || t.peerFd.isNone) = true := by
      rcases hhung (by rw [ht]; rfl) with hdown | hpeer
      · simp [hdown]
      · simp [hpeer]
    simp [State.blocked, hgone]

/-- The host disconnects while the worker waits for the lock that the X server holds. -/
def lockedRun : List Action :=
  [.create true, .start true, .resume, .connect 5, .receiveState 0, .pass [], .resume, .schedule 0, .serverLock 0, .drain,
    .disconnect]

theorem host_answered_locked : ∃ s t, exec step State.init lockedRun = some s ∧ s.mapped.locked = 1 ∧
    exec State.proceed s [.poll, .snapshot true, .retire] = some t ∧ 3 ≤ s.work ∧ t.blocked = false := by
  have hrun : (exec step State.init lockedRun).any (fun s => s.host = .waiting (.shared true) true && s.mapped.locked = 1 &&
      (exec State.proceed s [.poll, .snapshot true, .retire]).any fun t => t.host = .waiting (.shared true) true) = true := by
    decide +kernel
  obtain ⟨s, hs, hstate⟩ := (Option.any_eq_true ..).1 hrun
  simp only [Bool.and_eq_true, decide_eq_true_eq] at hstate
  obtain ⟨⟨hhost, hlocked⟩, hproceed⟩ := hstate
  obtain ⟨t, ht, hwaits⟩ := (Option.any_eq_true ..).1 hproceed
  obtain ⟨hbound, -, hfree⟩ := host_answered (.of_exec lockedRun hs) hhost ht (of_decide_eq_true hwaits)
  exact ⟨s, t, hs, hlocked, ht, hbound, hfree rfl⟩

end Lorie.RendererThread
