import Lorie.RendererThread.Runs

/-!
# What is acknowledged

The host gives a frame of an output the number of a presentation, and is told once that it was presented, or not. `Record.step`
says what may happen to the records of outputs: a presentation is acknowledged for a record that is there, after a frame with
its number, and not twice in a row. Draws are made from a snapshot, so a draw may outlive the frame that it shows, but not the
record.

- `Ledger`: the history, the records, and the draws of the snapshot; `Ledger.workerStep`, `Ledger.hostStep`;
- `acknowledgements_exact`: the history of every run.
-/

namespace Lorie.RendererThread

open Lorie.Lib

/-- The record of an output, as the host sees it. -/
structure Shown where
  id : Nat
  framed : List Nat
  acknowledged : Nat

/-- A presentation is there to be acknowledged. -/
def Shown.awaits (id p : Nat) (o : Shown) : Bool := o.id = id && p ≠ 0 && p ∈ o.framed && o.acknowledged ≠ p

/-- What may happen to the records of outputs. -/
def Record.step (l : List Shown) : Record → Option (List Shown)
  | .created id => if l.any fun o => o.id = id then none else some (⟨id, [], 0⟩ :: l)
  | .framed id p =>
    if l.any fun o => o.id = id then
      some (l.map fun o => if o.id = id then { o with framed := p :: o.framed } else o)
    else none
  | .acknowledged id p _ =>
    if l.any (Shown.awaits id p) then some (l.map fun o => if o.id = id then { o with acknowledged := p } else o) else none
  | .removed id => if l.any fun o => o.id = id then some (l.eraseP fun o => o.id = id) else none

/-- What the host sees of a record. -/
def Output.shown (o : Output) : Nat × Nat × Nat := (o.id, o.presented, o.frame.presentation)

/-- The history accounts for a record. -/
def Shows (p : Shown) (q : Nat × Nat × Nat) : Prop :=
  p.id = q.1 ∧ p.acknowledged = q.2.1 ∧ (q.2.2 ≠ 0 → q.2.2 ∈ p.framed)

/-- A draw shows a record that is there, has a surface, and had the frame. -/
def Drawn (l : List Shown) (slots : List Slot) (d : Draw) : Prop :=
  (∃ o ∈ slots, o.id = d.id ∧ o.surface.isSome) ∧
    ∀ p ∈ l, p.id = d.id → d.frame.presentation ≠ 0 → d.frame.presentation ∈ p.framed

/-- **The history is accepted, and accounts for the records and the draws.** -/
structure Ledger (s : State) (l : List Shown) : Prop where
  accepted : exec Record.step [] s.records = some l
  shows : List.Forall₂ Shows l (s.outputs.map Output.shown)
  drawn : ∀ d ∈ s.worker.draws, Drawn l s.core.slots d

namespace Ledger

variable {s t : State} {a : Action} {l : List Shown}

theorem shows_ids {qs : List (Nat × Nat × Nat)} (h : List.Forall₂ Shows l qs) : l.map (·.id) = qs.map (·.1) := by
  induction h with
  | nil => rfl
  | cons hpq _ ih => simp [hpq.1, ih]

theorem ids (h : Ledger s l) : l.map (·.id) = s.outputs.map (·.id) := by
  rw [shows_ids h.shows]
  simp [Output.shown, Function.comp_def]

theorem any_id (h : Ledger s l) (id : Nat) : (l.any fun o => o.id = id) = s.outputs.any fun o => o.id = id := by
  have hleft : (l.any fun o => o.id = id) = (l.map (·.id)).any fun i => i = id := by simp [List.any_map, Function.comp_def]
  have hright : (s.outputs.any fun o => o.id = id) = (s.outputs.map (·.id)).any fun i => i = id := by
    simp [List.any_map, Function.comp_def]
  rw [hleft, hright, h.ids]

/-- One more thing happens. -/
theorem accept (h : Ledger s l) {r : Record} {l' : List Shown} (hstep : Record.step l r = some l') :
    exec Record.step [] (s.records ++ [r]) = some l' := by
  rw [exec_append h.accepted]
  simp [exec, hstep]

/-- Nothing that the host sees happens. -/
theorem keep (h : Ledger s l) (hrecords : t.records = s.records)
    (hshown : t.outputs.map Output.shown = s.outputs.map Output.shown)
    (hdrawn : ∀ d ∈ t.worker.draws, Drawn l t.core.slots d) : Ledger t l :=
  ⟨by rw [hrecords]; exact h.accepted, by rw [hshown]; exact h.shows, hdrawn⟩

end Ledger

/-! ## The worker -/

/-- A step in which no record is made, framed, acknowledged or removed. -/
structure Silent (s t : State) : Prop where
  records : t.records = s.records
  outputs : t.outputs.map Output.shown = s.outputs.map Output.shown

namespace Silent

variable {r s t : State}

theorem refl (s : State) : Silent s s := ⟨rfl, rfl⟩

theorem trans (h₁ : Silent r s) (h₂ : Silent s t) : Silent r t :=
  ⟨h₂.records.trans h₁.records, h₂.outputs.trans h₁.outputs⟩

theorem change (s : State) (g : Shared → Shared) : Silent s (s.change g) := by
  unfold State.change
  split <;> exact ⟨rfl, rfl⟩

theorem fail (s : State) : Silent s s.fail := ⟨rfl, rfl⟩

theorem endDraws (s : State) (rendered : Bool) : Silent s (s.endDraws rendered) := by
  cases rendered
  · exact ⟨rfl, rfl⟩
  · have hchange := change { s with worker := .retiring } fun h => { h with waitForNextFrame := true }
    exact ⟨hchange.records, hchange.outputs⟩

theorem broadcast (s : State) : Silent s s.broadcast := by
  unfold State.broadcast
  split <;> exact ⟨rfl, rfl⟩

theorem publishSurface (s : State) : Silent s s.publishSurface := by
  have hchange := change s fun h => { h with surfaceAvailable := hasOutputSurface s.outputs }
  exact ⟨hchange.records, hchange.outputs⟩

theorem takeState (s : State) : Silent s s.takeState := by
  have hdrop : Silent s s.dropState := by
    unfold State.dropState
    split
    · have hchange := change s fun h => { h with surfaceAvailable := false }
      exact ⟨hchange.records, hchange.outputs⟩
    · exact refl s
  unfold State.takeState
  split
  · refine trans ?_ (publishSurface _)
    exact ⟨hdrop.records, hdrop.outputs⟩
  · exact refl s

theorem shown_refresh (failing : List Nat) (n : Nat) (o : Output) : (o.refresh failing n).shown = o.shown := by
  unfold Output.refresh
  split <;> rfl

theorem refreshOutputs_shown (failing : List Nat) (n : Nat) (outputs : List Output) :
    (refreshOutputs failing n outputs).map Output.shown = outputs.map Output.shown := by
  induction outputs generalizing n with
  | nil => rfl
  | cons o os ih => simp [refreshOutputs, shown_refresh, ih]

theorem attachBuffers (s : State) : Silent s s.attachBuffers := by
  unfold State.attachBuffers
  split
  · refine ⟨rfl, ?_⟩
    simp only [State.note, List.map_map]
    exact List.map_congr_left fun o _ => rfl
  · exact refl s

theorem pass (s : State) (failing : List Nat) : Silent s (s.pass failing) := by
  unfold State.pass
  split
  · exact ⟨rfl, rfl⟩
  · split
    · exact ⟨rfl, rfl⟩
    · have hrefresh : Silent s.takeState (s.takeState.refreshOutputSurfaces failing) := by
        refine trans ?_ (publishSurface _)
        exact ⟨rfl, refreshOutputs_shown ..⟩
      have hall := ((takeState s).trans hrefresh).trans ((attachBuffers _).trans (broadcast _))
      exact ⟨hall.records, hall.outputs⟩

end Silent

/-- The steps of the worker in which nothing is recorded. -/
theorem worker_silent {s t : State} {a : Action} (hs : s.workerStep a = some t) (ha : a ≠ .record) : Silent s t := by
  have hfail (as : List (Access Resource)) (rendered : Bool) : Silent s ((s.note as).fail.endDraws rendered) := by
    have hnote : Silent s (s.note as) := ⟨rfl, rfl⟩
    exact (hnote.trans (Silent.fail _)).trans (Silent.endDraws _ rendered)
  cases workerStep_spec hs with
  | record => exact absurd rfl ha
  | start created =>
    cases created
    · exact ⟨rfl, rfl⟩
    · have hbroadcast :=
        Silent.broadcast (State.note { s with graphicsDevice := true, initialized := true } [.acquire .device])
      have hall := hbroadcast.trans (Silent.pass _ [])
      exact ⟨hall.records, hall.outputs⟩
  | pass failing => exact Silent.pass s failing
  | drawLockFailed | drawPeerGone | notAcquired => exact hfail _ _
  | copied moved =>
    have hchange := Silent.change ((s.note s.useState).findBuffers moved) fun h => { h with copies := h.copies - 1 }
    exact ⟨hchange.records, hchange.outputs⟩
  | snapshot memory =>
    unfold State.snapshot
    dsimp only
    split
    · exact ⟨rfl, rfl⟩
    · split <;> exact ⟨rfl, rfl⟩
  | endDraw => exact Silent.endDraws s _
  | releaseGraphics =>
    refine ⟨rfl, ?_⟩
    simp only [State.releaseGraphics, State.note, List.map_map]
    exact List.map_congr_left fun o _ => rfl
  | exit =>
    have hbroadcast := Silent.broadcast { s with stopping := true, worker := .exited }
    exact ⟨hbroadcast.records, hbroadcast.outputs⟩
  | drained | copies | lockFailed | locked | drawLocked | peerGone | peerThere | drawPeerThere | copiesDone | copyMissing |
    copyFailed | acquired | paint | present | removed | retired => exact ⟨rfl, rfl⟩

theorem pass_draws {s : State} (hready : Ready s) (failing : List Nat) : (s.pass failing).worker.draws = [] := by
  rcases hready.pass_cases failing with ⟨-, heq⟩ | ⟨-, -, heq⟩ | ⟨-, hworker, -⟩
  · rw [heq]
    rfl
  · rw [heq]
    rfl
  · rcases hworker with hworker | hworker <;> rw [hworker] <;> rfl

/-- The worker has no draws, or draws of before and of the snapshot. -/
theorem worker_draws {s t : State} {a : Action} (hinv : Inv s) (hs : s.workerStep a = some t) :
    t.worker.draws = [] ∨ t.core.slots = s.core.slots ∧
      ∀ d ∈ t.worker.draws, d ∈ s.worker.draws ∨ ∃ o ∈ s.outputs, o.draw = some d := by
  rcases hinv.worker_cases hs with ⟨created, hworker, rfl⟩ | ⟨failing, hworker, rfl⟩ | ⟨hworker, rfl⟩ | ⟨hworker, rfl⟩ |
    ⟨-, hturns⟩
  · cases created
    · exact .inl rfl
    · exact .inl (pass_draws (hinv.started hworker) [])
  · exact .inl (pass_draws (hinv.ready (by rw [hworker]; rfl)) failing)
  · exact .inl rfl
  · left
    unfold State.broadcast
    split <;> rfl
  · exact .inr ⟨congrArg Core.slots hturns.quiet.core, hturns.draws⟩

/-! ## Pairs of the history and the records -/

section Pairs

variable {l : List Shown} {qs : List (Nat × Nat × Nat)}

theorem shows_left (h : List.Forall₂ Shows l qs) {p : Shown} (hp : p ∈ l) : ∃ q ∈ qs, Shows p q := by
  induction h with
  | nil => cases hp
  | cons hpq _ ih =>
    rcases List.mem_cons.1 hp with rfl | hp
    · exact ⟨_, List.mem_cons_self, hpq⟩
    · obtain ⟨q, hq, hshows⟩ := ih hp
      exact ⟨q, List.mem_cons_of_mem _ hq, hshows⟩

theorem shows_right (h : List.Forall₂ Shows l qs) {q : Nat × Nat × Nat} (hq : q ∈ qs) : ∃ p ∈ l, Shows p q := by
  induction h with
  | nil => cases hq
  | cons hpq _ ih =>
    rcases List.mem_cons.1 hq with rfl | hq
    · exact ⟨_, List.mem_cons_self, hpq⟩
    · obtain ⟨p, hp, hshows⟩ := ih hq
      exact ⟨p, List.mem_cons_of_mem _ hp, hshows⟩

/-- The last acknowledged presentations are those of the records. -/
theorem shows_last (h : List.Forall₂ Shows l qs) :
    l.map (fun o => (o.id, o.acknowledged)) = qs.map fun q => (q.1, q.2.1) := by
  induction h with
  | nil => rfl
  | cons hpq _ ih => simp [hpq.1, hpq.2.1, ih]

/-- Both sides change alike. -/
theorem shows_map (h : List.Forall₂ Shows l qs) {f : Shown → Shown} {g : Nat × Nat × Nat → Nat × Nat × Nat}
    (hfg : ∀ p ∈ l, ∀ q ∈ qs, Shows p q → Shows (f p) (g q)) : List.Forall₂ Shows (l.map f) (qs.map g) := by
  induction h with
  | nil => exact .nil
  | cons hpq _ ih =>
    refine .cons (hfg _ List.mem_cons_self _ List.mem_cons_self hpq) (ih fun p hp q hq => ?_)
    exact hfg p (List.mem_cons_of_mem _ hp) q (List.mem_cons_of_mem _ hq)

/-- A record is removed from both sides. -/
theorem shows_erase (h : List.Forall₂ Shows l qs) (id : Nat) :
    List.Forall₂ Shows (l.eraseP fun o => o.id = id) (qs.eraseP fun q => q.1 = id) := by
  induction h with
  | nil => exact .nil
  | @cons p q l qs hpq hrest ih =>
    by_cases hid : p.id = id
    · have hid' : q.1 = id := hpq.1.symm.trans hid
      simpa [List.eraseP_cons, hid, hid'] using hrest
    · have hid' : ¬q.1 = id := fun heq => hid (hpq.1.trans heq)
      simpa [List.eraseP_cons, hid, hid'] using List.Forall₂.cons hpq ih

end Pairs

namespace Ledger

variable {s t : State} {a : Action} {l : List Shown}

/-- The record with an id is one. -/
theorem same_record (hinv : Inv s) {o o' : Output} (ho : o ∈ s.outputs) (ho' : o' ∈ s.outputs) (hid : o.id = o'.id) :
    o = o' := by
  have hids := hinv.control.ids
  have hmap : s.core.slots.map (·.id) = s.outputs.map (·.id) := by simp [State.core, Output.slot, Function.comp_def]
  rw [hmap] at hids
  exact List.inj_on_of_nodup_map hids ho ho' hid

/-- A draw of the snapshot -/
theorem drawn_snapshot (h : Ledger s l) (hinv : Inv s) {o : Output} {d : Draw} (ho : o ∈ s.outputs) (hd : o.draw = some d) :
    Drawn l s.core.slots d := by
  obtain ⟨f, hf, rfl⟩ := draw_some hd
  refine ⟨⟨o.slot, List.mem_map_of_mem ho, rfl, by simp [Output.slot, hf]⟩, fun p hp hid hpresentation => ?_⟩
  obtain ⟨q, hq, hshows⟩ := shows_left h.shows hp
  obtain ⟨o', ho', rfl⟩ := List.mem_map.1 hq
  obtain rfl : o' = o := same_record hinv ho' ho (hshows.1.symm.trans hid)
  exact hshows.2.2 hpresentation

/-- The history acknowledges a presentation. -/
def acknowledge (id p : Nat) (o : Shown) : Shown := if o.id = id then { o with acknowledged := p } else o

/-- A draw is recorded in the record of its output. -/
def drewShown (d : Draw) (complete : Bool) (q : Nat × Nat × Nat) : Nat × Nat × Nat :=
  if q.1 = d.id then
    (q.1, if d.frame.presentation ≠ 0 && complete && q.2.1 ≠ d.frame.presentation then d.frame.presentation else q.2.1, q.2.2)
  else q

theorem drew_shown (d : Draw) (complete : Bool) (outputs : List Output) :
    (update d.id (·.drew d complete) outputs).map Output.shown = (outputs.map Output.shown).map (drewShown d complete) := by
  simp only [update, List.map_map]
  refine List.map_congr_left fun o _ => ?_
  by_cases hid : o.id = d.id <;> simp [hid, drewShown, Output.shown, Output.drew, Output.acknowledges]

/-- What the history says after a draw is recorded. -/
theorem recorded (h : Ledger s l) (complete presented : Bool) {d : Draw} (hdrawn : Drawn l s.core.slots d) :
    ∃ l', exec Record.step [] (s.records ++ if s.outputs.any fun o => o.id = d.id && o.acknowledges d complete then
        [Record.acknowledged d.id d.frame.presentation presented] else []) = some l' ∧
      List.Forall₂ Shows l' ((update d.id (·.drew d complete) s.outputs).map Output.shown) ∧
      ∀ e, Drawn l s.core.slots e → Drawn l' s.core.slots e := by
  rw [drew_shown]
  cases hany : s.outputs.any fun o => o.id = d.id && o.acknowledges d complete
  · refine ⟨l, by simpa using h.accepted, ?_, fun e he => he⟩
    have hsame : (s.outputs.map Output.shown).map (drewShown d complete) = s.outputs.map Output.shown := by
      rw [List.map_map]
      refine List.map_congr_left fun o ho => ?_
      have hnot := List.any_eq_false.1 hany o ho
      by_cases hid : o.id = d.id
      · have hquiet : ¬o.acknowledges d complete = true := by simpa [hid] using hnot
        unfold Output.acknowledges at hquiet
        simp only [Function.comp_apply, drewShown, Output.shown, hid, if_true]
        rw [if_neg hquiet]
      · simp [drewShown, Output.shown, hid]
    rw [hsame]
    exact h.shows
  · obtain ⟨o, ho, hack⟩ := List.any_eq_true.1 hany
    simp only [Bool.and_eq_true, decide_eq_true_eq, Output.acknowledges, ne_eq] at hack
    obtain ⟨hid, ⟨hpresentation, hcomplete⟩, hnew⟩ := hack
    obtain ⟨p, hp, hshows⟩ := shows_right h.shows (List.mem_map_of_mem ho)
    have hpid : p.id = d.id := hshows.1.trans hid
    have hframed := hdrawn.2 p hp hpid (by simpa using hpresentation)
    have hawaits : (l.any (Shown.awaits d.id d.frame.presentation)) = true := by
      refine List.any_eq_true.2 ⟨p, hp, ?_⟩
      have hlast : p.acknowledged = o.presented := hshows.2.1
      simp only [Shown.awaits, hpid, hlast, Bool.and_eq_true, decide_eq_true_eq, ne_eq]
      exact ⟨⟨⟨trivial, by simpa using hpresentation⟩, hframed⟩, by simpa using hnew⟩
    refine ⟨l.map (acknowledge d.id d.frame.presentation), ?_, ?_, ?_⟩
    · refine h.accept ?_
      simp only [Record.step, hawaits, if_true]
      rfl
    · refine shows_map h.shows fun p _ q _ hpq => ?_
      obtain ⟨hpqid, hlast, hkept⟩ := hpq
      by_cases hqid : q.1 = d.id
      · have hpid' : p.id = d.id := hpqid.trans hqid
        simp only [acknowledge, hpid', if_true, drewShown, hqid]
        refine ⟨rfl, ?_, hkept⟩
        by_cases hsame : q.2.1 = d.frame.presentation <;> simp [hsame, hcomplete, hpresentation]
      · have hpid' : ¬p.id = d.id := fun heq => hqid (hpqid.symm.trans heq)
        simp only [acknowledge, hpid', if_false, drewShown, hqid]
        exact ⟨hpqid, hlast, hkept⟩
    · refine fun e he => ⟨he.1, fun p' hp' hid' hpresentation' => ?_⟩
      obtain ⟨p, hp, rfl⟩ := List.mem_map.1 hp'
      have hframes : (acknowledge d.id d.frame.presentation p).framed = p.framed := by
        unfold acknowledge
        split <;> rfl
      have hsameid : (acknowledge d.id d.frame.presentation p).id = p.id := by
        unfold acknowledge
        split <;> rfl
      rw [hframes]
      exact he.2 p hp (hsameid.symm.trans hid') hpresentation'

/-- A draw is recorded, and acknowledged if it is to be. -/
theorem recordDraw (h : Ledger s l) {ok complete presented rendered : Bool} {d : Draw} {draws : List Draw}
    (hworker : s.worker = .recording ok complete presented rendered d draws) :
    ∃ l', Ledger (s.recordDraw ok complete presented rendered d draws) l' := by
  have hdraws (e : Draw) (he : e ∈ d :: draws) : Drawn l s.core.slots e := h.drawn e (by rw [hworker]; exact he)
  obtain ⟨l', haccepted, hshows, hkept⟩ := h.recorded complete presented (hdraws d List.mem_cons_self)
  refine ⟨l', ?_⟩
  cases ok
  · have hend := Silent.endDraws (State.fail { s with
      outputs := update d.id (·.drew d complete) s.outputs
      records := s.records ++ if s.outputs.any fun o => o.id = d.id && o.acknowledges d complete then
        [Record.acknowledged d.id d.frame.presentation presented] else [] }) rendered
    refine ⟨?_, ?_, ?_⟩
    · exact (congrArg _ hend.records).trans haccepted
    · exact hend.outputs.symm ▸ hshows
    · intro e he
      have hnone : (s.recordDraw false complete presented rendered d draws).worker = .retiring := endDraws_worker _ _
      simp [hnone, Worker.draws] at he
  · refine ⟨haccepted, hshows, fun e he => ?_⟩
    have hslots : (s.recordDraw true complete presented rendered d draws).core.slots = s.core.slots :=
      slots_update (g := (·.drew d complete)) (fun _ => rfl) d.id s.outputs
    rw [hslots]
    exact hkept e (hdraws e (List.mem_cons_of_mem _ he))

theorem workerStep (h : Ledger s l) (hinv : Inv s) (hs : s.workerStep a = some t) : ∃ l', Ledger t l' := by
  by_cases ha : a = .record
  · subst ha
    cases workerStep_spec hs with
    | record hworker => exact h.recordDraw hworker
  · have hsilent := worker_silent hs ha
    refine ⟨l, h.keep hsilent.records hsilent.outputs fun d hd => ?_⟩
    rcases worker_draws hinv hs with hnone | ⟨hslots, hdraws⟩
    · simp [hnone] at hd
    · rw [hslots]
      rcases hdraws d hd with hd | ⟨o, ho, hod⟩
      · exact h.drawn d hd
      · exact h.drawn_snapshot hinv ho hod

/-! The host's thread -/

/-- Something that the host does and that is not in the history. -/
theorem quiet_host (h : Ledger s l) (hsilent : Silent s t) (hdraws : ∀ d ∈ t.worker.draws, d ∈ s.worker.draws)
    (hslots : ∀ o ∈ s.core.slots, ∃ o' ∈ t.core.slots, o'.id = o.id ∧ o'.surface = o.surface) : Ledger t l := by
  refine h.keep hsilent.records hsilent.outputs fun d hd => ?_
  obtain ⟨⟨o, ho, hid, hsome⟩, hframed⟩ := h.drawn d (hdraws d hd)
  obtain ⟨o', ho', hid', hsurface⟩ := hslots o ho
  exact ⟨⟨o', ho', hid'.trans hid, by rw [hsurface]; exact hsome⟩, hframed⟩

theorem signal (h : Ledger s l) : Ledger s.signal l := by
  have hsilent : Silent s s.signal := by
    unfold State.signal
    split <;> exact ⟨rfl, rfl⟩
  refine h.quiet_host hsilent (fun d hd => ?_) fun o ho => ⟨o, ?_, rfl, rfl⟩
  · rwa [draws_signal] at hd
  · rwa [core_signal]

/-- A request is made. -/
theorem asked (h : Ledger s l) {r : Request} (hopen : s.unanswered r = true) : Ledger (s.signal.await r) l := by
  rw [await_asleep (by rw [unanswered_signal]; exact hopen)]
  have hsignalled := h.signal
  exact ⟨hsignalled.accepted, hsignalled.shows, hsignalled.drawn⟩

/-- A record is made. -/
theorem created (h : Ledger s l) {id : Nat} (hid : (s.outputs.any fun o => o.id = id) = false) (window : Option Nat)
    (release : Bool) : Ledger { s with
      outputs := (Output.new id).request window release :: s.outputs
      records := s.records ++ [Record.created id] } (⟨id, [], 0⟩ :: l) := by
  have hfresh := h.any_id id
  rw [hid] at hfresh
  refine ⟨h.accept (by simp [Record.step, hfresh]), ?_, fun d hd => ?_⟩
  · exact .cons ⟨rfl, rfl, by simp [Output.shown, Output.request, Output.new]⟩ h.shows
  · obtain ⟨⟨o, ho, hod, hsome⟩, hframed⟩ := h.drawn d hd
    refine ⟨⟨o, List.mem_cons_of_mem _ ho, hod, hsome⟩, fun p hp hpd hpresentation => ?_⟩
    rcases List.mem_cons.1 hp with rfl | hp
    · -- the draw is of another record
      obtain ⟨o', ho', rfl⟩ := List.mem_map.1 ho
      have hother := List.any_eq_false.1 hid o' ho'
      have hsame : o'.id = id := hod.trans hpd.symm
      simp [hsame] at hother
    · exact hframed p hp hpd hpresentation

theorem setOutputSurface (h : Ledger s l) (hstopping : s.stopping = false) (id : Nat) (window : Option Nat)
    (release memory : Bool) : ∃ l', Ledger (s.setOutputSurface id window release memory) l' := by
  unfold State.setOutputSurface
  dsimp only [State.note]
  split
  · rename_i hany
    refine ⟨l, asked ?_ (unanswered_update hstopping hany window release)⟩
    refine h.quiet_host ⟨rfl, ?_⟩ (fun d hd => hd) fun o ho => ?_
    · simp only [update, List.map_map]
      refine List.map_congr_left fun o _ => ?_
      simp only [Function.comp_apply]
      split <;> rfl
    · refine ⟨if o.id = id then o.request window else o, ?_, ?_, ?_⟩
      · simp only [State.core, slots_request]
        exact List.mem_map.2 ⟨o, ho, rfl⟩
      · split <;> rfl
      · split <;> rfl
  · rename_i hany
    split
    · exact ⟨l, h.accepted, h.shows, h.drawn⟩
    · have hfresh : (s.outputs.any fun o => o.id = id) = false := by simpa using hany
      have hcreated := h.created hfresh window release
      refine ⟨⟨id, [], 0⟩ :: l, asked ?_ (unanswered_new hstopping id window release)⟩
      exact ⟨hcreated.accepted, hcreated.shows, hcreated.drawn⟩

/-- The history frames a record. -/
def frame (id p : Nat) (o : Shown) : Shown := if o.id = id then { o with framed := p :: o.framed } else o

/-- A frame is set. -/
theorem committed (h : Ledger s l) (id : Nat) (f : Frame) : ∃ l', Ledger { s with
    outputs := update id (·.commit f) s.outputs
    records := s.records ++ if s.outputs.any fun o => o.id = id then [Record.framed id f.presentation] else [] } l' := by
  have hslots : (update id (·.commit f) s.outputs).map Output.slot = s.outputs.map Output.slot :=
    slots_update (g := (·.commit f)) (fun _ => rfl) id s.outputs
  cases hany : s.outputs.any fun o => o.id = id
  · have hsame : update id (·.commit f) s.outputs = s.outputs := by
      conv_rhs => rw [← List.map_id s.outputs]
      refine List.map_congr_left fun o ho => ?_
      have hother := List.any_eq_false.1 hany o ho
      exact if_neg (by simpa using hother)
    rw [hsame]
    refine ⟨l, by simpa using h.accepted, h.shows, h.drawn⟩
  · have hthere := h.any_id id
    rw [hany] at hthere
    have hshown : (update id (·.commit f) s.outputs).map Output.shown =
        (s.outputs.map Output.shown).map fun q => if q.1 = id then (q.1, q.2.1, f.presentation) else q := by
      simp only [update, List.map_map]
      refine List.map_congr_left fun o _ => ?_
      by_cases hid : o.id = id <;> simp [hid, Output.shown, Output.commit]
    refine ⟨l.map (frame id f.presentation), h.accept ?_, ?_, fun d hd => ?_⟩
    · simp only [Record.step, hthere, if_true]
      rfl
    · simp only [hshown]
      refine shows_map h.shows fun p _ q _ hpq => ?_
      obtain ⟨hpqid, hlast, hkept⟩ := hpq
      by_cases hqid : q.1 = id
      · have hpid : p.id = id := hpqid.trans hqid
        simp only [frame, hpid, if_true, hqid]
        exact ⟨rfl, hlast, fun _ => List.mem_cons_self⟩
      · have hpid : ¬p.id = id := fun heq => hqid (hpqid.symm.trans heq)
        simp only [frame, hpid, if_false, hqid]
        exact ⟨hpqid, hlast, hkept⟩
    · obtain ⟨hslot, hframed⟩ := h.drawn d hd
      refine ⟨?_, fun p' hp' hid' hpresentation => ?_⟩
      · have hcore : ∀ records, (State.core { s with
            outputs := update id (·.commit f) s.outputs
            records := records }).slots = s.core.slots := fun _ => hslots
        rw [hcore]
        exact hslot
      · obtain ⟨p, hp, rfl⟩ := List.mem_map.1 hp'
        unfold frame at hid' ⊢
        split
        · rename_i hpid
          rw [if_pos hpid] at hid'
          exact List.mem_cons_of_mem _ (hframed p hp hid' hpresentation)
        · rename_i hpid
          rw [if_neg hpid] at hid'
          exact hframed p hp hid' hpresentation

/-- A record that was released is freed; no draw shows it any more. -/
theorem finishSurface (h : Ledger s l) (hinv : Inv s) (hcareful : Careful s.core) {id : Nat} {window : Option Nat}
    {release asleep : Bool} (hhost : s.host = .waiting (.surface id window release) asleep)
    (hanswered : s.unanswered (.surface id window release) = false) :
    ∃ l', Ledger (s.finishSurface id window release) l' := by
  unfold State.finishSurface
  dsimp only
  split
  · rename_i hrelease
    split
    · rename_i o hfind
      subst hrelease
      have ho := List.mem_of_find?_eq_some hfind
      have hid : o.id = id := by simpa using List.find?_some hfind
      have hwindow : window = none := by
        have hwindowless := hcareful.windowless
        have hhost' : s.core.host = .waiting (.surface id window true) asleep := hhost
        rw [hhost'] at hwindowless
        cases window with
        | none => rfl
        | some w => cases hwindowless
      subst hwindow
      have hnothing : ∀ o' ∈ s.core.slots, o'.id = id → o'.surface = none := by
        intro o' ho' hid'
        have hresources := Careful.released hinv hhost hanswered ho' hid'
        cases hsurface : o'.surface with
        | none => rfl
        | some f => simp [Slot.resources, hsurface] at hresources
      have hthere : (l.any fun o => o.id = id) = true := by
        rw [h.any_id]
        exact List.any_eq_true.2 ⟨o, ho, decide_eq_true hid⟩
      refine ⟨l.eraseP fun o => o.id = id, h.accept ?_, ?_, fun d hd => ?_⟩
      · simp only [Record.step, hthere, if_true]
      · have herased := shows_erase h.shows id
        have hmap : (s.outputs.eraseP fun o => o.id = id).map Output.shown =
            (s.outputs.map Output.shown).eraseP fun q => q.1 = id := by
          rw [List.eraseP_map]
          rfl
        simp only [hmap]
        exact herased
      · obtain ⟨⟨o', ho', hod, hsome⟩, hframed⟩ := h.drawn d hd
        refine ⟨⟨o', ?_, hod, hsome⟩, fun p hp => hframed p (List.mem_of_mem_eraseP hp)⟩
        obtain ⟨u, hu, rfl⟩ := List.mem_map.1 ho'
        have hother : ¬u.id = id := by
          intro heq
          have hsurface := hnothing u.slot ho' heq
          simp [hsurface] at hsome
        exact List.mem_map.2 ⟨u, (List.mem_eraseP_of_neg (by simpa using hother)).2 hu, rfl⟩
    · exact ⟨l, h.accepted, h.shows, h.drawn⟩
  · exact ⟨l, h.accepted, h.shows, h.drawn⟩

theorem await (h : Ledger s l) (hinv : Inv s) (hcareful : Careful s.core) {r : Request} {asleep : Bool}
    (hhost : s.host = .waiting r asleep) : ∃ l', Ledger (s.await r) l' := by
  unfold State.await
  split
  · exact ⟨l, h.accepted, h.shows, h.drawn⟩
  · rename_i hopen
    have hanswered : s.unanswered r = false := by simpa using hopen
    cases r with
    | init => exact ⟨l, h.accepted, h.shows, h.drawn⟩
    | surface id window release => exact h.finishSurface hinv hcareful hhost hanswered
    | shared disconnecting => cases disconnecting <;> exact ⟨l, h.accepted, h.shows, h.drawn⟩

/-- A step in which the host changes nothing that is in the history. -/
theorem beside (h : Ledger s l) (hrecords : t.records = s.records)
    (hshown : t.outputs.map Output.shown = s.outputs.map Output.shown) (hslots : t.core.slots = s.core.slots)
    (hworker : t.worker = s.worker) : Ledger t l := by
  refine h.quiet_host ⟨hrecords, hshown⟩ (fun d hd => ?_) fun o ho => ⟨o, ?_, rfl, rfl⟩
  · rwa [hworker] at hd
  · rwa [hslots]

theorem setSharedState (h : Ledger s l) (hstopping : s.stopping = false) (m : Option Mapping) (disconnecting : Bool) :
    Ledger (s.setSharedState m disconnecting) l := by
  unfold State.setSharedState
  refine asked ?_ ?_
  · exact h.beside rfl rfl rfl rfl
  · simp [State.unanswered, hstopping]

theorem shown_addLayer (o : Output) : o.addLayer.shown = o.shown := by
  unfold Output.addLayer
  split <;> rfl

theorem hostStep (h : Ledger s l) (hinv : Inv s) (hcareful : Careful s.core) (hs : s.hostStep a = some t) :
    ∃ l', Ledger t l' := by
  cases hostStep_spec hs with
  | created => exact ⟨l, h.accepted, h.shows, by simp [Worker.draws]⟩
  | surface id window release memory hcalls =>
    exact h.setOutputSurface (Inv.not_stopping (hinv.calls hcalls).2.2) id window release memory
  | destroySurface id memory hidle hid => exact h.setOutputSurface (Inv.not_stopping (hinv.record_runs hid)) id none true memory
  | layer id =>
    have hshown : (update id (·.addLayer) s.outputs).map Output.shown = s.outputs.map Output.shown := by
      simp only [update, List.map_map]
      refine List.map_congr_left fun o _ => ?_
      simp only [Function.comp_apply]
      split
      · exact shown_addLayer o
      · rfl
    have hlayered : Ledger { s with outputs := update id (·.addLayer) s.outputs } l :=
      h.beside rfl hshown (slots_update slot_addLayer id s.outputs) rfl
    exact ⟨l, hlayered.signal⟩
  | frame id f =>
    obtain ⟨l', hcommitted⟩ := h.committed id f
    exact ⟨l', hcommitted.signal⟩
  | addBuffer =>
    have hadded : Ledger { s with addedBuffers := s.addedBuffers + 1 } l := h.beside rfl rfl rfl rfl
    exact ⟨l, hadded.signal⟩
  | removeAttached =>
    have hremoved : Ledger { s with buffers := s.buffers - 1, removedBuffers := s.removedBuffers + 1 } l :=
      h.beside rfl rfl rfl rfl
    exact ⟨l, hremoved.signal⟩
  | removeAdded =>
    have hremoved : Ledger { s with addedBuffers := s.addedBuffers - 1 } l := h.beside rfl rfl rfl rfl
    exact ⟨l, hremoved.signal⟩
  | removeNone => exact ⟨l, h.signal⟩
  | receiveState region hcalls | disconnect hcalls | leave hcalls =>
    have hstopping := Inv.not_stopping (hinv.calls hcalls).2.2
    refine ⟨l, Ledger.setSharedState ?_ ?_ _ _⟩
    · exact h.beside rfl rfl rfl rfl
    · exact hstopping
  | destroy =>
    have hstopped : Ledger { s with stopping := true, host := .joining } l := h.beside rfl rfl rfl rfl
    exact ⟨l, hstopped.signal⟩
  | resume r hhost => exact h.await hinv hcareful hhost
  | notCreated | noSurface | connect | join => exact ⟨l, h.beside rfl rfl rfl rfl⟩

theorem environmentStep (h : Ledger s l) (hs : s.environmentStep a = some t) : Ledger t l := by
  cases a with
  | wakeHost =>
    simp only [State.environmentStep] at hs
    split at hs
    · cases hs
      exact h.beside rfl rfl rfl rfl
    · cases hs
  | wakeWorker =>
    simp only [State.environmentStep] at hs
    split at hs
    · cases hs
      exact ⟨h.accepted, h.shows, by simp [Worker.draws]⟩
    · cases hs
  | hangup | serverLock region | serverUnlock region =>
    simp only [State.environmentStep] at hs
    split at hs
    · cases hs
      exact h.beside rfl rfl rfl rfl
    · cases hs
  | schedule region | redraw region =>
    cases hs
    exact h.beside rfl rfl rfl rfl
  | _ => simp [State.environmentStep] at hs

theorem step (h : Ledger s l) (hinv : Inv s) (hcareful : Careful s.core) (hs : RendererThread.step s a = some t) :
    ∃ l', Ledger t l' := by
  rcases step_cases hs with hhost | henvironment | hworker
  · exact h.hostStep hinv hcareful hhost
  · exact ⟨l, h.environmentStep henvironment⟩
  · exact h.workerStep hinv hworker

end Ledger

/-! ## Every run -/

/-- **The history of every run in which records are released without a window: a presentation is acknowledged only for a record
that is there and that had a frame with its number, and not twice in a row; the record knows which one was the last.** -/
theorem acknowledgements_exact {s : State} (h : Reach step Windowless State.init s) :
    ∃ l, exec Record.step [] s.records = some l ∧
      l.map (fun o => (o.id, o.acknowledged)) = s.outputs.map fun o => (o.id, o.presented) := by
  have hall : Inv s ∧ Careful s.core ∧ ∃ l, Ledger s l := by
    refine h.invariant (I := fun s => Inv s ∧ Careful s.core ∧ ∃ l, Ledger s l) ⟨Inv.init, ⟨rfl, rfl⟩, [], ?_⟩
      fun t a u ht hc hs => ?_
    · exact ⟨rfl, .nil, by simp [State.init, Worker.draws]⟩
    · obtain ⟨hinv, hcareful, l, hledger⟩ := ht
      exact ⟨hinv.step hs, hcareful.step hinv hc hs, hledger.step hinv hcareful hs⟩
  obtain ⟨-, -, l, hledger⟩ := hall
  refine ⟨l, hledger.accepted, ?_⟩
  have hshows := hledger.shows
  have hmap : (s.outputs.map fun o => (o.id, o.presented)) = (s.outputs.map Output.shown).map fun q => (q.1, q.2.1) := by
    simp [Output.shown, Function.comp_def]
  rw [hmap]
  exact shows_last hshows

theorem acknowledgements_exact_whole : ∃ s l, exec step State.init wholeRun = some s ∧
    s.records = [.created 1, .framed 1 9, .acknowledged 1 9 true, .removed 1] ∧ exec Record.step [] s.records = some l := by
  have hrun : (exec step State.init wholeRun).any (fun s =>
      s.records = [.created 1, .framed 1 9, .acknowledged 1 9 true, .removed 1]) = true := by
    decide +kernel
  obtain ⟨s, hs, hrecords⟩ := (Option.any_eq_true ..).1 hrun
  have hwindowless : ∀ a ∈ wholeRun, a.windowless = true := by decide
  obtain ⟨l, haccepted, -⟩ := acknowledgements_exact (.of_exec_all (fun a ha _ => hwindowless a ha) hs)
  exact ⟨s, l, hs, of_decide_eq_true hrecords, haccepted⟩

end Lorie.RendererThread
