import Lorie.Outputs.Step

/-!
# The picture of a drawn revision

The worker takes a frame for drawn when the revision that it recorded for the output is the frame's. Revisions count the
frames of a selection of the X server; the record of the renderer outlives the selection.

- `Inv`: a recorded revision stands for the picture on the surface (`step_inv`), when no frame comes with a revision that
  is recorded or being drawn for its output (`Fresh`);
- `drawn_current`: no outdated picture is considered current. A second selection of the same output reuses the
  revisions (`drawn_outdated`).
-/

namespace Lorie.Outputs

open Lorie.Lib

namespace State

/-! ## A recorded revision stands for the picture on the surface -/

/-- Every frame that is received has a revision that is neither recorded nor being drawn for its output. -/
def Fresh (s : State) (a : Action) : Prop :=
  a = .receive → ∀ p ∈ s.incoming, ∀ o ∈ s.renderer.outputs, o.id = p.1 →
    p.2.revision ≠ 0 ∧ p.2.revision ≠ o.drawnRevision ∧
      ∀ d ∈ s.renderer.worker.draws, d.id = p.1 → p.2.revision ≠ d.frame.revision

instance (s : State) (a : Action) : Decidable (s.Fresh a) :=
  inferInstanceAs (Decidable (_ → ∀ p ∈ s.incoming, ∀ o ∈ s.renderer.outputs, _ → _ ∧ _ ∧
    ∀ d ∈ s.renderer.worker.draws, _ → _))

end State

/-- The snapshot of what was drawn. -/
def Shown.picture (sh : Shown) : Frame × List Layer := (sh.frame, sh.layers)

/-- The frame and the layers of the record are what was drawn last. -/
def Output.Current (o : Output) : Prop := o.shown.map Shown.picture = some (o.frame, o.layers)

instance (o : Output) : Decidable o.Current :=
  inferInstanceAs (Decidable (_ = _))

/-- The revision that is recorded for the output stands for the picture on its surface. -/
def Output.Faithful (o : Output) : Prop :=
  o.frame ≠ .zero → o.frame.revision ≠ 0 ∧ (o.drawnRevision = o.frame.revision → o.Current)

/-- A draw in progress is due, and its revision names what it draws. -/
def Output.Due (o : Output) (d : Draw) : Prop :=
  o.drawnRevision ≠ o.frame.revision ∧
    (d.frame.revision = o.frame.revision → d.frame = o.frame ∧ d.layers = o.layers)

/-- A record as it is made is not of a frame. -/
theorem Output.new_faithful (id : Nat) : (Output.new id).Faithful := fun h => absurd rfl h

/-- A record with no revision recorded says nothing of its surface. -/
theorem Output.Faithful.of_zero {o p : Output} (h : o.Faithful) (hf : p.frame = o.frame) (hd : p.drawnRevision = 0) :
    p.Faithful := by
  intro hne
  rw [hf] at hne ⊢
  have hr := (h hne).1
  exact ⟨hr, fun e => absurd (hd ▸ e).symm hr⟩

namespace State

/-- The records and the draws in progress. -/
structure Inv (outputs : List Output) (worker : Worker) : Prop where
  nodup : (outputs.map (·.id)).Nodup
  draws : (worker.draws.map (·.id)).Nodup
  faithful : ∀ o ∈ outputs, o.Faithful
  due : ∀ o ∈ outputs, ∀ d ∈ worker.draws, d.id = o.id → o.Due d
  drawn : ∀ d ds, worker = .drawn d ds → ∀ o ∈ outputs, o.id = d.id →
    o.shown.map Shown.picture = some (d.frame, d.layers)

section Steps

variable {outputs : List Output} {w : Worker}

/-- With no draw in progress, only the records matter. -/
theorem Inv.of_idle (hn : (outputs.map (·.id)).Nodup) (hf : ∀ o ∈ outputs, o.Faithful) (hw : w.draws = []) :
    Inv outputs w := by
  refine ⟨hn, by rw [hw]; exact .nil, hf, ?_, ?_⟩
  · intro o _ d hd
    rw [hw] at hd
    cases hd
  · intro d ds hd
    rw [hd] at hw
    cases hw

theorem Inv.addLayer (h : Inv outputs w) (id : Nat) (l : Layer) : Inv (update id (·.addLayer l) outputs) w := by
  have key : ∀ {P : Output → Prop} {q : Output}, (∀ p, P { q with pendingLayers := p } ↔ P q) → P q → P (q.addLayer l) := by
    intro P q hP hq
    obtain ⟨p, hp⟩ := q.addLayer_eq l
    rw [hp]
    exact (hP p).2 hq
  refine ⟨nodup_update h.nodup fun o => o.addLayer_id l, h.draws, ?_, ?_, ?_⟩
  · exact forall_mem_update h.faithful fun p _ _ hp => key (P := Output.Faithful) (fun _ => .rfl) hp
  · exact forall_mem_update h.due fun p _ _ hp =>
      key (P := fun o => ∀ d ∈ w.draws, d.id = o.id → o.Due d) (fun _ => .rfl) hp
  · intro d ds hd
    exact forall_mem_update (h.drawn d ds hd) fun p _ _ hp =>
      key (P := fun o => o.id = d.id → o.shown.map Shown.picture = some (d.frame, d.layers)) (fun _ => .rfl) hp

/-- A fresh frame is committed. -/
theorem Inv.commit (h : Inv outputs w) {id : Nat} {f : Frame}
    (hf : ∀ o ∈ outputs, o.id = id → f.revision ≠ 0 ∧ f.revision ≠ o.drawnRevision ∧
      ∀ d ∈ w.draws, d.id = id → f.revision ≠ d.frame.revision) : Inv (update id (·.commit f) outputs) w := by
  refine ⟨nodup_update h.nodup fun _ => rfl, h.draws, ?_, ?_, ?_⟩
  · refine forall_mem_update h.faithful fun p hp hid _ _ => ?_
    obtain ⟨h₀, h₁, -⟩ := hf p hp hid
    exact ⟨h₀, fun e => absurd e.symm h₁⟩
  · refine forall_mem_update h.due fun p hp hid _ d hd hdid => ?_
    obtain ⟨-, h₁, h₂⟩ := hf p hp hid
    exact ⟨h₁.symm, fun e => absurd e.symm (h₂ d hd (hdid.trans hid))⟩
  · intro d ds hd
    exact forall_mem_update (h.drawn d ds hd) fun _ _ _ hp => hp

/-- The surface of an output changes, with no draw in progress. -/
theorem Inv.refresh (h : Inv outputs w) {r : Renderer} (hr : r.outputs = outputs) (id : Nat) (window : Option Nat) :
    Inv (update id (·.refresh window) (r.withRecord id)) .top := by
  refine .of_idle ?_ ?_ rfl
  · exact nodup_update (Renderer.nodup_withRecord (hr ▸ h.nodup)) fun _ => rfl
  · refine forall_mem_update ?_ fun p _ _ hp => hp.of_zero rfl rfl
    intro p hp
    rcases Renderer.mem_withRecord hp with hp | rfl
    · exact h.faithful p (hr ▸ hp)
    · exact Output.new_faithful id

/-- The snapshot takes what is not drawn. -/
theorem Inv.snapshot (h : Inv outputs w) : Inv outputs (.drawing false (snapshots outputs)) := by
  refine ⟨h.nodup, ?_, h.faithful, ?_, nofun⟩
  · have : (snapshots outputs).map (·.id) = (outputs.filter (·.needsDraw)).map (·.id) := by
      unfold snapshots
      rw [List.map_map]
      rfl
    show ((snapshots outputs).map (·.id)).Nodup
    rw [this]
    exact h.nodup.sublist (List.filter_sublist.map _)
  · intro o ho d hd hid
    obtain ⟨p, hp, rfl⟩ := List.mem_map.1 hd
    obtain ⟨hp, hneed⟩ := List.mem_filter.1 hp
    have : p = o := List.inj_on_of_nodup_map h.nodup hp ho hid
    subst this
    simp only [Output.needsDraw, ne_eq, Bool.and_eq_true, decide_eq_true_eq] at hneed
    exact ⟨hneed.2, fun _ => ⟨rfl, rfl⟩⟩

/-- A draw is presented: the output it is for is not taken for drawn. -/
theorem Inv.show {rendered : Bool} {d : Draw} {ds : List Draw} (h : Inv outputs (.drawing rendered (d :: ds))) (n : Nat) :
    Inv (update d.id (·.show d n) outputs) (.drawn d ds) := by
  refine ⟨nodup_update h.nodup fun _ => rfl, h.draws, ?_, ?_, ?_⟩
  · refine forall_mem_update h.faithful fun p hp hid hpf hne => ?_
    have hdue := h.due p hp d List.mem_cons_self hid.symm
    exact ⟨(hpf hne).1, fun e => absurd e hdue.1⟩
  · exact forall_mem_update h.due fun _ _ _ hp => hp
  · intro d' ds' hd o ho hid
    cases hd
    obtain ⟨p, -, rfl⟩ := mem_update.1 ho
    split at hid
    · rename_i hp
      rw [if_pos hp]
      rfl
    · rename_i hp
      exact absurd hid hp

/-- The revision of a presented draw is recorded. -/
theorem Inv.record {d : Draw} {ds : List Draw} (h : Inv outputs (.drawn d ds)) :
    Inv (update d.id (·.drew d) outputs) (.drawing true ds) := by
  have hnd : d.id ∉ ds.map (·.id) ∧ (ds.map (·.id)).Nodup := List.nodup_cons.1 h.draws
  refine ⟨nodup_update h.nodup fun _ => rfl, hnd.2, ?_, ?_, nofun⟩
  · refine forall_mem_update h.faithful fun p hp hid hpf hne => ?_
    refine ⟨(hpf hne).1, fun e => ?_⟩
    have hshown := h.drawn d ds rfl p hp hid
    obtain ⟨hfr, hla⟩ := (h.due p hp d List.mem_cons_self hid.symm).2 e
    rw [hfr, hla] at hshown
    exact hshown
  · refine forall_mem_update (fun o ho e he => h.due o ho e (List.mem_cons_of_mem d he)) ?_
    -- no other draw is for this output
    intro p _ hid _ e he heid
    exact absurd (List.mem_map.2 ⟨e, he, heid.trans hid⟩) hnd.1

end Steps

/-- Every step under the condition keeps the invariant. -/
theorem step_inv {s s' : State} {a : Action} (h : Inv s.renderer.outputs s.renderer.worker) (hc : s.Fresh a)
    (hs : s.step a = some s') : Inv s'.renderer.outputs s'.renderer.worker := by
  have hrec := step_records hs
  generalize s'.renderer.outputs = outputs, s'.renderer.worker = w at hrec
  cases hrec with
  | keep => exact h
  | layer id l => exact h.addLayer id l
  | frame id f hin => exact h.commit (hc rfl (id, f) hin)
  | surface id window release => exact h.refresh rfl id window
  | remove id window release =>
    have := h.refresh (r := s.renderer) rfl id window
    refine .of_idle (this.nodup.sublist (List.filter_sublist.map _)) ?_ rfl
    intro o ho
    exact this.faithful o (List.mem_of_mem_filter ho)
  | idle _ _ hw => exact .of_idle h.nodup h.faithful hw
  | invalidate _ _ _ hw =>
    refine .of_idle ?_ ?_ hw
    · rw [List.map_map]
      exact h.nodup
    · intro o ho
      obtain ⟨p, hp, rfl⟩ := List.mem_map.1 ho
      exact (h.faithful p hp).of_zero rfl rfl
  | snapshot => exact h.snapshot
  | draw rendered d ds hw => exact (hw ▸ h).show _
  | record d ds hw => exact (hw ▸ h).record

theorem inv_init : Inv State.init.renderer.outputs State.init.renderer.worker :=
  .of_idle .nil (List.forall_mem_nil _) rfl

/-- **No outdated picture is considered current**, in every run in which no frame comes with a revision that is recorded
or being drawn for its output: where a frame is committed and its revision is recorded, the last snapshot drawn on the
surface is that frame with its layers. -/
theorem drawn_current {s : State} (h : Reach step Fresh State.init s) : ∀ o ∈ s.renderer.outputs, o.surface.isSome →
    o.frame ≠ .zero → o.drawnRevision = o.frame.revision → o.Current := by
  intro o ho _ hne heq
  have hinv := h.invariant (I := fun s => Inv s.renderer.outputs s.renderer.worker) inv_init fun _ _ _ => step_inv
  exact (hinv.faithful o ho hne).2 heq

/-- A window that is one layer, in a buffer. -/
def family (window buffer : Nat) : Family where
  drawable := window
  width := 64
  height := 48
  layers := [(⟨window, 0, 0, 64, 48, false, 0⟩, some buffer)]
  presentation := 0
  viewport := ⟨0, 0, 0, 0⟩

/-- A connection, a surface for an output and a selection of a window. -/
def bindActions : List Action :=
  [.connect, .install, .attach 1, .receive, .setOutputSurface 1 (some 7) false, .bind 1 10]

/-- The worker attaches a new buffer and draws one output. -/
def passActions : List Action := [.loop true false, .endDrain false, .snapshot, .draw, .record, .endDraw]

/-- A frame of the selection is published, committed and drawn. -/
def drawActions : List Action := 
  bindActions ++ ([.publish 1 (family 10 100) none, .receive, .receive] : List Action) ++ passActions

theorem drawn_current_frame : ∃ s, exec (fun s a => if Fresh s a then step s a else none) State.init drawActions = some s ∧
    ∃ o ∈ s.renderer.outputs, o.surface.isSome ∧ o.frame ≠ .zero ∧ o.drawnRevision = o.frame.revision ∧ o.Current :=
  ⟨_, rfl, _, List.mem_cons_self, rfl, by decide, rfl,
    drawn_current (.of_exec_guarded drawActions rfl) _ List.mem_cons_self rfl (by decide) rfl⟩

/-- The output is then bound to another window. The buffer of its first frame arrives and makes the worker draw the old
frame again; then the new frame is committed. -/
def rebindActions : List Action :=
  drawActions ++ ([.bind 1 20, .redraw, .publish 1 (family 20 200) none] : List Action) ++ passActions ++
    ([.receive, .receive] : List Action)

/-- The first frame of a second selection is taken for drawn, and the surface shows the window of the first one. -/
theorem drawn_outdated : ∃ s, Reach step Free State.init s ∧ ∃ o ∈ s.renderer.outputs, o.surface.isSome ∧
    o.frame ≠ .zero ∧ o.drawnRevision = o.frame.revision ∧ ¬o.Current :=
  ⟨_, .of_exec rebindActions rfl, _, List.mem_cons_self, rfl, by decide, rfl, by decide⟩

end State

end Lorie.Outputs
