import Lorie.Outputs.Revision

/-!
# The copies that a drawn frame shows

A GPU copy into the buffer of a layer that is scheduled before a frame is published is part of that frame. The worker
drains the ring without the state lock and takes the frames to draw later, under it.

- `Settled`: no frame is received between the drain and the snapshot while the ring holds a copy of it;
- `CopyInv`: then every frame that is drawn has its copies executed (`step_copyInv`);
- `drawn_after_copies`: a recorded revision stands for a picture with all its copies. A copy that is scheduled, and the
  frame it belongs to received, between the drain and the snapshot is missing (`drawn_before_copy`).
-/

namespace Lorie.Outputs

open Lorie.Lib

/-- The copies that belong to the frame are among the first `n`. -/
def Frame.Within (f : Frame) (n : Nat) : Prop := ∀ i ∈ f.copies, i < n

instance (f : Frame) (n : Nat) : Decidable (f.Within n) :=
  inferInstanceAs (Decidable (∀ i ∈ f.copies, i < n))

theorem Frame.Within.mono {f : Frame} {m n : Nat} (h : f.Within m) (hmn : m ≤ n) : f.Within n :=
  fun i hi => Nat.lt_of_lt_of_le (h i hi) hmn

theorem Frame.zero_within (n : Nat) : Frame.zero.Within n := nofun

/-- The copies of a frame are those scheduled when it is published. -/
theorem Selection.frame_within (o : Selection) (family : Family) (scheduled : List Nat) :
    (o.frame family scheduled).Within scheduled.length := by
  intro i hi
  exact List.mem_range.1 (List.mem_of_mem_filter hi)

namespace State

/-! ## Frames on their way -/

theorem mem_send {s : State} {es : List Event} {cut : Option Nat} {k : Nat} {e : Event}
    (h : e ∈ (s.send es cut).chan k) : e ∈ s.chan k ∨ e ∈ es := by
  unfold send at h
  split at h
  · by_cases hk : k = s.server.conn
    · subst hk
      cases cut with
      | none =>
        simp only [Function.update_self] at h
        exact List.mem_append.1 h
      | some n =>
        simp only [Function.update_self] at h
        exact (List.mem_append.1 h).imp_right List.mem_of_mem_take
    · cases cut with
      | none =>
        simp only [Function.update_of_ne hk] at h
        exact .inl h
      | some n =>
        simp only [Function.update_of_ne hk] at h
        exact .inl h
  · exact .inl h

/-- A frame on its way was so before, or it is published now. -/
theorem step_chan {s s' : State} {a : Action} (hs : s.step a = some s') {k id : Nat} {f : Frame}
    (h : .frame id f ∈ s'.chan k) : .frame id f ∈ s.chan k ∨ f.Within s.shared.scheduled.length := by
  cases a with
  | receive =>
    obtain ⟨k', e, es, -, he, -, rfl⟩ := receive_eq hs
    have hchan : (deliver { s with chan := Function.update s.chan k' es } e).chan = Function.update s.chan k' es := by
      cases e <;> rfl
    rw [hchan] at h
    by_cases hk : k = k'
    · subst hk
      rw [Function.update_self] at h
      exact .inl (he ▸ List.mem_cons_of_mem e h)
    · rw [Function.update_of_ne hk] at h
      exact .inl h
  | publish id' family cut =>
    simp only [step] at hs
    split at hs
    · cases hs
    · rename_i o ho
      split at hs
      · cases hs
        rcases mem_send h with h | h
        · exact .inl h
        · unfold frameEvents at h
          rcases List.mem_append.1 h with h | h
          · obtain ⟨l, -, hl⟩ := List.mem_map.1 h
            cases hl
          · cases List.mem_singleton.1 h
            exact .inr (o.frame_within family s.shared.scheduled)
      · cases hs
  | install =>
    simp only [step] at hs
    split at hs
    · cases hs
      rcases mem_send h with h | h
      · exact .inl h
      · cases List.mem_singleton.1 h
    · cases hs
  | attach conn | detach =>
    simp only [step] at hs
    split at hs
    · cases hs
      exact .inl h
    · cases hs
  | _ =>
    rw [(step_sameWire rfl hs).chan] at h
    exact .inl h

/-! ## Between the drain and the snapshot -/

/-- The worker drained the ring and takes the frames to draw next. -/
def AboutToDraw (s : State) : Prop :=
  s.renderer.worker = .drained ∧ s.renderer.connectionFailed = false ∧ s.renderer.copyWaitingForBuffer = false

instance (s : State) : Decidable s.AboutToDraw :=
  inferInstanceAs (Decidable (_ ∧ _ ∧ _))

/-- A drain that leaves no copy behind ends with the ring empty; otherwise the worker stood there before. -/
theorem step_aboutToDraw {s s' : State} {a : Action} (hs : s.step a = some s') (h : s'.AboutToDraw) :
    s.AboutToDraw ∨
      s'.renderer.outputs = s.renderer.outputs ∧ s.shared.scheduled.length ≤ s'.shared.executed := by
  obtain ⟨hw, hf, hc⟩ := h
  by_cases ha : a.onServer = true
  · rw [(step_server ha hs).1] at hw hf hc
    exact .inl ⟨hw, hf, hc⟩
  cases a with
  | receive =>
    obtain ⟨k, e, es, -, -, he, rfl⟩ := receive_eq hs
    cases e with
    | sharedServerState =>
      have : s.renderer.worker = .drained := hw
      rw [he rfl] at this
      cases this
    | layer id l => exact .inl ⟨hw, hf, hc⟩
    | frame id f => exact .inl ⟨hw, hf, hc⟩
  | setOutputSurface id window release =>
    simp only [step] at hs
    split at hs
    · rename_i hg
      cases hs
      unfold setOutputSurface at hw
      split at hw <;> simp only [hg.2, reduceCtorEq] at hw
    · cases hs
  | loop added removed =>
    simp only [step] at hs
    split at hs
    · cases hs
      dsimp only at hw
      split at hw <;> cases hw
    · cases hs
  | endDrain failed =>
    simp only [step] at hs
    split at hs
    · cases hs
      refine .inr ⟨rfl, ?_⟩
      by_contra hlt
      simp only [Bool.or_eq_false_iff, Bool.and_eq_false_imp, Bool.not_eq_false'] at hf hc
      have hleft : (!s.renderer.connectionFailed && decide (s.shared.executed < s.shared.scheduled.length)) = true := by
        rw [hf.1]
        simpa using hlt
      have hfail := hf.2 hleft
      rw [hc.2 hleft] at hfail
      cases hfail
    · cases hs
  | snapshot =>
    simp only [step] at hs
    split at hs
    · cases hs
      dsimp only at hw
      split at hw <;> cases hw
    · cases hs
  | draw | record | abandon | endDraw =>
    simp only [step] at hs
    split at hs
    · cases hs
      cases hw
    · cases hs
  | attach conn =>
    simp only [step] at hs
    split at hs
    · rename_i hg
      cases hs
      have : s.renderer.worker = .drained := hw
      rw [hg.1] at this
      cases this
    · cases hs
  | detach =>
    simp only [step] at hs
    split at hs
    · rename_i hg
      cases hs
      have : s.renderer.worker = .drained := hw
      rw [hg] at this
      cases this
    · cases hs
  | copy =>
    simp only [step] at hs
    split at hs
    · cases hs
      exact .inl ⟨hw, hf, hc⟩
    · cases hs
  | _ => exact absurd rfl ha

/-- No frame is received between the drain and the snapshot while the ring holds a copy that belongs to it. -/
def Settled (s : State) (a : Action) : Prop :=
  a = .receive → s.AboutToDraw → ∀ p ∈ s.incoming, ∀ o ∈ s.renderer.outputs, o.id = p.1 → o.surface.isSome →
    p.2.Within s.shared.executed

instance (s : State) (a : Action) : Decidable (s.Settled a) :=
  inferInstanceAs (Decidable (_ → _ → ∀ p ∈ s.incoming, ∀ o ∈ s.renderer.outputs, _ → _ → _))

/-- The conditions under which a recorded revision stands for a picture with its copies. -/
def FreshSettled (s : State) (a : Action) : Prop := s.Fresh a ∧ s.Settled a

instance (s : State) (a : Action) : Decidable (s.FreshSettled a) :=
  inferInstanceAs (Decidable (_ ∧ _))

/-! ## Frames are drawn after their copies -/

/-- The copies of the frames on their way, committed, being drawn and shown. -/
structure CopyInv (s : State) : Prop where
  chan : ∀ k id f, .frame id f ∈ s.chan k → f.Within s.shared.scheduled.length
  frames : ∀ o ∈ s.renderer.outputs, o.frame.Within s.shared.scheduled.length
  ready : s.AboutToDraw → ∀ o ∈ s.renderer.outputs, o.surface.isSome → o.frame.Within s.shared.executed
  draws : ∀ d ∈ s.renderer.worker.draws, d.frame.Within s.shared.executed
  shown : ∀ o ∈ s.renderer.outputs, ∀ sh ∈ o.shown, sh.frame.Within sh.executed

theorem CopyInv.init : State.init.CopyInv :=
  ⟨fun _ _ _ hin => absurd hin List.not_mem_nil, List.forall_mem_nil _, fun _ => List.forall_mem_nil _, List.forall_mem_nil _,
    List.forall_mem_nil _⟩

/-- The frame that is received next was published. -/
theorem CopyInv.incoming {s : State} (h : s.CopyInv) {p : Nat × Frame} (hp : s.incoming = some p) :
    p.2.Within s.shared.scheduled.length := by
  unfold State.incoming at hp
  split at hp
  · cases hp
  · rename_i k hk
    split at hp
    · rename_i id f es he
      cases hp
      exact h.chan k id f (he ▸ List.mem_cons_self)
    · cases hp

/-- What the records keep of their frames and pictures. -/
theorem step_frames {s s' : State} {a : Action} (h : s.CopyInv) (hs : s.step a = some s') :
    ∀ o ∈ s'.renderer.outputs, o.frame.Within s.shared.scheduled.length ∧
      ∀ sh ∈ o.shown, sh.frame.Within sh.executed := by
  have hboth : ∀ o ∈ s.renderer.outputs, o.frame.Within s.shared.scheduled.length ∧
      ∀ sh ∈ o.shown, sh.frame.Within sh.executed := fun o ho => ⟨h.frames o ho, h.shown o ho⟩
  have hnew : ∀ id, ∀ o ∈ s.renderer.withRecord id, o.frame.Within s.shared.scheduled.length := by
    intro id o ho
    rcases Renderer.mem_withRecord ho with ho | rfl
    · exact h.frames o ho
    · exact Frame.zero_within _
  have hrefresh : ∀ id window, ∀ o ∈ update id (·.refresh window) (s.renderer.withRecord id),
      o.frame.Within s.shared.scheduled.length ∧ ∀ sh ∈ o.shown, sh.frame.Within sh.executed := by
    intro id window o ho
    obtain ⟨p, hp, rfl⟩ := mem_update.1 ho
    split
    · exact ⟨hnew id p hp, nofun⟩
    · rename_i hid
      rcases Renderer.mem_withRecord hp with hp | rfl
      · exact hboth p hp
      · exact absurd rfl hid
  have hrec := step_records hs
  generalize s'.renderer.outputs = outputs, s'.renderer.worker = w at hrec
  cases hrec with
  | keep | idle | snapshot => exact hboth
  | layer id l =>
    refine forall_mem_update hboth fun p _ _ hp => ?_
    obtain ⟨q, hq⟩ := p.addLayer_eq l
    rw [hq]
    exact hp
  | frame id f hin => exact forall_mem_update hboth fun _ _ _ hp => ⟨h.incoming hin, hp.2⟩
  | surface id window release => exact hrefresh id window
  | remove id window release => exact fun o ho => hrefresh id window o (List.mem_of_mem_filter ho)
  | invalidate =>
    intro o ho
    obtain ⟨p, hp, rfl⟩ := List.mem_map.1 ho
    exact hboth p hp
  | draw rendered d ds hw =>
    refine forall_mem_update hboth fun p _ _ hp => ⟨hp.1, ?_⟩
    intro sh hsh
    cases hsh
    exact h.draws d (hw ▸ List.mem_cons_self)
  | record => exact forall_mem_update hboth fun _ _ _ hp => hp

/-- The draws in progress have their copies. -/
theorem step_draws {s s' : State} {a : Action} (h : s.CopyInv) (hs : s.step a = some s') :
    ∀ d ∈ s'.renderer.worker.draws, d.frame.Within s.shared.executed := by
  have hstep := hs
  have hrec := step_records hs
  generalize ho : s'.renderer.outputs = outputs, hw' : s'.renderer.worker = w at hrec
  cases hrec with
  | keep | layer | frame => exact h.draws
  | surface | remove => exact nofun
  | idle _ _ hw => exact fun d hd => by rw [hw] at hd; cases hd
  | invalidate _ _ _ hw => exact fun d hd => by rw [hw] at hd; cases hd
  | draw rendered d ds hw => exact fun e he => h.draws e (hw ▸ he)
  | record d ds hw => exact fun e he => h.draws e (hw ▸ List.mem_cons_of_mem d he)
  | snapshot =>
    -- the snapshot is taken only when the drain left nothing behind
    have hready : s.AboutToDraw := by
      simp only [step] at hstep
      split at hstep
      · rename_i hd
        cases hstep
        dsimp only at hw'
        split at hw'
        · cases hw'
        · rename_i hno
          simp only [Bool.or_eq_true, not_or, Bool.not_eq_true] at hno
          exact ⟨hd, hno.1.1, hno.1.2⟩
      · cases hstep
    intro d hd
    obtain ⟨o, ho, rfl⟩ := List.mem_map.1 hd
    obtain ⟨ho, hneed⟩ := List.mem_filter.1 ho
    unfold Output.needsDraw at hneed
    exact h.ready hready o ho (Bool.and_eq_true_iff.1 hneed).1

/-- When the worker takes frames next, they have their copies. -/
theorem step_ready {s s' : State} {a : Action} (h : s.CopyInv) (hc : s.Settled a) (hs : s.step a = some s')
    (hr : s'.AboutToDraw) : ∀ o ∈ s'.renderer.outputs, o.surface.isSome → o.frame.Within s'.shared.executed := by
  rcases step_aboutToDraw hs hr with hb | ⟨ho, hle⟩
  · have hold : ∀ o ∈ s.renderer.outputs, o.surface.isSome → o.frame.Within s'.shared.executed :=
      fun o ho hsu => (h.ready hb o ho hsu).mono (step_ring hs).2
    have hrec := step_records hs
    have hw := hr.1
    generalize s'.renderer.outputs = outputs, s'.renderer.worker = w at hrec hw
    cases hrec with
    | keep | idle => exact hold
    | layer id l =>
      refine forall_mem_update hold fun p _ _ hp => ?_
      obtain ⟨q, hq⟩ := p.addLayer_eq l
      rw [hq]
      exact hp
    | frame id f hin =>
      refine forall_mem_update hold fun p hp hid _ hsu => ?_
      exact (hc rfl hb (id, f) hin p hp hid hsu).mono (step_ring hs).2
    | surface | remove | snapshot | draw | record => cases hw
    | invalidate _ _ htop =>
      rw [hb.1] at htop
      cases htop
  · rw [ho]
    exact fun o ho' _ => (h.frames o ho').mono hle

/-- Every step under the condition keeps the invariant. -/
theorem step_copyInv {s s' : State} {a : Action} (h : s.CopyInv) (hc : s.Settled a) (hs : s.step a = some s') :
    s'.CopyInv := by
  obtain ⟨hsched, hexec⟩ := step_ring hs
  refine ⟨?_, ?_, step_ready h hc hs, ?_, ?_⟩
  · intro k id f hf
    rcases step_chan hs hf with hf | hf
    · exact (h.chan k id f hf).mono hsched
    · exact hf.mono hsched
  · exact fun o ho => (step_frames h hs o ho).1.mono hsched
  · exact fun d hd => (step_draws h hs d hd).mono hexec
  · exact fun o ho => (step_frames h hs o ho).2

/-- The picture on the surface is of the committed frame, and was drawn when its copies were executed. -/
def ShownAfterCopies (o : Output) : Prop :=
  ∃ sh, o.shown = some sh ∧ sh.frame = o.frame ∧ ∀ i ∈ o.frame.copies, i < sh.executed

/-- **A drawn frame contains every copy scheduled before it was published**, in every run in which no frame comes with a
revision that is recorded or being drawn for its output, and none between the drain and the snapshot while the ring
holds a copy that belongs to it. -/
theorem drawn_after_copies {s : State} (h : Reach step FreshSettled State.init s) :
    s.shared.executed = s.shared.scheduled.length → ∀ o ∈ s.renderer.outputs, o.surface.isSome → o.frame ≠ .zero →
      o.drawnRevision = o.frame.revision → ShownAfterCopies o := by
  intro _ o ho hsu hne heq
  have hcur := drawn_current (h.mono fun _ _ hc => hc.1) o ho hsu hne heq
  have hcopy := h.invariant (I := CopyInv) CopyInv.init fun _ _ _ hi hc => step_copyInv hi hc.2
  unfold Output.Current at hcur
  obtain ⟨sh, hsh, hpic⟩ := Option.map_eq_some_iff.1 hcur
  have hfr : sh.frame = o.frame := congrArg Prod.fst hpic
  exact ⟨sh, hsh, hfr, hfr ▸ hcopy.shown o ho sh hsh⟩

/-- A copy into a window is scheduled before its frame is published, executed, and the frame drawn. -/
def copyActions : List Action :=
  bindActions ++ ([.schedule 100, .publish 1 (family 10 100) none, .receive, .receive, .loop true false, .copy,
    .endDrain false, .snapshot, .draw, .record, .endDraw] : List Action)

theorem drawn_after_copies_drained : ∃ s,
    exec (fun s a => if FreshSettled s a then step s a else none) State.init copyActions = some s ∧
    ∃ o ∈ s.renderer.outputs, o.drawnRevision = o.frame.revision ∧ o.frame.copies = [0] ∧ ShownAfterCopies o :=
  ⟨_, rfl, _, List.mem_cons_self, rfl, rfl,
    drawn_after_copies (.of_exec_guarded copyActions rfl) rfl _ List.mem_cons_self rfl (by decide) rfl⟩

/-- A second frame makes the worker drain an empty ring; then another copy is scheduled and a third frame published and
received. The third frame is drawn, and the copy executed in the next pass. -/
def lateActions : List Action :=
  copyActions ++ ([.redraw, .publish 1 (family 10 100) none, .receive, .receive, .loop false false, .endDrain false,
    .schedule 100, .publish 1 (family 10 100) none, .receive, .receive, .snapshot, .draw, .record, .endDraw,
    .loop false false, .copy, .endDrain false, .snapshot] : List Action)

/-- The ring is empty and the frame counts as drawn, and it was drawn before its copy was executed. -/
theorem drawn_before_copy : ∃ s, Reach step Free State.init s ∧ s.shared.executed = s.shared.scheduled.length ∧
    ∃ o ∈ s.renderer.outputs, o.surface.isSome ∧ o.frame ≠ .zero ∧ o.drawnRevision = o.frame.revision ∧
      ¬ShownAfterCopies o := by
  refine ⟨_, .of_exec lateActions rfl, rfl, _, List.mem_cons_self, rfl, by decide, rfl, ?_⟩
  rintro ⟨sh, hsh, -, hcopies⟩
  cases hsh
  exact absurd (hcopies 1 (by decide)) (by decide)

end State

end Lorie.Outputs
