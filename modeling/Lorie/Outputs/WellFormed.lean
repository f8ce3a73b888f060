import Lorie.Outputs.Changes

/-!
# The registry stays well formed

- `Formed`: ids are nonzero and distinct, and every live dependent output has its parent; every `Change` keeps it;
- `step_changes`: a step of the registry is a sequence of changes;
- `registry_formed`: the registry is well formed in every reachable state.
-/

namespace Lorie.Outputs.Registry

open Lorie.Lib Leases

/-! ## Well-formed selections -/

/-- The relation between dependent outputs and their parents. -/
structure Formed (s : Leases.State) : Prop where
  nodup : s.selections.Nodup
  nonzero : ∀ p ∈ s.selections, (s.heap p).id ≠ 0
  distinct : Distinct s
  /-- A live dependent borrows from a live output of its own window, which borrows nothing. -/
  parent : ∀ p ∈ s.selections, (s.heap p).dead = false → (s.heap p).parent ≠ 0 →
    (s.heap p).window ≠ 0 ∧ ∃ q ∈ s.selections, (s.heap q).id = (s.heap p).parent ∧ (s.heap q).dead = false ∧
      (s.heap q).borrowed = false ∧ (s.heap q).window = (s.heap p).window
  /-- An output has at most one live dependent. -/
  single : ∀ o ∈ s.selections, ∀ p ∈ s.selections, ∀ q ∈ s.selections, (s.heap p).dead = false → (s.heap q).dead = false →
    (s.heap p).parent = (s.heap o).id → (s.heap q).parent = (s.heap o).id → p = q

theorem parent_of_borrowed {x : OutputSelection} (h : x.borrowed = false) : x.shell = false ∧ x.parent = 0 := by
  unfold OutputSelection.borrowed at h
  simpa using h

theorem mem_of_unlinked {before after : List Nat} {o p : Nat} (h : p ∈ before ++ after) : p ∈ before ++ o :: after := by
  rcases List.mem_append.1 h with h | h
  · exact List.mem_append_left _ h
  · exact List.mem_append_right _ (List.mem_cons_of_mem _ h)

theorem mem_unlinked {before after : List Nat} {o p : Nat} (h : p ∈ before ++ o :: after) (hp : p ≠ o) :
    p ∈ before ++ after := by
  rcases List.mem_append.1 h with h | h
  · exact List.mem_append_left _ h
  · exact List.mem_append_right _ ((List.mem_cons.1 h).resolve_left hp)

namespace Formed

variable {s t : Leases.State}

/-- The same outputs, where fewer are live and no output dies from which a live one borrows. -/
theorem of_dead (h : Formed s) (hsel : t.selections = s.selections) (hident : ∀ p, ident (t.heap p) = ident (s.heap p))
    (hdead : ∀ p ∈ s.selections, (t.heap p).dead = false → (s.heap p).dead = false)
    (hparent : ∀ p ∈ s.selections, (t.heap p).dead = false → (s.heap p).parent ≠ 0 → ∀ q ∈ s.selections,
      (s.heap q).dead = false → (s.heap q).borrowed = false → (s.heap q).window = (s.heap p).window →
      (t.heap q).dead = false) : Formed t := by
  have hid : ∀ p, (t.heap p).id = (s.heap p).id := fun p => id_of_ident (hident p)
  have hwindow : ∀ p, (t.heap p).window = (s.heap p).window := fun p => window_of_ident (hident p)
  have hp : ∀ p, (t.heap p).parent = (s.heap p).parent := fun p => parent_of_ident (hident p)
  refine ⟨?_, ?_, ?_, ?_, ?_⟩
  · rw [hsel]
    exact h.nodup
  · intro p hmem
    rw [hsel] at hmem
    rw [hid]
    exact h.nonzero p hmem
  · intro p hmem q hmem' heq
    rw [hsel] at hmem hmem'
    rw [hid, hid] at heq
    exact h.distinct p hmem q hmem' heq
  · intro p hmem hd hne
    rw [hsel] at hmem
    rw [hp] at hne
    obtain ⟨hw, q, hq, hqid, hqd, hqb, hqw⟩ := h.parent p hmem (hdead p hmem hd) hne
    refine ⟨by rw [hwindow]; exact hw, q, by rw [hsel]; exact hq, ?_, hparent p hmem hd hne q hq hqd hqb hqw, ?_, ?_⟩
    · rw [hid, hp]
      exact hqid
    · rw [borrowed_of_ident (hident q)]
      exact hqb
    · rw [hwindow, hwindow]
      exact hqw
  · intro o ho p hmem q hmem' hpd hqd hpo hqo
    rw [hsel] at ho hmem hmem'
    rw [hp, hid] at hpo hqo
    exact h.single o ho p hmem q hmem' (hdead p hmem hpd) (hdead q hmem' hqd) hpo hqo

/-- A selection is unlinked and released. -/
theorem drop (h : Formed s) {before after : List Nat} {o : Nat} (hsel : s.selections = before ++ o :: after) :
    Formed (Leases.State.releaseSelection { s with selections := before ++ after } o) := by
  have hr := releaseSelection_released { s with selections := before ++ after } o
  generalize Leases.State.releaseSelection _ o = t at hr ⊢
  have hid : ∀ p, (t.heap p).id = (s.heap p).id := fun p => id_of_ident (hr.ident p)
  have hwindow : ∀ p, (t.heap p).window = (s.heap p).window := fun p => window_of_ident (hr.ident p)
  have hparent : ∀ p, (t.heap p).parent = (s.heap p).parent := fun p => parent_of_ident (hr.ident p)
  have hlist : t.selections = before ++ after := hr.selections
  have hmem : ∀ p ∈ before ++ after, p ∈ s.selections := by
    intro p hp
    rw [hsel]
    exact mem_of_unlinked hp
  have hdead : ∀ p ∈ before ++ after, (t.heap p).dead = ((s.heap p).dead || (s.heap p).parent = (s.heap o).id) := by
    intro p hp
    have := hr.dead p
    simpa only [hp, decide_true, Bool.true_and] using this
  have ho : o ∈ s.selections := by
    rw [hsel]
    exact List.mem_append_right _ List.mem_cons_self
  refine ⟨?_, ?_, ?_, ?_, ?_⟩
  · rw [hlist]
    have := h.nodup
    rw [hsel, List.nodup_middle] at this
    exact (List.nodup_cons.1 this).2
  · intro p hp
    rw [hlist] at hp
    rw [hid]
    exact h.nonzero p (hmem p hp)
  · intro p hp q hq heq
    rw [hlist] at hp hq
    rw [hid, hid] at heq
    exact h.distinct p (hmem p hp) q (hmem q hq) heq
  · intro p hp hd hne
    rw [hlist] at hp
    rw [hparent] at hne
    rw [hdead p hp, Bool.or_eq_false_iff, decide_eq_false_iff_not] at hd
    obtain ⟨hw, q, hq, hqid, hqd, hqb, hqw⟩ := h.parent p (hmem p hp) hd.1 hne
    -- the parent is another output than the one that was released, and borrows nothing
    have hqo : q ≠ o := by
      intro e
      rw [e] at hqid
      exact hd.2 hqid.symm
    have hq' : q ∈ before ++ after := by
      rw [hsel] at hq
      exact mem_unlinked hq hqo
    refine ⟨by rw [hwindow]; exact hw, q, by rw [hlist]; exact hq', ?_, ?_, ?_, ?_⟩
    · rw [hid, hparent]
      exact hqid
    · rw [hdead q hq', hqd, (parent_of_borrowed hqb).2, Bool.false_or, decide_eq_false_iff_not]
      exact (h.nonzero o ho).symm
    · rw [borrowed_of_ident (hr.ident q)]
      exact hqb
    · rw [hwindow, hwindow]
      exact hqw
  · intro r hr' p hp q hq hpd hqd hpr hqr
    rw [hlist] at hr' hp hq
    rw [hdead p hp, Bool.or_eq_false_iff] at hpd
    rw [hdead q hq, Bool.or_eq_false_iff] at hqd
    rw [hparent, hid] at hpr hqr
    exact h.single r (hmem r hr') p (hmem p hp) q (hmem q hq) hpd.1 hqd.1 hpr hqr

/-- A new selection. -/
theorem create (h : Formed s) {before after : List Nat} {o : Nat} {c : Command} (hsel : s.selections = before ++ after)
    (ho : o ∉ s.selections) (h0 : c.output ≠ 0) (hid : ∀ p ∈ s.selections, (s.heap p).id ≠ c.output)
    (hlends : c.detail = 2 → ∃ p, Lends s c p) :
    Formed { s with heap := Function.update s.heap o (Leases.State.newSelection c), selections := before ++ o :: after } := by
  have hmem : ∀ p ∈ before ++ o :: after, p = o ∨ p ∈ s.selections ∧ p ≠ o := by
    intro p hp
    by_cases hpo : p = o
    · exact .inl hpo
    · right
      rw [hsel]
      exact ⟨mem_unlinked hp hpo, hpo⟩
  have hkeep : ∀ p ∈ s.selections, p ∈ before ++ o :: after := by
    intro p hp
    rw [hsel] at hp
    exact mem_of_unlinked hp
  have hne : ∀ p ∈ s.selections, p ≠ o := fun p hp e => ho (e ▸ hp)
  -- no live selection borrows from the new one
  have hfree : ∀ p ∈ s.selections, (s.heap p).dead = false → (s.heap p).parent ≠ c.output := by
    intro p hp hd hparent
    obtain ⟨-, q, hq, hqid, -⟩ := h.parent p hp hd (by rw [hparent]; exact h0)
    exact hid q hq (hqid.trans hparent)
  -- the selection from which the new one borrows has no other dependent
  have hborrows : ∀ r ∈ s.selections, c.detail = 2 → uint32 c.x = (s.heap r).id → ∀ p ∈ s.selections,
      (s.heap p).dead = false → (s.heap p).parent ≠ (s.heap r).id := by
    intro r hr hd hx p hp hpd hparent
    obtain ⟨q, hq⟩ := hlends hd
    have hqr : q = r := h.distinct q hq.mem r hr (hq.id.trans hx)
    have hsingle := hq.single
    unfold Leases.State.separated at hsingle
    have := List.any_eq_false.1 hsingle p hp
    rw [hqr] at this
    simp [hpd, hparent] at this
  have hparent0 : ∀ r ∈ s.selections, (Leases.State.newSelection c).parent = (s.heap r).id →
      c.detail = 2 ∧ uint32 c.x = (s.heap r).id := by
    intro r hr hx
    by_cases hd : c.detail = 2
    · simp only [Leases.State.newSelection, hd, ↓reduceIte] at hx
      exact ⟨hd, hx⟩
    · simp only [Leases.State.newSelection, hd, ↓reduceIte] at hx
      exact absurd hx.symm (h.nonzero r hr)
  have hself : (Leases.State.newSelection c).parent ≠ c.output := by
    intro hx
    by_cases hd : c.detail = 2
    · obtain ⟨q, hq⟩ := hlends hd
      simp only [Leases.State.newSelection, hd, ↓reduceIte] at hx
      exact hid q hq.mem (hq.id.trans hx)
    · simp only [Leases.State.newSelection, hd, ↓reduceIte] at hx
      exact h0 hx.symm
  refine ⟨?_, ?_, ?_, ?_, ?_⟩
  · dsimp only
    rw [List.nodup_middle, List.nodup_cons, ← hsel]
    exact ⟨ho, h.nodup⟩
  · intro p hp
    dsimp only at hp ⊢
    rcases hmem p hp with rfl | ⟨hp', hpo⟩
    · rw [Function.update_self]
      exact h0
    · rw [Function.update_of_ne hpo]
      exact h.nonzero p hp'
  · intro p hp q hq heq
    dsimp only at hp hq heq
    rcases hmem p hp with rfl | ⟨hp', hpo⟩
    · rcases hmem q hq with rfl | ⟨hq', hqo⟩
      · rfl
      · rw [Function.update_self, Function.update_of_ne hqo] at heq
        exact absurd heq.symm (hid q hq')
    · rcases hmem q hq with rfl | ⟨hq', hqo⟩
      · rw [Function.update_self, Function.update_of_ne hpo] at heq
        exact absurd heq (hid p hp')
      · rw [Function.update_of_ne hpo, Function.update_of_ne hqo] at heq
        exact h.distinct p hp' q hq' heq
  · intro p hp hd hparent
    dsimp only at hp hd hparent ⊢
    rcases hmem p hp with rfl | ⟨hp', hpo⟩
    · rw [Function.update_self] at hparent ⊢
      have hdetail : c.detail = 2 := by
        by_contra hn
        simp [Leases.State.newSelection, hn] at hparent
      obtain ⟨q, hq⟩ := hlends hdetail
      have hw : (Leases.State.newSelection c).window = c.window := rfl
      have hx : (Leases.State.newSelection c).parent = uint32 c.x := by
        simp only [Leases.State.newSelection, hdetail, ↓reduceIte]
      rw [hw, hx]
      refine ⟨hq.window ▸ hq.selects, q, hkeep q hq.mem, ?_, ?_, ?_, ?_⟩
      · rw [Function.update_of_ne (hne q hq.mem)]
        exact hq.id
      · rw [Function.update_of_ne (hne q hq.mem)]
        exact hq.alive
      · rw [Function.update_of_ne (hne q hq.mem)]
        exact hq.own
      · rw [Function.update_of_ne (hne q hq.mem)]
        exact hq.window
    · rw [Function.update_of_ne hpo] at hd hparent ⊢
      obtain ⟨hw, q, hq, hq'⟩ := h.parent p hp' hd hparent
      refine ⟨hw, q, hkeep q hq, ?_⟩
      rw [Function.update_of_ne (hne q hq)]
      exact hq'
  · intro r hr p hp q hq hpd hqd hpr hqr
    dsimp only at hr hp hq hpd hqd hpr hqr
    rcases hmem r hr with rfl | ⟨hr', hro⟩
    · -- nothing borrows from the new selection
      rw [Function.update_self] at hpr
      rcases hmem p hp with rfl | ⟨hp', hpo⟩
      · rw [Function.update_self] at hpr
        exact absurd hpr hself
      · rw [Function.update_of_ne hpo] at hpr hpd
        exact absurd hpr (hfree p hp' hpd)
    · rw [Function.update_of_ne hro] at hpr hqr
      rcases hmem p hp with rfl | ⟨hp', hpo⟩
      · rw [Function.update_self] at hpr
        rcases hmem q hq with rfl | ⟨hq', hqo⟩
        · rfl
        · rw [Function.update_of_ne hqo] at hqr hqd
          obtain ⟨hd, hx⟩ := hparent0 r hr' hpr
          exact absurd hqr (hborrows r hr' hd hx q hq' hqd)
      · rw [Function.update_of_ne hpo] at hpr hpd
        rcases hmem q hq with rfl | ⟨hq', hqo⟩
        · rw [Function.update_self] at hqr
          obtain ⟨hd, hx⟩ := hparent0 r hr' hqr
          exact absurd hpr (hborrows r hr' hd hx p hp' hpd)
        · rw [Function.update_of_ne hqo] at hqr hqd
          exact h.single r hr' p hp' q hq' hpd hqd hpr hqr

end Formed

/-- **Every change** keeps the registry well formed. -/
theorem Change.formed {calloc : Option Nat} {x y : Leases.State × Sizes} (h : Change calloc x y) (hx : Formed x.1) :
    Formed y.1 := by
  cases h with
  | quiet h =>
    refine hx.of_dead h.selections h.ident (fun p _ hd => ?_) fun p _ _ _ q _ hd _ _ => ?_
    · rwa [h.dead] at hd
    · rwa [h.dead]
  | drop hsel => exact hx.drop hsel
  | create hnew hsel ho h0 hid hlends => exact hx.create hsel ho h0 hid hlends
  | revoke ho hshell hsel hident hextent howns hdead =>
    refine hx.of_dead hsel hident (fun p _ hd => ?_) fun p _ _ _ q _ hd hb _ => ?_
    · rw [hdead, Bool.or_eq_false_iff] at hd
      exact hd.1
    · -- a shell output lends nothing
      rw [hdead, hd, Bool.false_or, decide_eq_false_iff_not]
      intro e
      rw [e] at hb
      have := (parent_of_borrowed hb).1
      rw [hshell] at this
      cases this
  | destroyed hsel hident hextent howns hdead =>
    refine hx.of_dead hsel hident (fun p hp hd => ?_) fun p hp hd _ q hq hqd _ hw => ?_
    · rw [hdead p hp, Bool.or_eq_false_iff] at hd
      exact hd.1
    · rw [hdead p hp, Bool.or_eq_false_iff] at hd
      rw [hdead q hq, hqd, hw, hd.2]
      rfl
  | resized ho hd' hb hx' hy hsel hident hdead hextent howns =>
    refine hx.of_dead hsel hident (fun p _ hd => ?_) fun p _ _ _ q _ hd _ _ => ?_
    · rwa [hdead] at hd
    · rwa [hdead]

theorem Changes.formed {calloc : Option Nat} {x y : Leases.State × Sizes} (h : Changes calloc x y) (hx : Formed x.1) :
    Formed y.1 := by
  induction h with
  | refl => exact hx
  | tail _ h ih => exact h.formed ih

/-! ## Steps of the registry -/

section Steps

variable {s t : State} {a : Action}

/-- The changes of a step; a new selection was not seen. -/
structure Stepped (s t : State) (calloc : Option Nat) : Prop where
  changes : Changes calloc (s.leases, s.sizes) (t.leases, t.sizes)
  fresh : ∀ o, calloc = some o → t.seen o = false

theorem commandSizes_eq (s : State) (c : Command) (env : Env) :
    s.commandSizes c env = sizesAfter s.leases s.sizes c (s.leasesEnv env) := by
  have hfind : (s.leases.selections.find? fun o => (s.leases.heap o).id = c.output) = s.found? c.output := rfl
  unfold State.commandSizes sizesAfter
  rw [hfind]
  cases s.found? c.output with
  | none => rfl
  | some o =>
    dsimp only
    have hiff : s.resizes c env o = true ↔ (s.leases.heap o).dead = false ∧ (s.leases.heap o).window = c.window ∧
        Takes s.leases c (s.leasesEnv env) o := by
      unfold State.resizes Takes State.leasesEnv State.node
      simp only [Bool.and_eq_true, Bool.not_eq_true', Bool.and_eq_false_iff, decide_eq_true_eq, not_and]
      grind
    have hresize : (if s.resizes c env o = true then s.sizes.resize o (s.node o).window else s.sizes) =
        if (s.leases.heap o).dead = false ∧ (s.leases.heap o).window = c.window ∧ Takes s.leases c (s.leasesEnv env) o then
          s.sizes.resize o (s.leases.heap o).window else s.sizes := by
      by_cases hr : s.resizes c env o = true
      · rw [if_pos hr, if_pos (hiff.1 hr)]
        rfl
      · rw [if_neg hr, if_neg (mt hiff.2 hr)]
    generalize c.operation = operation
    cases operation with
    | release | bind => rfl
    | _ => exact hresize

theorem endExport_quiet (s : State) (exported : Option (Nat × Nat)) :
    Quiet s.leases (s.endExport exported).leases ∧ (s.endExport exported).sizes = s.sizes ∧
      (s.endExport exported).seen = s.seen ∧ (s.endExport exported).windows = s.windows := by
  rcases exported with _ | ⟨id, window⟩
  · exact ⟨.refl _, rfl, rfl, rfl⟩
  · exact ⟨releaseButton_quiet s.leases id window 1, rfl, rfl, rfl⟩

theorem lorieOutputCommand_stepped (hf : Formed s.leases) {c : Command} {e : DirectInput.Command} {env : Env}
    (hnew : ∀ o ∈ env.calloc, o ∉ s.leases.selections) : ∃ calloc, Stepped s (s.lorieOutputCommand c e env) calloc := by
  unfold State.lorieOutputCommand
  split
  · rename_i hselects
    have hop : env.screen = true ∧ c.output ≠ 0 := by
      unfold State.Command.selects at hselects
      split at hselects
      all_goals first | cases hselects | simpa using hselects
    refine ⟨memory c (s.leasesEnv env), ?_, ?_⟩
    · dsimp only
      rw [commandSizes_eq]
      have hscreen : (s.leasesEnv env).screen = true := hop.1
      exact command_changes hscreen hop.2 hf.distinct hf.nodup hnew
    · intro o ho
      unfold memory at ho
      split at ho
      · rename_i hbind
        dsimp only
        unfold State.commandSeen
        have hcalloc : env.calloc = some o := ho
        rw [hbind, hcalloc]
        exact Function.update_self ..
      · cases ho
  · exact ⟨none, .refl, fun _ h => by cases h⟩

/-- What `loriePublishOutputs` does when every output that was seen has its window -/
theorem publish_leases (hseen : Seen s) : s.loriePublishOutputs.leases = s.leases := by
  unfold State.loriePublishOutputs
  have hheap : (fun o =>
      if o ∈ s.leases.selections ∧ (s.node o).dead = false ∧ s.present o = false ∧ s.seen o = true then
        { s.node o with dead := true }
      else s.node o) = s.leases.heap := by
    funext o
    split
    · rename_i h
      obtain ⟨ho, hd, hp, hs⟩ := h
      rw [hseen o ho hd hs] at hp
      cases hp
    · rfl
  dsimp only
  rw [hheap]

/-- **One step** of the registry is a sequence of changes. -/
theorem step_changes (h : step s a = some t) (hf : Formed s.leases) (hseen : Seen s) : ∃ calloc, Stepped s t calloc := by
  cases a with
  | createWindow w =>
    simp only [step] at h
    split at h
    · cases h
      exact ⟨none, .refl, fun _ h => by cases h⟩
    · cases h
  | destroyWindow w =>
    simp only [step] at h
    split at h
    · cases h
      exact ⟨none, windowDestroyed_changes w, fun _ h => by cases h⟩
    · cases h
  | serverConnect =>
    cases h
    exact ⟨none, .refl, fun _ h => by cases h⟩
  | receive c e =>
    simp only [step] at h
    split at h
    · cases h
      exact ⟨none, .refl, fun _ h => by cases h⟩
    · cases h
  | error =>
    simp only [step] at h
    split at h
    · cases h
      exact ⟨none, .refl, fun _ h => by cases h⟩
    · cases h
  | work env exported =>
    simp only [step] at h
    split at h
    · cases h
    split at h
    · rename_i w ws _ hnew
      cases h
      cases w with
      | command c e =>
        obtain ⟨calloc, hchanges, hfresh⟩ := lorieOutputCommand_stepped (s := { s with work := ws }) (c := c) (e := e) hf hnew
        exact ⟨calloc, hchanges, hfresh⟩
      | lost generation =>
        simp only [State.perform]
        split
        · obtain ⟨hq, hz, -⟩ := endExport_quiet { s with work := ws } exported
          refine ⟨none, ?_, fun _ h => by cases h⟩
          dsimp only
          rw [hz]
          exact changes_quiet hq
        · exact ⟨none, .refl, fun _ h => by cases h⟩
      | connect =>
        obtain ⟨hq, hz, -⟩ := endExport_quiet { s with work := ws } exported
        refine ⟨none, ?_, fun _ h => by cases h⟩
        simp only [State.perform, State.lorieResetOutputs]
        rw [hz]
        exact (changes_quiet hq).trans (reset_changes _ _ _ rfl)
    · cases h
  | releaseButton id window button =>
    cases h
    exact ⟨none, changes_quiet (releaseButton_quiet ..), fun _ h => by cases h⟩
  | publish =>
    cases h
    refine ⟨none, ?_, fun _ h => by cases h⟩
    rw [publish_leases hseen]
    exact .refl
  | closeInput =>
    cases h
    exact ⟨none, changes_quiet (foldl_releaseInput_quiet _ _), fun _ h => by cases h⟩
  | closeScreen =>
    cases h
    exact ⟨none, reset_changes _ _ _ rfl, fun _ h => by cases h⟩

theorem commandSeen_le {c : Command} {env : Env} {o : Nat} (h : s.commandSeen c env o = true) : s.seen o = true := by
  have hcases : s.commandSeen c env = s.seen ∨ ∃ p, s.commandSeen c env = Function.update s.seen p false := by
    unfold State.commandSeen
    split
    · exact .inr ⟨_, rfl⟩
    · exact .inl rfl
  rcases hcases with heq | ⟨p, heq⟩
  · rwa [heq] at h
  · rw [heq] at h
    by_cases ho : o = p
    · subst ho
      simp at h
    · rwa [Function.update_of_ne ho] at h

/-- The windows and the outputs that are seen, but for `loriePublishOutputs` and windows that are destroyed -/
theorem step_windows (h : step s a = some t) (hpublish : a ≠ .publish) (hdestroy : ∀ w, a ≠ .destroyWindow w) :
    (∀ o, t.seen o = true → s.seen o = true) ∧ ∀ w, w ∈ s.windows → w ∈ t.windows := by
  cases a with
  | createWindow w =>
    simp only [step] at h
    split at h
    · cases h
      exact ⟨fun _ ho => ho, fun _ hw => List.mem_cons_of_mem _ hw⟩
    · cases h
  | destroyWindow w => exact absurd rfl (hdestroy w)
  | serverConnect =>
    cases h
    exact ⟨fun _ ho => ho, fun _ hw => hw⟩
  | receive c e =>
    simp only [step] at h
    split at h
    · cases h
      exact ⟨fun _ ho => ho, fun _ hw => hw⟩
    · cases h
  | error =>
    simp only [step] at h
    split at h
    · cases h
      exact ⟨fun _ ho => ho, fun _ hw => hw⟩
    · cases h
  | work env exported =>
    simp only [step] at h
    split at h
    · cases h
    split at h
    · rename_i w ws _ _
      cases h
      cases w with
      | command c e =>
        simp only [State.perform, State.lorieOutputCommand]
        split
        · exact ⟨fun _ ho => commandSeen_le ho, fun _ hw => hw⟩
        · exact ⟨fun _ ho => ho, fun _ hw => hw⟩
      | lost generation =>
        obtain ⟨-, -, hs, hw⟩ := endExport_quiet { s with work := ws } exported
        simp only [State.perform]
        split
        · dsimp only
          rw [hs, hw]
          exact ⟨fun _ ho => ho, fun _ hw => hw⟩
        · exact ⟨fun _ ho => ho, fun _ hw => hw⟩
      | connect =>
        obtain ⟨-, -, hs, hw⟩ := endExport_quiet { s with work := ws } exported
        simp only [State.perform, State.lorieResetOutputs]
        rw [hs, hw]
        exact ⟨fun _ ho => ho, fun _ hw => hw⟩
    · cases h
  | releaseButton id window button =>
    cases h
    exact ⟨fun _ ho => ho, fun _ hw => hw⟩
  | publish => exact absurd rfl hpublish
  | closeInput =>
    cases h
    exact ⟨fun _ ho => ho, fun _ hw => hw⟩
  | closeScreen =>
    cases h
    exact ⟨fun _ ho => ho, fun _ hw => hw⟩

theorem present_iff {o : Nat} : s.present o = true ↔ (s.node o).window = 0 ∨ (s.node o).window ∈ s.windows := by
  unfold State.present State.hasWindow
  simp

/-- An output that is seen keeps its window or dies. -/
theorem Seen.step (hseen : Seen s) (h : step s a = some t) (hf : Formed s.leases) : Seen t := by
  obtain ⟨calloc, hchanges, hfresh⟩ := step_changes h hf hseen
  intro o ho hd hs
  rcases hchanges.survivor ho hd with hnew | ⟨ho', hd', hident⟩
  · rw [hfresh o hnew] at hs
    cases hs
  have hwindow : (t.node o).window = (s.node o).window := window_of_ident hident
  have hbefore : s.seen o = true → (s.node o).window = 0 ∨ (s.node o).window ∈ s.windows :=
    fun hs => present_iff.1 (hseen o ho' hd' hs)
  rw [present_iff, hwindow]
  by_cases hpublish : a = .publish
  · subst hpublish
    cases h
    simp only [State.loriePublishOutputs, Bool.or_eq_true, Bool.and_eq_true] at hs
    rcases hs with hs | ⟨-, hp⟩
    · exact hbefore hs
    · exact present_iff.1 hp
  by_cases hdestroy : ∃ w, a = .destroyWindow w
  · obtain ⟨w, rfl⟩ := hdestroy
    simp only [Registry.step] at h
    split at h
    · cases h
      have hkilled := (destroyed_nodes w s.leases.selections s.leases).2 o
      have hdead : ((s.destroyWindow w).node o).dead = false := hd
      have hw : (s.node o).window ≠ w := by
        intro e
        have : ((s.destroyWindow w).node o).dead = true := hkilled.2.2.2.trans (by
          have hm : o ∈ s.leases.selections := ho'
          have he : (s.leases.heap o).window = w := e
          simp [hm, he])
        rw [hdead] at this
        cases this
      exact (hbefore hs).imp_right fun hmem => (List.mem_erase_of_ne hw).2 hmem
    · cases h
  · obtain ⟨hle, hkeep⟩ := step_windows h hpublish fun w hw => hdestroy ⟨w, hw⟩
    exact (hbefore (hle o hs)).imp_right (hkeep _)

end Steps

/-! ## Runs of the registry -/

/-- The invariant of every run -/
structure WellFormed (s : State) : Prop where
  formed : Formed s.leases
  seen : Seen s

theorem WellFormed.init : WellFormed State.init where
  formed :=
    { nodup := List.nodup_nil
      nonzero := by simp [State.init, Leases.State.init]
      distinct := by simp [State.init, Leases.State.init, Distinct]
      parent := by simp [State.init, Leases.State.init]
      single := by simp [State.init, Leases.State.init] }
  seen := by simp [State.init, Leases.State.init, Seen]

theorem WellFormed.step {s t : State} {a : Action} (hs : WellFormed s) (h : step s a = some t) : WellFormed t := by
  obtain ⟨calloc, hchanges, -⟩ := step_changes h hs.formed hs.seen
  exact ⟨hchanges.formed hs.formed, hs.seen.step h hs.formed⟩

theorem wellFormed {s : State} (h : Reach step Free State.init s) : WellFormed s :=
  h.invariant .init fun _ _ _ hs _ ht => hs.step ht

/-- **The registry is well formed** in every reachable state: the ids of the outputs are nonzero and distinct; a live
output with a parent has exactly one live output with that id, which is neither a shell output nor a dependent and selects
the same window, not the root; and an output has at most one live dependent. -/
theorem registry_formed {s : State} (h : Reach step Free State.init s) :
    (s.leases.selections.map fun p => (s.node p).id).Nodup ∧ (∀ p ∈ s.leases.selections, (s.node p).id ≠ 0) ∧
    (∀ p ∈ s.leases.selections, (s.node p).dead = false → (s.node p).parent ≠ 0 →
      (∃! q, q ∈ s.leases.selections ∧ (s.node q).dead = false ∧ (s.node q).id = (s.node p).parent) ∧
      ∀ q ∈ s.leases.selections, (s.node q).id = (s.node p).parent →
        (s.node q).dead = false ∧ (s.node q).shell = false ∧ (s.node q).parent = 0 ∧
          (s.node q).window = (s.node p).window ∧ (s.node p).window ≠ 0) ∧
    ∀ o ∈ s.leases.selections, ∀ p ∈ s.leases.selections, ∀ q ∈ s.leases.selections,
      (s.node p).dead = false → (s.node q).dead = false → (s.node p).parent = (s.node o).id →
      (s.node q).parent = (s.node o).id → p = q := by
  have hf := (wellFormed h).formed
  refine ⟨?_, hf.nonzero, fun p hp hd hparent => ?_, hf.single⟩
  · rw [List.nodup_map_iff_inj_on hf.nodup]
    exact fun p hp q hq heq => hf.distinct p hp q hq heq
  · obtain ⟨hw, q, hq, hqid, hqd, hqb, hqw⟩ := hf.parent p hp hd hparent
    have huniq : ∀ r ∈ s.leases.selections, (s.node r).id = (s.node p).parent → r = q :=
      fun r hr hid => hf.distinct r hr q hq (hid.trans hqid.symm)
    refine ⟨⟨q, ⟨hq, hqd, hqid⟩, fun r hr => huniq r hr.1 hr.2.2⟩, fun r hr hid => ?_⟩
    rw [huniq r hr hid]
    exact ⟨hqd, (parent_of_borrowed hqb).1, (parent_of_borrowed hqb).2, hqw, hw⟩

/-- A command for an output -/
def outputCommand (operation : Operation) (output window : Nat) (x y : Int) (detail : Nat) : Command :=
  ⟨operation, true, output, window, x, y, detail, 0, ⟨0, 0, 0, 0⟩⟩

/-- The host sends a command without direct input, and the X thread takes it. -/
def command (c : Command) (calloc : Option Nat) : List Action :=
  [.receive c ⟨c.operation, c.detail, none, none, none, 0, 0, 0, false⟩,
    .work ⟨true, true, fun _ => false, calloc, Leases.oneKeyTyping false⟩ none]

/-- The host connects. -/
def connect : List Action := [.serverConnect, .work ⟨true, true, fun _ => false, none, Leases.oneKeyTyping false⟩ none]

/-- An output of a window lends it to a second one, which the host binds twice. -/
def lentWindow : List Action :=
  .createWindow 100 :: connect ++ command (outputCommand .bind 1 100 0 0 0) (some 10) ++
    command (outputCommand .bind 2 100 1 0 2) (some 20) ++ command (outputCommand .bind 2 100 1 0 2) (some 30)

theorem registry_formed_lent : ∃ s, exec step State.init lentWindow = some s ∧ s.leases.selections = [10, 30] ∧
    (s.node 30).dead = false ∧ (s.node 30).parent = 1 ∧
    ∃! q, q ∈ s.leases.selections ∧ (s.node q).dead = false ∧ (s.node q).id = 1 := by
  have hrun : (exec step State.init lentWindow).map (fun s => decide (s.leases.selections = [10, 30] ∧
      (s.node 30).dead = false ∧ (s.node 30).parent = 1)) = some true := by decide +kernel
  obtain ⟨s, hs, hstate⟩ := Option.map_eq_some_iff.1 hrun
  obtain ⟨hsel, hdead, hparent⟩ := of_decide_eq_true hstate
  obtain ⟨-, -, hlent, -⟩ := registry_formed (.of_exec lentWindow hs)
  have := (hlent 30 (by rw [hsel]; decide) hdead (by rw [hparent]; decide)).1
  rw [hparent] at this
  exact ⟨s, hs, hsel, hdead, hparent, this⟩

end Lorie.Outputs.Registry
