import Lorie.Outputs.SizeOwner

/-!
# What an output holds when it goes

An output holds keys, buttons, touch contacts and a tablet in proximity. When it dies they are released at once, because the
commands of a dead output are dropped; when the connection is lost they are released with the work of the lost connection.
Two places forget it:

- the dependents of an output that is released or bound anew die in `releaseSelection` and keep what they hold;
- the work of `X_NOTIFY_ERROR` ends the data exchange, and no output is released until the host connects again.

`Strands` says when a step goes through one of them with an output that holds something; in every run without such a step
`dead_holds_nothing` says that nothing is kept, and `dependent_keeps_key` shows what happens otherwise.
-/

namespace Lorie.Outputs.Registry

open Lorie.Lib Leases
open DirectInput (Tool Contact Tablet)

/-! ## Direct input of an output -/

/-- Some contact or tablet belongs to the output. -/
def touching (d : DirectInput.State) (id : Nat) : Bool :=
  ((List.finRange 20).any fun i => (d.contacts i).output = id) || [Tool.pen, .eraser].any fun tool => (d.tablets tool).output = id

theorem touching_iff {d : DirectInput.State} {id : Nat} :
    touching d id = true ↔ (∃ i, (d.contacts i).output = id) ∨ ∃ tool, (d.tablets tool).output = id := by
  unfold touching
  rw [Bool.or_eq_true, List.any_eq_true, List.any_eq_true]
  constructor
  · rintro (⟨i, -, hi⟩ | ⟨tool, -, ht⟩)
    · exact .inl ⟨i, of_decide_eq_true hi⟩
    · exact .inr ⟨tool, of_decide_eq_true ht⟩
  · rintro (⟨i, hi⟩ | ⟨tool, ht⟩)
    · exact .inl ⟨i, List.mem_finRange i, decide_eq_true hi⟩
    · refine .inr ⟨tool, ?_, decide_eq_true ht⟩
      cases tool <;> simp

theorem touching_release {d : DirectInput.State} {output id : Nat} (ho : output ≠ 0) (hid : id ≠ 0) :
    touching (d.lorieDirectInputRelease output) id = true ↔ touching d id = true ∧ id ≠ output := by
  rw [DirectInput.release_eq ho, touching_iff, touching_iff]
  dsimp only
  constructor
  · rintro (⟨i, hi⟩ | ⟨tool, ht⟩)
    · split at hi
      · exact absurd hi.symm hid
      · rename_i hne
        exact ⟨.inl ⟨i, hi⟩, fun h => hne (hi.trans h)⟩
    · split at ht
      · exact absurd ht.symm hid
      · rename_i hne
        exact ⟨.inr ⟨tool, ht⟩, fun h => hne (ht.trans h)⟩
  · rintro ⟨⟨i, hi⟩ | ⟨tool, ht⟩, hne⟩
    · exact .inl ⟨i, by rw [if_neg (by rw [hi]; exact hne)]; exact hi⟩
    · exact .inr ⟨tool, by rw [if_neg (by rw [ht]; exact hne)]; exact ht⟩

/-- Some outputs are released. -/
theorem touching_releases {id : Nat} (hid : id ≠ 0) : ∀ (ids : List Nat) (d : DirectInput.State), (∀ o ∈ ids, o ≠ 0) →
    (touching (ids.foldl DirectInput.State.lorieDirectInputRelease d) id = true ↔ touching d id = true ∧ id ∉ ids)
  | [], d, _ => by simp
  | o :: ids, d, h => by
    rw [List.foldl_cons, touching_releases hid ids _ fun p hp => h p (List.mem_cons_of_mem _ hp),
      touching_release (h o List.mem_cons_self) hid, List.mem_cons, not_or, and_assoc]

/-- A contact that begins, moves or ends -/
theorem touching_touch {d : DirectInput.State} {output id : Nat} {event : DirectInput.Command} (hid : id ≠ 0)
    (h : touching (d.touch output event) id = true) : touching d id = true ∨ id = output := by
  have hset : ∀ (d : DirectInput.State) (i : Fin 20) (c : Contact) (es : List DirectInput.Queued),
      touching ((d.setContact i c).queue es) id = true → touching d id = true ∨ id = c.output := by
    intro d i c es h
    rw [touching_iff] at h ⊢
    rcases h with ⟨j, hj⟩ | ht
    · simp only [DirectInput.State.setContact, DirectInput.State.queue, Function.update_apply] at hj
      split at hj
      · exact .inr hj.symm
      · exact .inl (.inl ⟨j, hj⟩)
    · exact .inl (.inr ht)
  unfold DirectInput.State.touch at h
  split at h
  · exact .inl h
  dsimp only at h
  split at h
  · exact .inl h
  split at h
  · rcases hset _ _ _ [] h with h | h
    · exact hset _ _ _ _ h
    · exact absurd h hid
  · exact hset _ _ _ _ h

theorem touching_setTablet {d : DirectInput.State} {tool : Tool} {t : Tablet} {id : Nat}
    (h : touching (d.setTablet tool t) id = true) : touching d id = true ∨ id = t.output := by
  rw [touching_iff] at h ⊢
  rcases h with hc | ⟨u, hu⟩
  · exact .inl (.inl hc)
  · simp only [DirectInput.State.setTablet, Function.update_apply] at hu
    split at hu
    · exact .inr hu.symm
    · exact .inl (.inr ⟨u, hu⟩)

theorem touching_tabletRelease {d : DirectInput.State} {tool : Tool} {id : Nat} (hid : id ≠ 0)
    (h : touching (d.tabletRelease tool) id = true) : touching d id = true := by
  unfold DirectInput.State.tabletRelease at h
  rcases touching_setTablet h with h | h
  · split at h
    · exact h
    · exact h
  · exact absurd h hid

theorem touching_tablet {d : DirectInput.State} {output id : Nat} {event : DirectInput.Command} (hid : id ≠ 0)
    (h : touching (d.tablet output event) id = true) : touching d id = true ∨ id = output := by
  have hmove : ∀ (d : DirectInput.State) (tool : Tool) (buttons : BitVec 8),
      touching (d.tabletMove tool output buttons) id = true → touching d id = true ∨ id = output := by
    intro d tool buttons h
    unfold DirectInput.State.tabletMove at h
    rcases touching_setTablet h with h | h
    · split at h
      · exact .inl h
      · exact .inl h
    · exact .inr h
  have hrelease : ∀ (d : DirectInput.State) (P : Prop) [Decidable P] (tool : Tool),
      touching (if P then d.tabletRelease tool else d) id = true → touching d id = true := by
    intro d P _ tool h
    split at h
    · exact touching_tabletRelease hid h
    · exact h
  unfold DirectInput.State.tablet at h
  split at h
  · exact .inl h
  dsimp only at h
  generalize (if event.eraser = 1 then Tool.eraser else Tool.pen) = tool at h
  split at h
  · split at h
    · exact .inl (touching_tabletRelease hid h)
    · exact .inl h
  · rcases hmove _ _ _ h with h | h
    · exact .inl (hrelease _ _ _ (hrelease _ _ _ h))
    · exact .inr h

/-- `lorieDirectInput` gives contacts and tablets to its own output only. -/
theorem touching_input {d : DirectInput.State} {output id : Nat} {event : DirectInput.Command} {screen : Bool} (hid : id ≠ 0)
    (h : touching (d.lorieDirectInput output event screen) id = true) : touching d id = true ∨ id = output := by
  unfold DirectInput.State.lorieDirectInput at h
  split at h
  · exact .inl h
  split at h
  · exact .inl h
  split at h
  · exact touching_touch hid h
  · exact touching_tablet hid h
  · exact .inl h

/-! ## Keys and buttons -/

/-- No node gets a key or button. -/
def Falling (s t : Leases.State) : Prop := ∀ p i, (t.heap p).holds i = true → (s.heap p).holds i = true

namespace Falling

variable {s t u : Leases.State}

theorem refl (s : Leases.State) : Falling s s := fun _ _ h => h

theorem trans (h : Falling s t) (h' : Falling t u) : Falling s u := fun p i hi => h p i (h' p i hi)

theorem of_same (h : SameLeases s t) : Falling s t := fun p i hi => by rwa [h.holds] at hi

end Falling

theorem outputInput_other {s : Leases.State} {o p : Nat} {i : Input} {down : Bool} (hp : p ≠ o) :
    (s.outputInput o i down).heap p = s.heap p := by
  unfold Leases.State.outputInput
  dsimp only
  split
  · rfl
  · split <;> simp [Leases.State.modify, hp]

theorem release_falling (s : Leases.State) (o : Nat) {i : Input} (hi : i.Valid) : Falling s (s.outputInput o i false) := by
  intro p j hj
  by_cases hp : p = o
  · subst hp
    rw [outputInput_holds hi] at hj
    split at hj
    · cases hj
    · exact hj
  · rwa [outputInput_other hp] at hj

theorem foldl_release_falling (o : Nat) :
    ∀ (is : List Input) (s : Leases.State), (∀ i ∈ is, i.Valid) → Falling s (is.foldl (fun s i => s.outputInput o i false) s)
  | [], s, _ => .refl s
  | i :: is, s, h =>
    (release_falling s o (h i List.mem_cons_self)).trans
      (foldl_release_falling o is _ fun j hj => h j (List.mem_cons_of_mem _ hj))

theorem releaseInput_falling (s : Leases.State) (o : Nat) : Falling s (s.releaseInput o) :=
  foldl_release_falling o _ s fun _ => valid_of_mem_inputs

theorem foldl_falling {f : Leases.State → Nat → Leases.State} (hf : ∀ s o, Falling s (f s o)) :
    ∀ (os : List Nat) (s : Leases.State), Falling s (os.foldl f s)
  | [], s => .refl s
  | o :: os, s => (hf s o).trans (foldl_falling hf os _)

theorem releaseSelection_falling (s : Leases.State) (o : Nat) : Falling s (s.releaseSelection o) := by
  obtain ⟨t, ht⟩ : ∃ t, t = s.each fun other =>
    let other := if other.id = (s.heap o).parent then { other with changed := true, geometryPending := true } else other
    if other.parent = (s.heap o).id then { other with dead := true, changed := true } else other := ⟨_, rfl⟩
  have hsame : SameLeases s t := by
    rw [ht]
    apply SameLeases.each
    intro x i
    dsimp only
    split <;> split <;> cases i <;> rfl
  have heq : s.releaseSelection o = (t.releaseInput o).inheritSize o := by
    rw [ht]
    rfl
  rw [heq]
  exact (Falling.of_same hsame).trans ((releaseInput_falling t o).trans (.of_same (.inheritSize _ o)))

theorem kill_falling (s : Leases.State) (o : Nat) :
    Falling s ((s.releaseInput o).modify o fun x => { x with dead := true, changed := true }) :=
  (releaseInput_falling s o).trans (.of_same (.modify _ o fun x i => by cases i <;> rfl))

theorem windowDestroyed_falling (s : Leases.State) (w : Nat) : Falling s (s.lorieOutputWindowDestroyed w) := by
  refine foldl_falling (fun s o => ?_) s.selections s
  split
  · exact kill_falling s o
  · exact .refl s

theorem reset_falling (s : Leases.State) : Falling s s.lorieResetOutputs :=
  foldl_falling (f := fun s o => Leases.State.releaseSelection { s with selections := s.selections.tail } o)
    (fun s o => releaseSelection_falling { s with selections := s.selections.tail } o) s.selections s

theorem releaseButton_falling (s : Leases.State) (id window button : Nat) :
    Falling s (s.lorieReleaseOutputButton id window button) := by
  unfold Leases.State.lorieReleaseOutputButton
  split
  · exact .refl s
  · rename_i hb
    split
    · exact release_falling s _ (i := .button button) ⟨by omega, by omega⟩
    · exact .refl s

/-- Which keys and buttons a node may hold. -/
def ValidHolds (s : Leases.State) : Prop := ∀ p i, (s.heap p).holds i = true → i.Valid

theorem releaseInput_clear {s : Leases.State} (hs : ValidHolds s) (o : Nat) (i : Input) :
    ((s.releaseInput o).heap o).holds i = false := by
  by_cases hi : i.Valid
  · exact releaseInput_holds s o hi
  · rw [Bool.eq_false_iff]
    exact fun h => hi (hs o i (releaseInput_falling s o o i h))

/-- The selections of a destroyed window hold nothing. -/
theorem windowDestroyed_clear (w : Nat) : ∀ (os : List Nat) (s : Leases.State), ValidHolds s → ∀ p ∈ os,
    (s.heap p).window = w → ∀ i, ((os.foldl (fun s o =>
      if (s.heap o).window = w then (s.releaseInput o).modify o fun x => { x with dead := true, changed := true } else s)
      s).heap p).holds i = false
  | [], s, _, p, hp, _, _ => by cases hp
  | o :: os, s, hs, p, hp, hw, i => by
    obtain ⟨r, hr⟩ : ∃ r, r = (if (s.heap o).window = w then
      (s.releaseInput o).modify o fun x => { x with dead := true, changed := true } else s) := ⟨_, rfl⟩
    have hfall : Falling s r := by
      rw [hr]
      split
      · exact kill_falling s o
      · exact .refl s
    have hrest : ∀ (s : Leases.State), Falling s (os.foldl (fun s o =>
        if (s.heap o).window = w then (s.releaseInput o).modify o fun x => { x with dead := true, changed := true } else s)
        s) := by
      refine foldl_falling (fun s o => ?_) os
      split
      · exact kill_falling s o
      · exact .refl s
    rw [List.foldl_cons, ← hr]
    by_cases hpo : p = o
    · -- the selection itself
      have hclear : (r.heap p).holds i = false := by
        rw [hpo] at hw ⊢
        rw [hr, if_pos hw]
        have hsame := SameLeases.modify (s.releaseInput o) o (f := fun x => { x with dead := true, changed := true })
          fun x i => by cases i <;> rfl
        rw [hsame.holds]
        exact releaseInput_clear hs o i
      rw [Bool.eq_false_iff]
      intro h
      rw [hrest r p i h] at hclear
      cases hclear
    · have hmem := (List.mem_cons.1 hp).resolve_left hpo
      refine windowDestroyed_clear w os r (fun q j hj => hs q j (hfall q j hj)) p hmem ?_ i
      rw [hr]
      split
      · rw [modify_heap, if_neg hpo, window_of_ident ((Quiet.releaseInput s o).ident p)]
        exact hw
      · exact hw

/-! ## What strands -/

namespace State

variable (s : State)

/-- The output holds a key, a button, a contact or a tablet. -/
def holding (p : Nat) : Bool := (s.node p).keys ≠ 0 || (s.node p).buttons ≠ 0 || touching s.direct (s.node p).id

/-- The output holds more than the export that ends gives up. -/
def keeping (exported : Option (Nat × Nat)) (p : Nat) : Bool :=
  s.holding p && ((s.node p).keys ≠ 0 || (s.node p).buttons &&& ~~~2 ≠ 0 || exported ≠ some ((s.node p).id, (s.node p).window))

/-- The step forgets what an output holds: an output is released while a dependent of it holds something, or the work of the
lost connection runs while an output holds more than the button of the export. -/
def Strands : Action → Bool
  | .work env exported =>
    match s.work with
    | .command c _ :: _ =>
      match s.found? c.output, c.operation with
      | some o, .release | some o, .bind =>
        env.screen && s.leases.selections.any fun p => p ≠ o && (s.node p).parent = (s.node o).id && s.holding p
      | _, _ => false
    | .lost generation :: _ => generation = s.dataConnection && s.leases.selections.any (s.keeping exported)
    | _ => false
  | _ => false

end State

theorem holding_iff {s : State} {p : Nat} :
    s.holding p = false ↔ (∀ i, (s.node p).holds i = false) ∧ touching s.direct (s.node p).id = false := by
  unfold State.holding
  simp only [Bool.or_eq_false_iff, decide_eq_false_iff_not, Decidable.not_not]
  refine ⟨fun ⟨⟨hk, hb⟩, ht⟩ => ⟨fun i => ?_, ht⟩, fun ⟨hi, ht⟩ => ⟨⟨?_, ?_⟩, ht⟩⟩
  · cases i with
    | key code =>
      simp only [OutputSelection.holds, hk]
      exact BitVec.getLsbD_zero
    | button number =>
      simp only [OutputSelection.holds, hb]
      exact BitVec.getLsbD_zero
  · refine BitVec.eq_of_getLsbD_eq fun code _ => ?_
    have := hi (.key code)
    simpa [OutputSelection.holds] using this
  · refine BitVec.eq_of_getLsbD_eq fun number _ => ?_
    have := hi (.button number)
    simpa [OutputSelection.holds] using this

/-! ## Nothing kept -/

/-- Dead outputs hold nothing; contacts and tablets belong to live outputs. -/
structure Tidy (s : Leases.State) (d : DirectInput.State) : Prop where
  valid : ValidHolds s
  dead : ∀ p ∈ s.selections, (s.heap p).dead = true → ∀ i, (s.heap p).holds i = false
  direct : ∀ id ≠ 0, touching d id = true → ∃ p ∈ s.selections, (s.heap p).id = id ∧ (s.heap p).dead = false

namespace Tidy

variable {s t : Leases.State} {d e : DirectInput.State}

/-- Nothing is pressed; what dies holds nothing, and the contacts and tablets of what is not live any more end. -/
theorem of_falling (h : Tidy s d) (hfall : Falling s t) (htouch : ∀ id ≠ 0, touching e id = true → touching d id = true)
    (hdead : ∀ p ∈ t.selections, (t.heap p).dead = true →
      (p ∈ s.selections ∧ (s.heap p).dead = true) ∨ ∀ i, (t.heap p).holds i = false)
    (hgone : ∀ p ∈ s.selections, (s.heap p).dead = false →
      (p ∈ t.selections ∧ (t.heap p).id = (s.heap p).id ∧ (t.heap p).dead = false) ∨
        touching e (s.heap p).id = false) : Tidy t e := by
  refine ⟨fun p i hi => h.valid p i (hfall p i hi), fun p hp hd i => ?_, fun id hid htouching => ?_⟩
  · rcases hdead p hp hd with ⟨hps, hds⟩ | hclear
    · rw [Bool.eq_false_iff]
      intro hi
      have := h.dead p hps hds i
      rw [hfall p i hi] at this
      cases this
    · exact hclear i
  · obtain ⟨p, hp, hpid, hpd⟩ := h.direct id hid (htouch id hid htouching)
    rcases hgone p hp hpd with ⟨hpt, hid', hdt⟩ | hfree
    · exact ⟨p, hpt, hid'.trans hpid, hdt⟩
    · rw [hpid, htouching] at hfree
      cases hfree

/-- Only keys, buttons, contacts and tablets are released. -/
theorem of_quiet (h : Tidy s d) (hq : Quiet s t) (hfall : Falling s t)
    (htouch : ∀ id ≠ 0, touching e id = true → touching d id = true) : Tidy t e := by
  refine h.of_falling hfall htouch (fun p hp hd => .inl ?_) fun p hp hd => .inl ?_
  · rw [hq.selections] at hp
    rw [hq.dead] at hd
    exact ⟨hp, hd⟩
  · rw [hq.selections, hq.dead, id_of_ident (hq.ident p)]
    exact ⟨hp, rfl, hd⟩

/-- A selection is unlinked and released, and no dependent of it holds anything. -/
theorem drop (h : Tidy s d) (hf : Formed s) {before after : List Nat} {o : Nat} (hsel : s.selections = before ++ o :: after)
    (hr : Released { s with selections := before ++ after } t o) (hfall : Falling s t)
    (hstrand : ∀ p ∈ s.selections, p ≠ o → (s.heap p).parent = (s.heap o).id →
      (∀ i, (s.heap p).holds i = false) ∧ touching d (s.heap p).id = false) :
    Tidy t (d.lorieDirectInputRelease (s.heap o).id) := by
  have ho : o ∈ s.selections := by
    rw [hsel]
    exact List.mem_append_right _ List.mem_cons_self
  have hid := hf.nonzero o ho
  have hmem : ∀ p ∈ before ++ after, p ∈ s.selections ∧ p ≠ o := by
    intro p hp
    refine ⟨by rw [hsel]; exact mem_of_unlinked hp, fun e => ?_⟩
    have hnodup := hf.nodup
    rw [hsel, List.nodup_middle, List.nodup_cons] at hnodup
    exact hnodup.1 (e ▸ hp)
  have hdead : ∀ p ∈ before ++ after, (t.heap p).dead = ((s.heap p).dead || (s.heap p).parent = (s.heap o).id) := by
    intro p hp
    have := hr.dead p
    simpa only [hp, decide_true, Bool.true_and] using this
  refine h.of_falling hfall (fun id h0 ht => ((touching_release hid h0).1 ht).1) (fun p hp hd => ?_) fun p hp hd => ?_
  · rw [hr.selections] at hp
    obtain ⟨hps, hpo⟩ := hmem p hp
    rw [hdead p hp, Bool.or_eq_true, decide_eq_true_eq] at hd
    rcases hd with hd | hparent
    · exact .inl ⟨hps, hd⟩
    · right
      intro i
      rw [Bool.eq_false_iff]
      intro hi
      have := (hstrand p hps hpo hparent).1 i
      rw [hfall p i hi] at this
      cases this
  · by_cases hpo : p = o
    · right
      rw [hpo, Bool.eq_false_iff]
      exact fun ht => ((touching_release hid hid).1 ht).2 rfl
    by_cases hparent : (s.heap p).parent = (s.heap o).id
    · right
      rw [Bool.eq_false_iff]
      intro ht
      have := ((touching_release hid (hf.nonzero p hp)).1 ht).1
      rw [(hstrand p hp hpo hparent).2] at this
      cases this
    · left
      have hpl : p ∈ before ++ after := by
        rw [hsel] at hp
        exact mem_unlinked hp hpo
      refine ⟨by rw [hr.selections]; exact hpl, id_of_ident (hr.ident p), ?_⟩
      rw [hdead p hpl, hd]
      simp [hparent]

/-- A new selection. -/
theorem create (h : Tidy s d) {before after : List Nat} {o : Nat} {c : Command} (hsel : s.selections = before ++ after)
    (ho : o ∉ s.selections) :
    Tidy { s with heap := Function.update s.heap o (Leases.State.newSelection c), selections := before ++ o :: after } d := by
  have hzero : ∀ i, (Leases.State.newSelection c).holds i = false := by
    intro i
    cases i <;> simp [Leases.State.newSelection, OutputSelection.zero, OutputSelection.holds]
  refine ⟨fun p i hi => ?_, fun p hp hd i => ?_, fun id hid ht => ?_⟩
  · dsimp only at hi
    by_cases hp : p = o
    · rw [hp, Function.update_self, hzero] at hi
      cases hi
    · rw [Function.update_of_ne hp] at hi
      exact h.valid p i hi
  · dsimp only at hp hd ⊢
    by_cases hpo : p = o
    · rw [hpo, Function.update_self]
      exact hzero i
    · rw [Function.update_of_ne hpo] at hd ⊢
      refine h.dead p ?_ hd i
      rw [hsel]
      exact mem_unlinked hp hpo
  · obtain ⟨p, hp, hpid, hpd⟩ := h.direct id hid ht
    have hpo : p ≠ o := fun e => ho (e ▸ hp)
    refine ⟨p, ?_, ?_, ?_⟩
    · rw [hsel] at hp
      exact mem_of_unlinked hp
    · dsimp only
      rw [Function.update_of_ne hpo]
      exact hpid
    · dsimp only
      rw [Function.update_of_ne hpo]
      exact hpd

theorem bind (h : Tidy s d) {c : Command} {env : Leases.Env} {before after : List Nat} (hsel : s.selections = before ++ after)
    (hnew : ∀ o ∈ env.calloc, o ∉ s.selections) : Tidy (s.bind c env before after) d := by
  have hcreate : ∀ (s : Leases.State), Tidy s d → s.selections = before ++ after → (∀ o ∈ env.calloc, o ∉ s.selections) →
      Tidy (s.create c env before after) d := by
    intro s h hsel hnew
    unfold Leases.State.create
    split
    · exact h
    · rename_i o ho
      exact h.create hsel (hnew o ho)
  unfold Leases.State.bind
  split
  · exact h
  split
  · split
    · exact h
    · exact hcreate s h hsel hnew
  · rename_i p _
    split
    · split
      · exact h
      · refine hcreate _ (h.of_quiet (.modify s p fun _ => rfl) (.of_same (.modify s p fun x i => by cases i <;> rfl))
          fun _ _ ht => ht) hsel hnew
    · exact hcreate s h hsel hnew

/-- A live output gets keys, buttons, contacts and tablets. -/
theorem of_alive (h : Tidy s d) {o : Nat} (ho : o ∈ s.selections) (hd : (s.heap o).dead = false)
    (hsel : t.selections = s.selections) (hident : ∀ p, ident (t.heap p) = ident (s.heap p))
    (hdead : ∀ p, (t.heap p).dead = (s.heap p).dead)
    (hholds : ∀ p i, (t.heap p).holds i = true → (s.heap p).holds i = true ∨ p = o ∧ i.Valid)
    (htouch : ∀ id ≠ 0, touching e id = true → touching d id = true ∨ id = (s.heap o).id) : Tidy t e := by
  refine ⟨fun p i hi => ?_, fun p hp hpd i => ?_, fun id hid ht => ?_⟩
  · rcases hholds p i hi with hi | ⟨-, hi⟩
    · exact h.valid p i hi
    · exact hi
  · rw [hsel] at hp
    rw [hdead] at hpd
    rw [Bool.eq_false_iff]
    intro hi
    rcases hholds p i hi with hi | ⟨rfl, -⟩
    · have := h.dead p hp hpd i
      rw [hi] at this
      cases this
    · rw [hd] at hpd
      cases hpd
  · rw [hsel]
    rcases htouch id hid ht with ht | rfl
    · obtain ⟨p, hp, hpid, hpd⟩ := h.direct id hid ht
      exact ⟨p, hp, (id_of_ident (hident p)).trans hpid, (hdead p).trans hpd⟩
    · exact ⟨o, ho, id_of_ident (hident o), (hdead o).trans hd⟩

end Tidy

/-! ## Commands -/

/-- The same outputs, with the same keys and buttons. -/
structure Kept (s t : Leases.State) : Prop where
  same : SameLeases s t
  ident : ∀ p, ident (t.heap p) = ident (s.heap p)
  dead : ∀ p, (t.heap p).dead = (s.heap p).dead

namespace Kept

theorem trans {s t u : Leases.State} (h : Kept s t) (h' : Kept t u) : Kept s u :=
  ⟨h.same.trans h'.same, fun p => (h'.ident p).trans (h.ident p), fun p => (h'.dead p).trans (h.dead p)⟩

theorem modify (s : Leases.State) (o : Nat) {f : OutputSelection → OutputSelection}
    (hf : ∀ x, (∀ i, (f x).holds i = x.holds i) ∧ Registry.ident (f x) = Registry.ident x ∧ (f x).dead = x.dead) :
    Kept s (s.modify o f) := by
  refine ⟨.modify s o fun x => (hf x).1, fun p => ?_, fun p => ?_⟩
  · rw [modify_heap]
    split
    · rename_i hp
      rw [hp]
      exact (hf _).2.1
    · rfl
  · rw [modify_heap]
    split
    · rename_i hp
      rw [hp]
      exact (hf _).2.2
    · rfl

theorem each (s : Leases.State) {f : OutputSelection → OutputSelection}
    (hf : ∀ x, (∀ i, (f x).holds i = x.holds i) ∧ Registry.ident (f x) = Registry.ident x ∧ (f x).dead = x.dead) :
    Kept s (s.each f) := by
  refine ⟨.each s fun x => (hf x).1, fun p => ?_, fun p => ?_⟩
  · simp only [Leases.State.each]
    split
    · exact (hf _).2.1
    · rfl
  · simp only [Leases.State.each]
    split
    · exact (hf _).2.2
    · rfl

end Kept

/-- The operations on a selection that keep it -/
theorem operate_kept {s : Leases.State} {c : Command} {env : Leases.Env} {o : Nat}
    (hshell : ¬((s.heap o).shell ∧ !env.shellWindow (s.heap o).window)) :
    (s.operate c env o).selections = s.selections ∧ (∀ p, ident ((s.operate c env o).heap p) = ident (s.heap p)) ∧
      (∀ p, ((s.operate c env o).heap p).dead = (s.heap p).dead) ∧
      ∀ p i, ((s.operate c env o).heap p).holds i = true → (s.heap p).holds i = true ∨ p = o ∧ i.Valid := by
  have hquiet : ∀ {t : Leases.State}, Quiet s t → Falling s t → t.selections = s.selections ∧
      (∀ p, ident (t.heap p) = ident (s.heap p)) ∧ (∀ p, (t.heap p).dead = (s.heap p).dead) ∧
      ∀ p i, (t.heap p).holds i = true → (s.heap p).holds i = true ∨ p = o ∧ i.Valid :=
    fun hq hf => ⟨hq.selections, hq.ident, hq.dead, fun p i hi => .inl (hf p i hi)⟩
  have hinput : ∀ (i : Input) (down : Bool), i.Valid → (s.outputInput o i down).selections = s.selections ∧
      (∀ p, ident ((s.outputInput o i down).heap p) = ident (s.heap p)) ∧
      (∀ p, ((s.outputInput o i down).heap p).dead = (s.heap p).dead) ∧
      ∀ p j, ((s.outputInput o i down).heap p).holds j = true → (s.heap p).holds j = true ∨ p = o ∧ j.Valid := by
    intro i down hi
    have hq := Quiet.outputInput s o i down
    refine ⟨hq.selections, hq.ident, hq.dead, fun p j hj => ?_⟩
    by_cases hp : p = o
    · subst hp
      rw [outputInput_holds hi] at hj
      split at hj
      · rename_i hji
        exact .inr ⟨rfl, hji ▸ hi⟩
      · exact .inl hj
    · rw [outputInput_other hp] at hj
      exact .inl hj
  obtain ⟨t, ht⟩ : ∃ t, t = s.operate c env o := ⟨_, rfl⟩
  rw [← ht]
  unfold Leases.State.operate at ht
  rw [if_neg hshell] at ht
  dsimp only at ht
  split at ht
  · split at ht
    · rw [ht]
      exact hquiet (.refl s) (.refl s)
    · rw [ht]
      exact hquiet (.modify s o fun _ => rfl) (.of_same (.modify s o fun x i => by cases i <;> rfl))
  · split at ht
    · rw [ht]
      exact hquiet (.refl s) (.refl s)
    · -- the size: no key or button changes
      have hkept : ∀ {t : Leases.State}, Kept s t → t.selections = s.selections ∧
          (∀ p, ident (t.heap p) = ident (s.heap p)) ∧ (∀ p, (t.heap p).dead = (s.heap p).dead) ∧
          ∀ p i, (t.heap p).holds i = true → (s.heap p).holds i = true ∨ p = o ∧ i.Valid :=
        fun h => ⟨h.same.selections, h.ident, h.dead, fun p i hi => .inl (by rwa [h.same.holds] at hi)⟩
      have hsize : Kept s (s.modify o fun x => { x with width := c.x, height := c.y, resizePending := true }) :=
        .modify s o fun x => ⟨fun i => by cases i <;> rfl, rfl, rfl⟩
      split at ht
      · rw [ht]
        exact hkept hsize
      · rw [ht]
        refine hkept ((hsize.trans (.each _ fun x => ?_)).trans (.modify _ o fun x => ?_))
        · split
          · exact ⟨fun i => by cases i <;> rfl, rfl, rfl⟩
          · exact ⟨fun _ => rfl, rfl, rfl⟩
        · exact ⟨fun i => by cases i <;> rfl, rfl, rfl⟩
  · split at ht
    · rw [ht]
      exact hquiet (.refl s) (.refl s)
    split at ht
    · rw [ht]
      exact hquiet (.releaseInput s o) (releaseInput_falling s o)
    · split at ht
      · rename_i hb
        rw [ht]
        exact hinput (.button c.detail) c.down hb
      · rw [ht]
        exact hquiet (.refl s) (.refl s)
    · split at ht
      · rename_i hk
        rw [ht]
        exact hinput (.key c.detail) c.down hk
      · rw [ht]
        exact hquiet (.refl s) (.refl s)
    · rw [ht]
      exact hquiet (.queueKeys s _) fun _ _ hi => hi
    · rw [ht]
      exact hquiet (.refl s) (.refl s)

/-- The direct input of an operation on a selection that is kept -/
theorem operateDirect_touch {s : State} {c : Command} {e : DirectInput.Command} {env : Env} {output : OutputSelection}
    (hid : output.id ≠ 0) : ∀ id ≠ 0, touching (s.operateDirect c e env output) id = true →
      touching s.direct id = true ∨ id = output.id := by
  intro id h0 h
  unfold State.operateDirect at h
  split at h
  · exact .inl ((touching_release hid h0).1 h).1
  split at h
  · exact .inl h
  · exact .inl h
  split at h
  · exact .inl h
  split at h
  · exact .inl ((touching_release hid h0).1 h).1
  · exact .inl ((touching_release hid h0).1 h).1
  · split at h
    · exact touching_input h0 h
    · exact .inl h
  · split at h
    · exact touching_input h0 h
    · exact .inl h
  · exact .inl h

/-- An operation on a live output -/
theorem Tidy.operate {s : State} (h : Tidy s.leases s.direct) (hf : Formed s.leases) {c : Command} {e : DirectInput.Command}
    {env : Env} {o : Nat} (ho : o ∈ s.leases.selections) (hd : (s.node o).dead = false) :
    Tidy (s.leases.operate c (s.leasesEnv env) o) (s.operateDirect c e env (s.node o)) := by
  have hid : (s.node o).id ≠ 0 := hf.nonzero o ho
  by_cases hshell : (s.node o).shell ∧ !env.shellWindow (s.node o).window
  · -- a shell output dies
    have hdirect : s.operateDirect c e env (s.node o) = s.direct.lorieDirectInputRelease (s.node o).id := by
      unfold State.operateDirect
      rw [if_pos hshell]
    have hoperate : s.leases.operate c (s.leasesEnv env) o =
        (s.leases.releaseInput o).modify o fun x => { x with dead := true, changed := true } := by
      unfold Leases.State.operate
      exact if_pos hshell
    have hquiet := Quiet.releaseInput s.leases o
    have hsame : SameLeases (s.leases.releaseInput o)
        ((s.leases.releaseInput o).modify o fun x => { x with dead := true, changed := true }) :=
      .modify _ o fun x i => by cases i <;> rfl
    rw [hdirect, hoperate]
    refine h.of_falling (kill_falling s.leases o) (fun id h0 ht => ((touching_release hid h0).1 ht).1)
      (fun p hp hpd => ?_) fun p hp hpd => ?_
    · rw [modify_selections, hquiet.selections] at hp
      by_cases hpo : p = o
      · right
        intro i
        rw [hsame.holds, hpo]
        exact releaseInput_clear h.valid o i
      · left
        rw [(kill_node hquiet o p).2.2.2] at hpd
        refine ⟨hp, ?_⟩
        simpa [hpo] using hpd
    · by_cases hpo : p = o
      · right
        rw [hpo, Bool.eq_false_iff]
        exact fun ht => ((touching_release hid hid).1 ht).2 rfl
      · left
        rw [modify_selections, hquiet.selections, (kill_node hquiet o p).2.2.2]
        exact ⟨hp, id_of_ident (kill_node hquiet o p).1, by simp [hpo, hpd]⟩
  · obtain ⟨hsel, hident, hdead, hholds⟩ := @operate_kept s.leases c (s.leasesEnv env) o hshell
    exact h.of_alive ho hd hsel hident hdead hholds (operateDirect_touch hid)

/-- A command that releases no output with a dependent that holds something -/
theorem Tidy.command {s : State} (h : Tidy s.leases s.direct) (hf : Formed s.leases) {c : Command} {e : DirectInput.Command}
    {env : Env} (hnew : ∀ o ∈ env.calloc, o ∉ s.leases.selections)
    (hstrand : env.screen = true → ∀ o, s.found? c.output = some o → c.operation = .release ∨ c.operation = .bind →
      ∀ p ∈ s.leases.selections, p ≠ o → (s.node p).parent = (s.node o).id → s.holding p = false) :
    Tidy (s.lorieOutputCommand c e env).leases (s.lorieOutputCommand c e env).direct := by
  unfold State.lorieOutputCommand
  split
  swap
  · exact h
  rename_i hselects
  have hop : env.screen = true ∧ c.output ≠ 0 := by
    unfold State.Command.selects at hselects
    split at hselects
    all_goals first | cases hselects | simpa using hselects
  obtain ⟨hscreen, h0⟩ := hop
  have hscreen' : (s.leasesEnv env).screen = true := hscreen
  have hfind : s.found? c.output = _ := find_link s.leases c.output
  dsimp only
  unfold State.commandDirect
  cases hfound : s.leases.selections.dropWhile fun o => (s.leases.heap o).id ≠ c.output with
  | nil =>
    rw [hfound] at hfind
    simp only [hfind, List.head?_nil]
    rw [command_new hscreen' h0 hfound]
    split
    · exact h.bind (List.append_nil _).symm hnew
    · exact h
  | cons o after =>
    rw [hfound, List.head?_cons] at hfind
    simp only [hfind]
    have hsel := link_split hfound
    have ho : o ∈ s.leases.selections := by
      rw [hsel]
      exact List.mem_append_right _ List.mem_cons_self
    have hdrop : (c.operation = .release ∨ c.operation = .bind) → Tidy (Leases.State.releaseSelection { s.leases with
        selections := (s.leases.selections.takeWhile fun o => (s.leases.heap o).id ≠ c.output) ++ after } o)
        (s.direct.lorieDirectInputRelease (s.node o).id) := by
      intro hop
      refine h.drop hf hsel (releaseSelection_released _ o) (fun p i hi => ?_) fun p hp hpo hparent => ?_
      · exact releaseSelection_falling { s.leases with
          selections := (s.leases.selections.takeWhile fun o => (s.leases.heap o).id ≠ c.output) ++ after } o p i hi
      exact holding_iff.1 (hstrand hscreen o hfind hop p hp hpo hparent)
    by_cases hrelease : c.operation = .release
    · rw [command_release hscreen' h0 hrelease hfound]
      simp only [hrelease]
      exact hdrop (.inl hrelease)
    by_cases hbind : c.operation = .bind
    · rw [command_bind hscreen' h0 hbind hfound]
      simp only [hbind]
      have hreleased := releaseSelection_released { s.leases with
        selections := (s.leases.selections.takeWhile fun o => (s.leases.heap o).id ≠ c.output) ++ after } o
      have htidy := hdrop (.inr hbind)
      generalize Leases.State.releaseSelection _ o = t at hreleased htidy ⊢
      refine htidy.bind hreleased.selections fun p hp hmem => hnew p hp ?_
      rw [hreleased.selections] at hmem
      rw [hsel]
      exact mem_of_unlinked hmem
    split
    · rename_i h
      exact absurd h hrelease
    · rename_i h
      exact absurd h hbind
    rcases command_operate hscreen' h0 hrelease hbind hfound with ⟨heq, -⟩ | ⟨hd, hw, heq⟩
    · rw [heq]
      split
      · exact h
      · rename_i hgone
        simp only [not_or, Bool.not_eq_true, Decidable.not_not] at hgone
        exact h.of_alive ho hgone.1 rfl (fun _ => rfl) (fun _ => rfl) (fun _ _ hi => .inl hi)
          (operateDirect_touch (hf.nonzero o ho))
    · have hgone : ¬((s.node o).dead = true ∨ (s.node o).window ≠ c.window) := by
        rintro (h | h)
        · exact Bool.false_ne_true (hd.symm.trans h)
        · exact h hw
      rw [heq, if_neg hgone]
      exact h.operate hf ho hd

/-! ## Other operations -/

theorem touching_releaseDirect {s : State} {os : List Nat} {id : Nat} (hid : id ≠ 0) (h0 : ∀ o ∈ os, (s.node o).id ≠ 0) :
    touching (s.releaseDirect os) id = true ↔ touching s.direct id = true ∧ ∀ o ∈ os, (s.node o).id ≠ id := by
  have hfold : s.releaseDirect os =
      (os.map fun o => (s.node o).id).foldl DirectInput.State.lorieDirectInputRelease s.direct := by
    unfold State.releaseDirect
    rw [List.foldl_map]
  rw [hfold, touching_releases hid _ _ (by simpa using h0)]
  simp

theorem reset_selections : ∀ (os : List Nat) (s : Leases.State), s.selections = os →
    (os.foldl (fun s o => Leases.State.releaseSelection { s with selections := s.selections.tail } o) s).selections = []
  | [], s, h => h
  | o :: os, s, h => by
    have hreleased := (releaseSelection_released { s with selections := s.selections.tail } o).selections
    have htail : s.selections.tail = os := by rw [h, List.tail_cons]
    rw [List.foldl_cons]
    exact reset_selections os _ (hreleased.trans htail)

section Operations

variable {s : State}

theorem touching_releaseButton (hf : Formed s.leases) (id window button : Nat) :
    ∀ i ≠ 0, touching (s.lorieReleaseOutputButton id window button).direct i = true → touching s.direct i = true := by
  intro i hi h
  unfold State.lorieReleaseOutputButton at h
  dsimp only at h
  split at h
  · rename_i hb
    obtain ⟨o, ho, hid⟩ := List.any_eq_true.1 hb.2
    simp only [Bool.and_eq_true, decide_eq_true_eq] at hid
    have h0 : id ≠ 0 := hid.1 ▸ hf.nonzero o ho
    exact ((touching_release h0 hi).1 h).1
  · exact h

theorem Tidy.releaseButton (h : Tidy s.leases s.direct) (hf : Formed s.leases) (id window button : Nat) :
    Tidy (s.lorieReleaseOutputButton id window button).leases (s.lorieReleaseOutputButton id window button).direct :=
  h.of_quiet (releaseButton_quiet s.leases id window button) (releaseButton_falling s.leases id window button)
    (touching_releaseButton hf id window button)

theorem Tidy.endExport (h : Tidy s.leases s.direct) (hf : Formed s.leases) (exported : Option (Nat × Nat)) :
    Tidy (s.endExport exported).leases (s.endExport exported).direct := by
  rcases exported with _ | ⟨id, window⟩
  · exact h
  · exact h.releaseButton hf id window 1

theorem Tidy.closeInput (h : Tidy s.leases s.direct) (hf : Formed s.leases) :
    Tidy s.lorieReleaseOutputInput.leases s.lorieReleaseOutputInput.direct :=
  h.of_quiet (foldl_releaseInput_quiet s.leases.selections s.leases)
    (Registry.foldl_falling releaseInput_falling s.leases.selections s.leases)
    fun _ hi ht => ((touching_releaseDirect hi hf.nonzero).1 ht).1

theorem Tidy.reset (h : Tidy s.leases s.direct) (hf : Formed s.leases) :
    Tidy s.lorieResetOutputs.leases s.lorieResetOutputs.direct := by
  have hnone : s.leases.lorieResetOutputs.selections = [] := reset_selections _ _ rfl
  refine h.of_falling (reset_falling s.leases) (fun _ hi ht => ((touching_releaseDirect hi hf.nonzero).1 ht).1)
    (fun p hp => ?_) fun p hp hd => .inr ?_
  · have hp' : p ∈ s.leases.lorieResetOutputs.selections := hp
    rw [hnone] at hp'
    cases hp'
  · rw [Bool.eq_false_iff]
    exact fun ht => ((touching_releaseDirect (hf.nonzero p hp) hf.nonzero).1 ht).2 p hp rfl

theorem Tidy.destroyWindow (h : Tidy s.leases s.direct) (hf : Formed s.leases) (w : Nat) :
    Tidy (s.destroyWindow w).leases (s.destroyWindow w).direct := by
  have hnodes := (destroyed_nodes w s.leases.selections s.leases)
  have hsel : (s.leases.lorieOutputWindowDestroyed w).selections = s.leases.selections := hnodes.1
  have hdead : ∀ p ∈ s.leases.selections, ((s.leases.lorieOutputWindowDestroyed w).heap p).dead =
      ((s.leases.heap p).dead || (s.leases.heap p).window = w) := by
    intro p hp
    exact (hnodes.2 p).2.2.2.trans (by simp [hp])
  have hids : ∀ o ∈ s.leases.selections.filter fun o => (s.node o).window = w, (s.node o).id ≠ 0 :=
    fun o ho => hf.nonzero o (List.mem_filter.1 ho).1
  refine h.of_falling (windowDestroyed_falling s.leases w) (fun _ hi ht => ((touching_releaseDirect hi hids).1 ht).1)
    (fun p hp hd => ?_) fun p hp hd => ?_
  · have hp' : p ∈ s.leases.selections := by
      rw [← hsel]
      exact hp
    have hd' : ((s.leases.lorieOutputWindowDestroyed w).heap p).dead = true := hd
    rw [hdead p hp', Bool.or_eq_true, decide_eq_true_eq] at hd'
    rcases hd' with hd' | hw
    · exact .inl ⟨hp', hd'⟩
    · exact .inr (windowDestroyed_clear w s.leases.selections s.leases h.valid p hp' hw)
  · by_cases hw : (s.node p).window = w
    · right
      rw [Bool.eq_false_iff]
      exact fun ht => ((touching_releaseDirect (hf.nonzero p hp) hids).1 ht).2 p
        (List.mem_filter.2 ⟨hp, decide_eq_true hw⟩) rfl
    · left
      have hd' := hdead p hp
      have hw' : ¬(s.leases.heap p).window = w := hw
      rw [hd] at hd'
      simp only [hw', decide_false, Bool.or_false] at hd'
      exact ⟨hsel ▸ hp, id_of_ident (hnodes.2 p).1, hd'⟩

end Operations

/-! ## The work of a lost connection -/

/-- Nothing is held. -/
structure Clear (s : Leases.State) (d : DirectInput.State) : Prop where
  holds : ∀ p ∈ s.selections, ∀ i, (s.heap p).holds i = false
  direct : ∀ id ≠ 0, touching d id = false

theorem Clear.of_falling {s t : Leases.State} {d e : DirectInput.State} (h : Clear s d)
    (hsel : ∀ p ∈ t.selections, p ∈ s.selections) (hfall : Falling s t)
    (htouch : ∀ id ≠ 0, touching e id = true → touching d id = true) : Clear t e := by
  refine ⟨fun p hp i => ?_, fun id hid => ?_⟩
  · rw [Bool.eq_false_iff]
    intro hi
    have := h.holds p (hsel p hp) i
    rw [hfall p i hi] at this
    cases this
  · rw [Bool.eq_false_iff]
    intro ht
    have := h.direct id hid
    rw [htouch id hid ht] at this
    cases this

section Lost

variable {s : State}

/-- The output of an export -/
theorem find_exported (hf : Formed s.leases) {p : Nat} (hp : p ∈ s.leases.selections) :
    (s.leases.selections.find? fun o => (s.leases.heap o).id = (s.node p).id && (s.leases.heap o).window = (s.node p).window) =
      some p := by
  cases hfind : s.leases.selections.find? fun o =>
      (s.leases.heap o).id = (s.node p).id && (s.leases.heap o).window = (s.node p).window with
  | none =>
    have := List.find?_eq_none.1 hfind p hp
    simp [State.node] at this
  | some o =>
    have hsome := List.find?_some hfind
    simp only [Bool.and_eq_true, decide_eq_true_eq] at hsome
    rw [hf.distinct o (List.mem_of_find?_eq_some hfind) p hp hsome.1]

/-- Only the first button is held. -/
theorem button_one {b : BitVec 8} (h : b &&& ~~~2 = 0) {n : Nat} (hn : b.getLsbD n = true) : n = 1 := by
  have hlt := BitVec.lt_of_getLsbD hn
  have hbit : (b &&& ~~~2).getLsbD n = false := by
    rw [h]
    exact BitVec.getLsbD_zero
  rw [BitVec.getLsbD_and, hn, Bool.true_and, BitVec.getLsbD_not] at hbit
  simp only [hlt, decide_true, Bool.true_and, Bool.not_eq_false'] at hbit
  have hbits : ∀ n < 8, (2 : BitVec 8).getLsbD n = true → n = 1 := by decide
  exact hbits n hlt hbit

/-- The work of a lost connection leaves nothing, when no output holds more than the export. -/
theorem endExport_clear (h : Tidy s.leases s.direct) (hf : Formed s.leases) {exported : Option (Nat × Nat)}
    (hkeep : ∀ p ∈ s.leases.selections, s.keeping exported p = false) :
    Clear (s.endExport exported).leases (s.endExport exported).direct := by
  -- an output holds nothing, or the first button of the export
  have hcases : ∀ p ∈ s.leases.selections, s.holding p = false ∨
      (exported = some ((s.node p).id, (s.node p).window) ∧ ∀ i, (s.node p).holds i = true → i = .button 1) := by
    intro p hp
    have := hkeep p hp
    unfold State.keeping at this
    rw [Bool.and_eq_false_iff] at this
    refine this.imp_right fun hp => ?_
    simp only [Bool.or_eq_false_iff, decide_eq_false_iff_not, Decidable.not_not] at hp
    obtain ⟨⟨hkeys, hbuttons⟩, hexported⟩ := hp
    refine ⟨hexported, fun i hi => ?_⟩
    cases i with
    | key code =>
      simp [OutputSelection.holds, hkeys] at hi
    | button number => rw [button_one hbuttons hi]
  rcases exported with _ | ⟨id, window⟩
  · have hnone : ∀ p ∈ s.leases.selections, s.holding p = false := fun p hp => (hcases p hp).resolve_right fun h => by
      cases h.1
    refine ⟨fun p hp => (holding_iff.1 (hnone p hp)).1, fun id hid => ?_⟩
    rw [Bool.eq_false_iff]
    intro ht
    obtain ⟨p, hp, rfl, -⟩ := h.direct id hid ht
    have hfree := (holding_iff.1 (hnone p hp)).2
    exact Bool.false_ne_true (hfree.symm.trans ht)
  · have hfall := releaseButton_falling s.leases id window 1
    have hq := releaseButton_quiet s.leases id window 1
    refine ⟨fun p hp i => ?_, fun j hj => ?_⟩
    · have hp' : p ∈ s.leases.selections := by
        rw [← hq.selections]
        exact hp
      rw [Bool.eq_false_iff]
      intro hi
      have hbefore := hfall p i hi
      rcases hcases p hp' with hfree | ⟨hexported, hone⟩
      · have := (holding_iff.1 hfree).1 i
        exact Bool.false_ne_true (this.symm.trans hbefore)
      · obtain ⟨rfl, rfl⟩ := Prod.mk.inj (Option.some.inj hexported)
        have hreleased : s.leases.lorieReleaseOutputButton (s.node p).id (s.node p).window 1 =
            s.leases.outputInput p (.button 1) false := by
          unfold Leases.State.lorieReleaseOutputButton
          rw [if_neg (by decide), find_exported hf hp']
          rfl
        have hheld : ((s.leases.outputInput p (.button 1) false).heap p).holds i = true := by
          rw [← hreleased]
          exact hi
        rw [hone i hbefore, outputInput_holds (by decide), if_pos rfl] at hheld
        cases hheld
    · rw [Bool.eq_false_iff]
      intro ht
      have hbefore := touching_releaseButton hf id window 1 j hj ht
      obtain ⟨p, hp, rfl, -⟩ := h.direct j hj hbefore
      rcases hcases p hp with hfree | ⟨hexported, -⟩
      · exact Bool.false_ne_true ((holding_iff.1 hfree).2.symm.trans hbefore)
      · obtain ⟨rfl, rfl⟩ := Prod.mk.inj (Option.some.inj hexported)
        have hany : (s.leases.selections.any fun o =>
            (s.node o).id = (s.node p).id && (s.node o).window = (s.node p).window) = true :=
          List.any_eq_true.2 ⟨p, hp, by simp⟩
        have ht' : touching (s.direct.lorieDirectInputRelease (s.node p).id) (s.node p).id = true := by
          have hdirect : (s.lorieReleaseOutputButton (s.node p).id (s.node p).window 1).direct =
              s.direct.lorieDirectInputRelease (s.node p).id := by
            unfold State.lorieReleaseOutputButton
            exact if_pos ⟨rfl, hany⟩
          rw [← hdirect]
          exact ht
        exact ((touching_release hj hj).1 ht').2 rfl

end Lost

/-- No command follows the work of the lost connection before the host connects again. -/
structure Orderly (s : State) : Prop where
  old : ∀ g, .lost g ∈ s.work → g ≤ s.dataConnection
  current : ∀ before after, s.work = before ++ .lost s.dataConnection :: after →
    s.connected = false ∧ ∀ c e, .command c e ∉ after
  lost : s.lost = true → s.connected = false ∧ ∀ c e, .command c e ∉ s.work

namespace Orderly

variable {s t : State}

theorem of_same (h : Orderly s) (hwork : t.work = s.work) (hdata : t.dataConnection = s.dataConnection)
    (hconnected : t.connected = s.connected) (hlost : t.lost = s.lost) : Orderly t where
  old := by
    rw [hwork, hdata]
    exact h.old
  current := by
    rw [hwork, hdata, hconnected]
    exact h.current
  lost := by
    rw [hwork, hconnected, hlost]
    exact h.lost

/-- While the host is connected, no work of the lost connection waits. -/
theorem not_lost (h : Orderly s) (hc : s.connected = true) : .lost s.dataConnection ∉ s.work := by
  intro hmem
  obtain ⟨before, after, hsplit⟩ := List.append_of_mem hmem
  have := (h.current before after hsplit).1
  rw [hc] at this
  cases this

theorem serverConnect (h : Orderly s) : Orderly { s with work := s.work ++ [.connect] } := by
  refine ⟨fun g hg => h.old g (by simpa using hg), fun before after hsplit => ?_, fun hl => ?_⟩
  · dsimp only at hsplit ⊢
    rcases List.eq_nil_or_concat after with rfl | ⟨after', w, rfl⟩
    · have := congrArg List.getLast? hsplit
      simp at this
    · have hsplit' : s.work ++ [Work.connect] = (before ++ .lost s.dataConnection :: after') ++ [w] := by
        rw [hsplit]
        simp
      obtain ⟨hwork, hw⟩ := List.append_inj' hsplit' rfl
      obtain ⟨hc, hnone⟩ := h.current before after' hwork
      refine ⟨hc, fun c e hmem => ?_⟩
      rw [List.concat_eq_append] at hmem
      rcases List.mem_append.1 hmem with hmem | hmem
      · exact hnone c e hmem
      · rw [← hw] at hmem
        cases List.mem_singleton.1 hmem
  · obtain ⟨hc, hnone⟩ := h.lost hl
    refine ⟨hc, fun c e hmem => ?_⟩
    rcases List.mem_append.1 hmem with hmem | hmem
    · exact hnone c e hmem
    · cases List.mem_singleton.1 hmem

theorem receive (h : Orderly s) (hc : s.connected = true) (c : Command) (e : DirectInput.Command) :
    Orderly { s with work := s.work ++ [.command c e] } := by
  have hnot := h.not_lost hc
  refine ⟨fun g hg => h.old g (by simpa using hg), fun before after hsplit => ?_, fun hl => ?_⟩
  · have hmem : Work.lost s.dataConnection ∈ s.work ++ [.command c e] := by
      rw [show s.work ++ [.command c e] = _ from hsplit]
      exact List.mem_append_right _ List.mem_cons_self
    rcases List.mem_append.1 hmem with hmem | hmem
    · exact absurd hmem hnot
    · cases List.mem_singleton.1 hmem
  · have := (h.lost hl).1
    rw [hc] at this
    cases this

theorem error (h : Orderly s) (hc : s.connected = true) :
    Orderly { s with connected := false, dataConnection := s.dataConnection + 1,
                     work := s.work ++ [.lost (s.dataConnection + 1)] } := by
  have hnew : Work.lost (s.dataConnection + 1) ∉ s.work := by
    intro hmem
    have := h.old _ hmem
    omega
  refine ⟨fun g hg => ?_, fun before after hsplit => ⟨rfl, ?_⟩, fun hl => ?_⟩
  · rcases List.mem_append.1 hg with hg | hg
    · exact Nat.le_succ_of_le (h.old g hg)
    · cases List.mem_singleton.1 hg
      exact Nat.le_refl _
  · rcases List.eq_nil_or_concat after with rfl | ⟨after', w, rfl⟩
    · simp
    · -- the new item is the last one
      have hsplit' : s.work ++ [Work.lost (s.dataConnection + 1)] =
          (before ++ .lost (s.dataConnection + 1) :: after') ++ [w] := by
        rw [show s.work ++ [Work.lost (s.dataConnection + 1)] = _ from hsplit]
        simp
      obtain ⟨hwork, -⟩ := List.append_inj' hsplit' rfl
      refine absurd ?_ hnew
      rw [hwork]
      exact List.mem_append_right _ List.mem_cons_self
  · have := (h.lost hl).1
    rw [hc] at this
    cases this

/-- The next item leaves the queue. -/
theorem tail (h : Orderly s) {w : Work} {ws : List Work} (hwork : s.work = w :: ws) : Orderly { s with work := ws } := by
  refine ⟨fun g hg => h.old g (hwork ▸ List.mem_cons_of_mem _ hg), fun before after hsplit => ?_, fun hl => ?_⟩
  · dsimp only at hsplit ⊢
    exact h.current (w :: before) after (by rw [hwork, hsplit]; rfl)
  · obtain ⟨hc, hnone⟩ := h.lost hl
    refine ⟨hc, fun c e hmem => hnone c e ?_⟩
    rw [hwork]
    exact List.mem_cons_of_mem _ hmem

end Orderly

/-! ## Steps and runs -/

/-- The invariant of the runs in which nothing strands -/
structure Accounted (s : State) : Prop where
  wellFormed : WellFormed s
  orderly : Orderly s
  tidy : Tidy s.leases s.direct
  clear : s.lost = true → Clear s.leases s.direct

section Steps

variable {s t : State} {a : Action}

/-- A command that no dependent suffers from -/
theorem strands_command {c : Command} {e : DirectInput.Command} {ws : List Work} {env : Env} {exported : Option (Nat × Nat)}
    (hwork : s.work = .command c e :: ws) (h : s.Strands (.work env exported) = false) :
    env.screen = true → ∀ o, s.found? c.output = some o → c.operation = .release ∨ c.operation = .bind →
      ∀ p ∈ s.leases.selections, p ≠ o → (s.node p).parent = (s.node o).id → s.holding p = false := by
  intro hscreen o ho hop p hp hpo hparent
  unfold State.Strands at h
  simp only [hwork, ho] at h
  have hany : (env.screen && s.leases.selections.any fun p =>
      p ≠ o && (s.node p).parent = (s.node o).id && s.holding p) = false := by
    rcases hop with hop | hop <;> simpa only [hop] using h
  rw [hscreen, Bool.true_and] at hany
  have := List.any_eq_false.1 hany p hp
  simpa [hpo, hparent] using this

theorem strands_lost {generation : Nat} {ws : List Work} {env : Env} {exported : Option (Nat × Nat)}
    (hwork : s.work = .lost generation :: ws) (h : s.Strands (.work env exported) = false)
    (hg : generation = s.dataConnection) : ∀ p ∈ s.leases.selections, s.keeping exported p = false := by
  intro p hp
  unfold State.Strands at h
  simp only [hwork, hg, decide_true, Bool.true_and] at h
  have := List.any_eq_false.1 h p hp
  simpa using this

/-- The work of the next item -/
theorem perform_released (hs : Accounted s) {w : Work} {ws : List Work} {env : Env} {exported : Option (Nat × Nat)}
    (hwork : s.work = w :: ws) (hnew : ∀ o ∈ env.calloc, o ∉ s.leases.selections)
    (hstrand : s.Strands (.work env exported) = false) :
    let t := ({ s with work := ws } : State).perform w env exported
    Orderly t ∧ Tidy t.leases t.direct ∧ (t.lost = true → Clear t.leases t.direct) := by
  have htail := hs.orderly.tail hwork
  have hf := hs.wellFormed.formed
  cases w with
  | command c e =>
    have hdependents := strands_command hwork hstrand
    have htidy := Tidy.command (s := { s with work := ws }) (c := c) (e := e) hs.tidy hf hnew hdependents
    have hlost : s.lost = false := by
      rw [Bool.eq_false_iff]
      intro hl
      exact (hs.orderly.lost hl).2 c e (by rw [hwork]; exact List.mem_cons_self)
    have hsame : ∀ t : State, t = ({ s with work := ws } : State).lorieOutputCommand c e env → t.work = ws ∧
        t.dataConnection = s.dataConnection ∧ t.connected = s.connected ∧ t.lost = s.lost := by
      rintro t rfl
      unfold State.lorieOutputCommand
      split <;> exact ⟨rfl, rfl, rfl, rfl⟩
    obtain ⟨hw, hd, hc, hl⟩ := hsame _ rfl
    refine ⟨htail.of_same hw hd hc hl, htidy, fun h => ?_⟩
    have h' := hl.symm.trans h
    rw [hlost] at h'
    cases h'
  | lost generation =>
    simp only [State.perform]
    split
    · rename_i hg
      have hkeep := strands_lost hwork hstrand hg
      have hclear := @endExport_clear { s with work := ws } hs.tidy hf exported hkeep
      obtain ⟨hc, hnone⟩ := hs.orderly.current [] ws (by rw [hwork]; exact congrArg (Work.lost · :: ws) hg)
      refine ⟨?_, hs.tidy.endExport (s := { s with work := ws }) hf exported, fun _ => hclear⟩
      have hsame : ({ s with work := ws } : State).endExport exported = { ({ s with work := ws } : State).endExport exported with
          work := ws, connected := s.connected, dataConnection := s.dataConnection } := by
        rcases exported with _ | ⟨id, window⟩ <;> rfl
      rw [hsame]
      exact ⟨htail.old, htail.current, fun _ => ⟨hc, hnone⟩⟩
    · exact ⟨htail, hs.tidy, hs.clear⟩
  | connect =>
    have htidy := hs.tidy.endExport (s := { s with work := ws }) hf exported
    have hq := (endExport_quiet { s with work := ws } exported).1
    have hf' : Formed (({ s with work := ws } : State).endExport exported).leases :=
      (@Change.quiet none _ _ s.sizes hq).formed hf
    refine ⟨?_, htidy.reset hf', fun h => by cases h⟩
    have hwork' : (({ s with work := ws } : State).endExport exported).work = ws := by
      rcases exported with _ | ⟨id, window⟩ <;> rfl
    have hnew : Work.lost (s.dataConnection + 1) ∉ ws := by
      intro hmem
      have := htail.old _ hmem
      dsimp only at this
      omega
    refine ⟨fun g hg => ?_, fun before after hsplit => ?_, fun h => by cases h⟩
    · have hg' : Work.lost g ∈ ws := hwork' ▸ hg
      exact Nat.le_succ_of_le (htail.old g hg')
    · have hsplit' : ws = before ++ .lost (s.dataConnection + 1) :: after := hwork' ▸ hsplit
      exact absurd (by rw [hsplit']; exact List.mem_append_right _ List.mem_cons_self) hnew

/-- An operation that releases at most -/
theorem Accounted.of_falling (hs : Accounted s) (hwf : WellFormed t) (hsame : t.work = s.work ∧
    t.dataConnection = s.dataConnection ∧ t.connected = s.connected ∧ t.lost = s.lost) (htidy : Tidy t.leases t.direct)
    (hsel : ∀ p ∈ t.leases.selections, p ∈ s.leases.selections) (hfall : Falling s.leases t.leases)
    (htouch : ∀ id ≠ 0, touching t.direct id = true → touching s.direct id = true) : Accounted t where
  wellFormed := hwf
  orderly := hs.orderly.of_same hsame.1 hsame.2.1 hsame.2.2.1 hsame.2.2.2
  tidy := htidy
  clear := fun hl => (hs.clear (hsame.2.2.2 ▸ hl)).of_falling hsel hfall htouch

/-- **One step** in which nothing strands -/
theorem Accounted.step (hs : Accounted s) (hstrand : s.Strands a = false) (h : step s a = some t) : Accounted t := by
  have hwf := hs.wellFormed.step h
  have hf := hs.wellFormed.formed
  cases a with
  | createWindow w =>
    simp only [Registry.step] at h
    split at h
    · cases h
      exact hs.of_falling hwf ⟨rfl, rfl, rfl, rfl⟩ hs.tidy (fun _ hp => hp) (.refl _) fun _ _ ht => ht
    · cases h
  | destroyWindow w =>
    simp only [Registry.step] at h
    split at h
    · cases h
      have hids : ∀ o ∈ s.leases.selections.filter fun o => (s.node o).window = w, (s.node o).id ≠ 0 :=
        fun o ho => hf.nonzero o (List.mem_filter.1 ho).1
      refine hs.of_falling hwf ⟨rfl, rfl, rfl, rfl⟩ (hs.tidy.destroyWindow hf w) (fun p hp => ?_)
        (windowDestroyed_falling s.leases w) fun _ hi ht => ((touching_releaseDirect hi hids).1 ht).1
      have hsel : (s.leases.lorieOutputWindowDestroyed w).selections = s.leases.selections :=
        (destroyed_nodes w s.leases.selections s.leases).1
      rw [← hsel]
      exact hp
    · cases h
  | serverConnect =>
    cases h
    exact ⟨hwf, hs.orderly.serverConnect, hs.tidy, hs.clear⟩
  | receive c e =>
    simp only [Registry.step] at h
    split at h
    · rename_i hc
      cases h
      exact ⟨hwf, hs.orderly.receive hc c e, hs.tidy, hs.clear⟩
    · cases h
  | error =>
    simp only [Registry.step] at h
    split at h
    · rename_i hc
      cases h
      exact ⟨hwf, hs.orderly.error hc, hs.tidy, hs.clear⟩
    · cases h
  | work env exported =>
    simp only [Registry.step] at h
    split at h
    · cases h
    rename_i w ws hwork
    split at h
    · rename_i hnew
      cases h
      obtain ⟨horderly, htidy, hclear⟩ := perform_released hs hwork hnew hstrand
      exact ⟨hwf, horderly, htidy, hclear⟩
    · cases h
  | releaseButton id window button =>
    cases h
    refine hs.of_falling hwf ⟨rfl, rfl, rfl, rfl⟩ (hs.tidy.releaseButton hf id window button) (fun p hp => ?_)
      (releaseButton_falling s.leases id window button) (touching_releaseButton hf id window button)
    rw [← (releaseButton_quiet s.leases id window button).selections]
    exact hp
  | publish =>
    cases h
    have hleases := publish_leases hs.wellFormed.seen
    refine hs.of_falling hwf ⟨rfl, rfl, rfl, rfl⟩ ?_ ?_ ?_ fun _ _ ht => ht
    · rw [hleases]
      exact hs.tidy
    · rw [hleases]
      exact fun _ hp => hp
    · rw [hleases]
      exact .refl _
  | closeInput =>
    cases h
    refine hs.of_falling hwf ⟨rfl, rfl, rfl, rfl⟩ (hs.tidy.closeInput hf) (fun p hp => ?_)
      (Registry.foldl_falling releaseInput_falling s.leases.selections s.leases)
      fun _ hi ht => ((touching_releaseDirect hi hf.nonzero).1 ht).1
    rw [← (foldl_releaseInput_quiet s.leases.selections s.leases).selections]
    exact hp
  | closeScreen =>
    cases h
    refine hs.of_falling hwf ⟨rfl, rfl, rfl, rfl⟩ (hs.tidy.reset hf) (fun p hp => ?_) (reset_falling s.leases)
      fun _ hi ht => ((touching_releaseDirect hi hf.nonzero).1 ht).1
    have hp' : p ∈ s.leases.lorieResetOutputs.selections := hp
    rw [show s.leases.lorieResetOutputs.selections = [] from reset_selections _ _ rfl] at hp'
    cases hp'

end Steps

theorem Accounted.init : Accounted State.init := by
  refine ⟨.init, ⟨fun g hg => ?_, fun before after h => ?_, fun h => ?_⟩,
    ⟨fun p i hi => ?_, fun p hp => ?_, fun id hid ht => ?_⟩, fun h => ?_⟩
  · cases hg
  · simp [State.init] at h
  · cases h
  · cases i <;> simp [State.init, Leases.State.init, OutputSelection.zero, OutputSelection.holds] at hi
  · cases hp
  · rcases touching_iff.1 ht with ⟨i, hi⟩ | ⟨tool, hi⟩
    · exact absurd hi.symm hid
    · exact absurd hi.symm hid
  · cases h

/-- The commands of a dead output change nothing, but for those that release it. -/
theorem dead_command {s : State} {c : Command} {e : DirectInput.Command} {env : Env} {o : Nat}
    (hfound : s.found? c.output = some o) (hd : (s.node o).dead = true) (hrelease : c.operation ≠ .release)
    (hbind : c.operation ≠ .bind) : s.lorieOutputCommand c e env = s := by
  unfold State.lorieOutputCommand
  split
  swap
  · rfl
  rename_i hselects
  have hop : env.screen = true ∧ c.output ≠ 0 := by
    unfold State.Command.selects at hselects
    split at hselects
    all_goals first | cases hselects | simpa using hselects
  have hleases : s.leases.lorieOutputCommand c (s.leasesEnv env) = s.leases := by
    have hfind : s.found? c.output = _ := find_link s.leases c.output
    rw [hfound] at hfind
    obtain ⟨after, hafter⟩ : ∃ after, (s.leases.selections.dropWhile fun o => (s.leases.heap o).id ≠ c.output) = o :: after :=
      List.head?_eq_some_iff.1 hfind.symm
    have hscreen : (s.leasesEnv env).screen = true := hop.1
    rcases command_operate hscreen hop.2 hrelease hbind hafter with ⟨heq, -⟩ | ⟨halive, -⟩
    · exact heq
    · exact absurd (halive.symm.trans hd) Bool.false_ne_true
  have hdirect : s.commandDirect c e env = s.direct := by
    unfold State.commandDirect
    simp only [hfound, hd, true_or, ↓reduceIte]
  have hseen : s.commandSeen c env = s.seen := by
    unfold State.commandSeen
    split
    · rename_i h _
      exact absurd h hbind
    · rfl
  have hsizes : s.commandSizes c env = s.sizes := by
    have hnot : s.resizes c env o = false := by
      unfold State.resizes
      simp [hd]
    unfold State.commandSizes
    simp only [hfound, hnot, Bool.false_eq_true, ↓reduceIte]
  rw [hleases, hdirect, hseen, hsizes]

/-- **An output that can not be released any more holds nothing**, in every run in which no output is released or bound anew
while a dependent of it holds something, and in which no output holds more than the button of the export when the work of a
lost connection runs: a dead output holds no key, button, contact or tablet, and its commands change nothing; after the work
of a lost connection no output holds any of them. -/
theorem dead_holds_nothing {s : State} (h : Reach step (fun s a => s.Strands a = false) State.init s) :
    (∀ o ∈ s.leases.selections, (s.node o).dead = true → s.holding o = false ∧
      ∀ c e env, s.found? c.output = some o → c.operation ≠ .release → c.operation ≠ .bind →
        s.lorieOutputCommand c e env = s) ∧
    (s.lost = true → (∀ o ∈ s.leases.selections, s.holding o = false) ∧ ∀ id ≠ 0, touching s.direct id = false) := by
  have hs : Accounted s := h.invariant .init fun _ _ _ hs hc ht => hs.step hc ht
  have hf := hs.wellFormed.formed
  refine ⟨fun o ho hd => ⟨?_, ?_⟩, fun hl => ⟨fun o ho => ?_, (hs.clear hl).direct⟩⟩
  · refine holding_iff.2 ⟨hs.tidy.dead o ho hd, ?_⟩
    rw [Bool.eq_false_iff]
    intro ht
    obtain ⟨p, hp, hid, hpd⟩ := hs.tidy.direct _ (hf.nonzero o ho) ht
    have hpo : p = o := hf.distinct p hp o ho hid
    rw [hpo] at hpd
    exact Bool.false_ne_true (hpd.symm.trans hd)
  · intro c e env hfound hrelease hbind
    exact dead_command hfound hd hrelease hbind
  · exact holding_iff.2 ⟨(hs.clear hl).holds o ho, (hs.clear hl).direct _ (hf.nonzero o ho)⟩

/-- The host binds an output and a dependent of it to a window. -/
def dependentOutput : List Action :=
  .createWindow 100 :: connect ++ command (outputCommand .bind 1 100 0 0 0) (some 10) ++
    command (outputCommand .bind 2 100 1 0 2) (some 20)

/-- The dependent holds a key and gives it up, the output is released, and the connection is lost. -/
theorem dead_holds_nothing_dependent : ∃ s, Reach step (fun s a => s.Strands a = false) State.init s ∧ s.lost = true ∧
    s.leases.selections = [20] ∧ (s.node 20).dead = true ∧ s.holding 20 = false := by
  obtain ⟨as, has⟩ : ∃ as, as = dependentOutput ++ command (outputCommand .key 2 100 0 0 38) none ++
      command { outputCommand .key 2 100 0 0 38 with down := false } none ++
      command (outputCommand .release 1 100 0 0 0) none ++
      [Action.error, Action.work ⟨true, true, fun _ => false, none, Leases.oneKeyTyping false⟩ none] := ⟨_, rfl⟩
  have hrun : (exec (fun s a => if s.Strands a = false then step s a else none) State.init as).map (fun s => decide (
      s.lost = true ∧ s.leases.selections = [20] ∧ (s.node 20).dead = true)) = some true := by
    rw [has]
    decide +kernel
  obtain ⟨s, hs, hstate⟩ := Option.map_eq_some_iff.1 hrun
  obtain ⟨hlost, hsel, hdead⟩ := of_decide_eq_true hstate
  have hreach := Reach.of_exec_guarded as hs
  obtain ⟨hheld, -⟩ := dead_holds_nothing hreach
  exact ⟨s, hreach, hlost, hsel, hdead, (hheld 20 (by rw [hsel]; decide) hdead).1⟩

/-- A dependent output keeps a key when the output of its window is released, and an output keeps a key when the connection
is lost. -/
theorem dependent_keeps_key :
    (¬∀ s, Reach step Free State.init s → ∀ o ∈ s.leases.selections, (s.node o).dead = true → s.holding o = false) ∧
    ¬∀ s, Reach step Free State.init s → s.lost = true → ∀ o ∈ s.leases.selections, s.holding o = false := by
  constructor
  · intro h
    have hrun : (exec step State.init (dependentOutput ++ command (outputCommand .key 2 100 0 0 38) none ++
        command (outputCommand .release 1 100 0 0 0) none)).map (fun s => decide (
        s.leases.selections = [20] ∧ (s.node 20).dead = true ∧ s.holding 20 = true)) = some true := by decide +kernel
    obtain ⟨s, hs, hstate⟩ := Option.map_eq_some_iff.1 hrun
    obtain ⟨hsel, hdead, hheld⟩ := of_decide_eq_true hstate
    have := h s (.of_exec _ hs) 20 (by rw [hsel]; decide) hdead
    exact Bool.false_ne_true (this.symm.trans hheld)
  · intro h
    have hrun : (exec step State.init (dependentOutput ++ command (outputCommand .key 2 100 0 0 38) none ++
        [Action.error, Action.work ⟨true, true, fun _ => false, none, Leases.oneKeyTyping false⟩ none])).map (fun s => decide (
        s.lost = true ∧ 20 ∈ s.leases.selections ∧ s.holding 20 = true)) = some true := by decide +kernel
    obtain ⟨s, hs, hstate⟩ := Option.map_eq_some_iff.1 hrun
    obtain ⟨hlost, hmem, hheld⟩ := of_decide_eq_true hstate
    have := h s (.of_exec _ hs) hlost 20 hmem
    exact Bool.false_ne_true (this.symm.trans hheld)

end Lorie.Outputs.Registry
