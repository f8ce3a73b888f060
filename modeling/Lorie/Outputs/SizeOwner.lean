import Lorie.Outputs.WellFormed

/-!
# The owner of the size of a window

Several outputs may show one window, and one of them owns its size: the one that was resized last, or, when it goes, the
next one that was resized.

- `Sized`: what holds of the owners, and `Change.sized`: every change keeps it;
- `size_owner`: the owners in every reachable state.
-/

namespace Lorie.Outputs.Registry

open Lorie.Lib Leases

/-- An output whose size the window may take. -/
structure Resized (s : Leases.State) (z : Sizes) (p : Nat) : Prop where
  mem : p ∈ s.selections
  alive : (s.heap p).dead = false
  own : (s.heap p).borrowed = false
  received : z.received p = true

/-- The owners of the sizes. -/
structure Sized (s : Leases.State) (z : Sizes) : Prop where
  one : ∀ p ∈ s.selections, ∀ q ∈ s.selections, (s.heap p).ownsSize = true → (s.heap q).ownsSize = true →
    (s.heap p).window = (s.heap q).window → p = q
  owns : ∀ p ∈ s.selections, (s.heap p).ownsSize = true →
    z.received p = true ∧ (s.heap p).borrowed = false ∧ (s.heap p).window ≠ 0
  range : ∀ p ∈ s.selections, z.received p = true → (1 ≤ (s.heap p).width ∧ (s.heap p).width ≤ windowSizeLimit) ∧
    (1 ≤ (s.heap p).height ∧ (s.heap p).height ≤ windowSizeLimit)
  received : ∀ p ∈ s.selections, 0 < (s.heap p).width → z.received p = true
  bound : ∀ p, z.received p = true → p ∈ s.selections
  owner : ∀ p, Resized s z p → (s.heap p).window ≠ 0 →
    ∃ q, Resized s z q ∧ (s.heap q).window = (s.heap p).window ∧ (s.heap q).ownsSize = true
  last : ∀ w m, z.last w = some m →
    m ∈ s.selections ∧ (s.heap m).window = w ∧ (w ≠ 0 → (s.heap m).ownsSize = true)

namespace Sized

variable {s t : Leases.State} {z : Sizes}

/-- The same outputs with the same sizes, where fewer are live and an owner dies only with the others of its window. -/
theorem of_dead (h : Sized s z) (hsel : t.selections = s.selections) (hident : ∀ p, ident (t.heap p) = ident (s.heap p))
    (hextent : ∀ p, extent (t.heap p) = extent (s.heap p)) (howns : ∀ p, (t.heap p).ownsSize = (s.heap p).ownsSize)
    (hdead : ∀ p ∈ s.selections, (t.heap p).dead = false → (s.heap p).dead = false)
    (hwith : ∀ p ∈ s.selections, (t.heap p).dead = false → ∀ q ∈ s.selections, (s.heap q).dead = false →
      (s.heap q).borrowed = false → (s.heap q).window = (s.heap p).window → (t.heap q).dead = false) : Sized t z := by
  have hwindow : ∀ p, (t.heap p).window = (s.heap p).window := fun p => window_of_ident (hident p)
  have hborrowed : ∀ p, (t.heap p).borrowed = (s.heap p).borrowed := fun p => borrowed_of_ident (hident p)
  have hwidth : ∀ p, (t.heap p).width = (s.heap p).width := fun p => width_of_extent (hextent p)
  have hheight : ∀ p, (t.heap p).height = (s.heap p).height := fun p => congrArg Prod.snd (hextent p)
  refine ⟨?_, ?_, ?_, ?_, ?_, ?_, ?_⟩
  · intro p hp q hq hop hoq hw
    rw [hsel] at hp hq
    rw [howns] at hop hoq
    rw [hwindow, hwindow] at hw
    exact h.one p hp q hq hop hoq hw
  · intro p hp hop
    rw [hsel] at hp
    rw [howns] at hop
    rw [hborrowed, hwindow]
    exact h.owns p hp hop
  · intro p hp hr
    rw [hsel] at hp
    rw [hwidth, hheight]
    exact h.range p hp hr
  · intro p hp hw
    rw [hsel] at hp
    rw [hwidth] at hw
    exact h.received p hp hw
  · intro p hr
    rw [hsel]
    exact h.bound p hr
  · intro p hp hw
    obtain ⟨hmem, hd, hb, hr⟩ := hp
    rw [hsel] at hmem
    rw [hborrowed] at hb
    rw [hwindow] at hw
    obtain ⟨q, hq, hqw, hqo⟩ := h.owner p ⟨hmem, hdead p hmem hd, hb, hr⟩ hw
    refine ⟨q, ⟨by rw [hsel]; exact hq.mem, hwith p hmem hd q hq.mem hq.alive hq.own hqw, ?_, hq.received⟩, ?_, ?_⟩
    · rw [hborrowed]
      exact hq.own
    · rw [hwindow, hwindow]
      exact hqw
    · rw [howns]
      exact hqo
  · intro w m hm
    obtain ⟨hmem, hw, ho⟩ := h.last w m hm
    rw [hsel, hwindow, howns]
    exact ⟨hmem, hw, ho⟩

/-- A selection is unlinked and released: its size passes on. -/
theorem drop (h : Sized s z) (hf : Formed s) {before after : List Nat} {o : Nat} (hsel : s.selections = before ++ o :: after)
    (hr : Released { s with selections := before ++ after } t o) : Sized t (z.forget o) := by
  have hwindow : ∀ p, (t.heap p).window = (s.heap p).window := fun p => window_of_ident (hr.ident p)
  have hborrowed : ∀ p, (t.heap p).borrowed = (s.heap p).borrowed := fun p => borrowed_of_ident (hr.ident p)
  have hwidth : ∀ p, (t.heap p).width = (s.heap p).width := fun p => width_of_extent (hr.extent p)
  have hheight : ∀ p, (t.heap p).height = (s.heap p).height := fun p => congrArg Prod.snd (hr.extent p)
  have hlist : t.selections = before ++ after := hr.selections
  have ho : o ∈ s.selections := by
    rw [hsel]
    exact List.mem_append_right _ List.mem_cons_self
  have hmem : ∀ p ∈ before ++ after, p ∈ s.selections ∧ p ≠ o := by
    intro p hp
    refine ⟨by rw [hsel]; exact mem_of_unlinked hp, fun e => ?_⟩
    have hnodup := hf.nodup
    rw [hsel, List.nodup_middle, List.nodup_cons] at hnodup
    exact hnodup.1 (e ▸ hp)
  have hreceived : ∀ p, (z.forget o).received p = if p = o then false else z.received p := by
    intro p
    simp only [Sizes.forget, Function.update_apply]
  have hkept : ∀ p, (z.forget o).received p = true → p ≠ o ∧ z.received p = true := by
    intro p hp
    rw [hreceived] at hp
    split at hp
    · cases hp
    · rename_i hpo
      exact ⟨hpo, hp⟩
  have hkeep : ∀ p, p ≠ o → z.received p = true → (z.forget o).received p = true := by
    intro p hpo hp
    rw [hreceived, if_neg hpo]
    exact hp
  have hdead : ∀ p ∈ before ++ after, (t.heap p).dead = false → (s.heap p).dead = false := by
    intro p hp hd
    rw [hr.dead, Bool.or_eq_false_iff] at hd
    exact hd.1
  obtain ⟨heir, howns, hsome, hnone⟩ := hr.heir
  -- with an heir, the unlinked selection was the owner and no other owns the size of its window
  have hother : ∀ q, heir = some q → ∀ p ∈ before ++ after, (s.heap p).ownsSize = true →
      (s.heap p).window ≠ (s.heap q).window := by
    intro q hq p hp hop hw
    obtain ⟨hoo, -, -, -, -, hqw, -⟩ := hsome q hq
    exact (hmem p hp).2 (h.one p (hmem p hp).1 o ho hop hoo (hw.trans hqw))
  have hcases : ∀ p, (t.heap p).ownsSize = true → (s.heap p).ownsSize = true ∨ heir = some p := by
    intro p hp
    rw [howns, Bool.or_eq_true, decide_eq_true_eq] at hp
    exact hp
  refine ⟨?_, ?_, ?_, ?_, ?_, ?_, ?_⟩
  · intro p hp q hq hop hoq hw
    rw [hlist] at hp hq
    rw [hwindow, hwindow] at hw
    rcases hcases p hop with hop | hhp
    · rcases hcases q hoq with hoq | hhq
      · exact h.one p (hmem p hp).1 q (hmem q hq).1 hop hoq hw
      · exact absurd hw (hother q hhq p hp hop)
    · rcases hcases q hoq with hoq | hhq
      · exact absurd hw.symm (hother p hhp q hq hoq)
      · exact Option.some.inj (hhp.symm.trans hhq)
  · intro p hp hop
    rw [hlist] at hp
    rw [hborrowed, hwindow]
    rcases hcases p hop with hop | hhp
    · obtain ⟨hrec, hb, hw⟩ := h.owns p (hmem p hp).1 hop
      exact ⟨hkeep p (hmem p hp).2 hrec, hb, hw⟩
    · obtain ⟨hoo, hpm, hpo, -, hb, hw, hwd⟩ := hsome p hhp
      refine ⟨hkeep p hpo (h.received p (hmem p hp).1 hwd), hb, ?_⟩
      have hwo : (s.heap p).window = (s.heap o).window := hw
      rw [hwo]
      exact (h.owns o ho hoo).2.2
  · intro p hp hrec
    rw [hlist] at hp
    rw [hwidth, hheight]
    exact h.range p (hmem p hp).1 (hkept p hrec).2
  · intro p hp hw
    rw [hlist] at hp
    rw [hwidth] at hw
    exact hkeep p (hmem p hp).2 (h.received p (hmem p hp).1 hw)
  · intro p hrec
    obtain ⟨hpo, hrec⟩ := hkept p hrec
    have := h.bound p hrec
    rw [hlist]
    rw [hsel] at this
    exact mem_unlinked this hpo
  · intro p hp hw
    obtain ⟨hpm, hd, hb, hrec⟩ := hp
    rw [hlist] at hpm
    rw [hborrowed] at hb
    rw [hwindow] at hw
    obtain ⟨hpo, hrec'⟩ := hkept p hrec
    obtain ⟨q, hq, hqw, hqo⟩ := h.owner p ⟨(hmem p hpm).1, hdead p hpm hd, hb, hrec'⟩ hw
    by_cases hqe : q = o
    · -- the owner goes
      rw [hqe] at hqw hqo
      cases hheir : heir with
      | none =>
        have hwd := (h.range p (hmem p hpm).1 hrec').1.1
        have hpos : 0 < (s.heap p).width := by omega
        exact absurd hpos (hnone hheir hqo p hpm hpo hd hb hqw.symm)
      | some m =>
        obtain ⟨-, hmm, hmo, hmd, hmb, hmw, hmwd⟩ := hsome m hheir
        refine ⟨m, ⟨by rw [hlist]; exact hmm, hmd, ?_, hkeep m hmo (h.received m (hmem m hmm).1 hmwd)⟩, ?_, ?_⟩
        · rw [hborrowed]
          exact hmb
        · rw [hwindow, hwindow]
          exact hmw.trans hqw
        · rw [howns, hheir]
          simp
    · have hqm : q ∈ before ++ after := by
        have := hq.mem
        rw [hsel] at this
        exact mem_unlinked this hqe
      refine ⟨q, ⟨by rw [hlist]; exact hqm, ?_, ?_, hkeep q hqe hq.received⟩, ?_, ?_⟩
      · -- it borrows nothing, so it does not go with `o`
        rw [hr.dead]
        have hparent : (s.heap q).parent ≠ (s.heap o).id := by
          rw [(parent_of_borrowed hq.own).2]
          exact (hf.nonzero o ho).symm
        simp [hq.alive, hparent]
      · rw [hborrowed]
        exact hq.own
      · rw [hwindow, hwindow]
        exact hqw
      · rw [howns, hqo]
        rfl
  · intro w m hm
    have hlast : z.last w ≠ some o ∧ z.last w = some m := by
      simp only [Sizes.forget] at hm
      split at hm
      · cases hm
      · rename_i hne
        exact ⟨hne, hm⟩
    obtain ⟨hmm, hw, hown⟩ := h.last w m hlast.2
    have hmo : m ≠ o := fun e => hlast.1 (e ▸ hlast.2)
    rw [hsel] at hmm
    rw [hlist, hwindow, howns]
    exact ⟨mem_unlinked hmm hmo, hw, fun h0 => by rw [hown h0]; rfl⟩

/-- A new selection. -/
theorem create (h : Sized s z) {before after : List Nat} {o : Nat} {c : Command} (hsel : s.selections = before ++ after)
    (ho : o ∉ s.selections) :
    Sized { s with heap := Function.update s.heap o (Leases.State.newSelection c), selections := before ++ o :: after } z := by
  have hreceived : z.received o ≠ true := fun hr => ho (h.bound o hr)
  have hmem : ∀ p ∈ before ++ o :: after, p ≠ o → p ∈ s.selections := by
    intro p hp hpo
    rw [hsel]
    exact mem_unlinked hp hpo
  have hkeep : ∀ p ∈ s.selections, p ∈ before ++ o :: after := by
    intro p hp
    rw [hsel] at hp
    exact mem_of_unlinked hp
  have hnew : ∀ p ∈ s.selections, p ≠ o := fun p hp e => ho (e ▸ hp)
  have hheap : ∀ p, p ≠ o → Function.update s.heap o (Leases.State.newSelection c) p = s.heap p :=
    fun p hp => Function.update_of_ne hp ..
  have hself : Function.update s.heap o (Leases.State.newSelection c) o = Leases.State.newSelection c :=
    Function.update_self ..
  -- the new selection owns nothing
  have hnone : ∀ p, (Function.update s.heap o (Leases.State.newSelection c) p).ownsSize = true → p ≠ o := by
    intro p hp e
    rw [e, hself] at hp
    cases hp
  refine ⟨?_, ?_, ?_, ?_, ?_, ?_, ?_⟩
  · intro p hp q hq hop hoq hw
    dsimp only at hp hq hop hoq hw
    have hpo := hnone p hop
    have hqo := hnone q hoq
    rw [hheap p hpo] at hop hw
    rw [hheap q hqo] at hoq hw
    exact h.one p (hmem p hp hpo) q (hmem q hq hqo) hop hoq hw
  · intro p hp hop
    dsimp only at hp hop ⊢
    have hpo := hnone p hop
    rw [hheap p hpo] at hop ⊢
    exact h.owns p (hmem p hp hpo) hop
  · intro p hp hr
    dsimp only at hp ⊢
    have hpo : p ≠ o := fun e => hreceived (e ▸ hr)
    rw [hheap p hpo]
    exact h.range p (hmem p hp hpo) hr
  · intro p hp hw
    dsimp only at hp hw
    by_cases hpo : p = o
    · rw [hpo, hself] at hw
      cases hw
    · rw [hheap p hpo] at hw
      exact h.received p (hmem p hp hpo) hw
  · intro p hr
    exact hkeep p (h.bound p hr)
  · intro p hp hw
    obtain ⟨hpm, hd, hb, hr⟩ := hp
    have hpo : p ≠ o := fun e => hreceived (e ▸ hr)
    dsimp only at hpm hd hb hw ⊢
    rw [hheap p hpo] at hd hb hw ⊢
    obtain ⟨q, hq, hqw, hqo⟩ := h.owner p ⟨hmem p hpm hpo, hd, hb, hr⟩ hw
    have hqn := hheap q (hnew q hq.mem)
    refine ⟨q, ⟨hkeep q hq.mem, ?_, ?_, hq.received⟩, ?_, ?_⟩
    · dsimp only
      rw [hqn]
      exact hq.alive
    · dsimp only
      rw [hqn]
      exact hq.own
    · rw [hqn]
      exact hqw
    · rw [hqn]
      exact hqo
  · intro w m hm
    obtain ⟨hmm, hw, hown⟩ := h.last w m hm
    dsimp only
    rw [hheap m (hnew m hmm)]
    exact ⟨hkeep m hmm, hw, hown⟩

/-- A selection takes a size. -/
theorem resized (h : Sized s z) {o : Nat} {x y : Int} (ho : o ∈ s.selections) (hd : (s.heap o).dead = false)
    (hb : (s.heap o).borrowed = false) (hx : 1 ≤ x ∧ x ≤ windowSizeLimit) (hy : 1 ≤ y ∧ y ≤ windowSizeLimit)
    (hsel : t.selections = s.selections) (hident : ∀ p, ident (t.heap p) = ident (s.heap p))
    (hdead : ∀ p, (t.heap p).dead = (s.heap p).dead)
    (hextent : ∀ p, extent (t.heap p) = if p = o then (x, y) else extent (s.heap p))
    (howns : ∀ p ∈ s.selections, (t.heap p).ownsSize =
      if (s.heap o).window ≠ 0 ∧ (s.heap p).window = (s.heap o).window then decide (p = o) else (s.heap p).ownsSize) :
    Sized t (z.resize o (s.heap o).window) := by
  have hwindow : ∀ p, (t.heap p).window = (s.heap p).window := fun p => window_of_ident (hident p)
  have hborrowed : ∀ p, (t.heap p).borrowed = (s.heap p).borrowed := fun p => borrowed_of_ident (hident p)
  have hself : (t.heap o).width = x ∧ (t.heap o).height = y := by
    have := hextent o
    rw [if_pos rfl] at this
    exact ⟨congrArg Prod.fst this, congrArg Prod.snd this⟩
  have hother : ∀ p, p ≠ o → (t.heap p).width = (s.heap p).width ∧ (t.heap p).height = (s.heap p).height := by
    intro p hp
    have := hextent p
    rw [if_neg hp] at this
    exact ⟨congrArg Prod.fst this, congrArg Prod.snd this⟩
  have hreceived : ∀ p, (z.resize o (s.heap o).window).received p = true ↔ p = o ∨ z.received p = true := by
    intro p
    simp only [Sizes.resize, Function.update_apply]
    by_cases hp : p = o <;> simp [hp]
  have hsame : ∀ p ∈ s.selections, (s.heap o).window ≠ 0 → (s.heap p).window = (s.heap o).window →
      ((t.heap p).ownsSize = true ↔ p = o) := by
    intro p hp h0 hw
    rw [howns p hp, if_pos ⟨h0, hw⟩, decide_eq_true_eq]
  have helse : ∀ p ∈ s.selections, ¬((s.heap o).window ≠ 0 ∧ (s.heap p).window = (s.heap o).window) →
      (t.heap p).ownsSize = (s.heap p).ownsSize := by
    intro p hp hw
    rw [howns p hp, if_neg hw]
  refine ⟨?_, ?_, ?_, ?_, ?_, ?_, ?_⟩
  · intro p hp q hq hop hoq hw
    rw [hsel] at hp hq
    rw [hwindow, hwindow] at hw
    by_cases hpw : (s.heap o).window ≠ 0 ∧ (s.heap p).window = (s.heap o).window
    · have hpo := (hsame p hp hpw.1 hpw.2).1 hop
      have hqo := (hsame q hq hpw.1 (hw.symm.trans hpw.2)).1 hoq
      exact hpo.trans hqo.symm
    · rw [helse p hp hpw] at hop
      rw [hw] at hpw
      rw [helse q hq hpw] at hoq
      exact h.one p hp q hq hop hoq hw
  · intro p hp hop
    rw [hsel] at hp
    rw [hborrowed, hwindow, hreceived]
    by_cases hpw : (s.heap o).window ≠ 0 ∧ (s.heap p).window = (s.heap o).window
    · have hpo := (hsame p hp hpw.1 hpw.2).1 hop
      rw [hpo]
      exact ⟨.inl rfl, hb, hpw.1⟩
    · rw [helse p hp hpw] at hop
      obtain ⟨hr, hb', hw⟩ := h.owns p hp hop
      exact ⟨.inr hr, hb', hw⟩
  · intro p hp hr
    rw [hsel] at hp
    by_cases hpo : p = o
    · rw [hpo, hself.1, hself.2]
      exact ⟨hx, hy⟩
    · rw [(hother p hpo).1, (hother p hpo).2]
      exact h.range p hp (((hreceived p).1 hr).resolve_left hpo)
  · intro p hp hw
    rw [hsel] at hp
    rw [hreceived]
    by_cases hpo : p = o
    · exact .inl hpo
    · rw [(hother p hpo).1] at hw
      exact .inr (h.received p hp hw)
  · intro p hr
    rw [hsel]
    rcases (hreceived p).1 hr with rfl | hr
    · exact ho
    · exact h.bound p hr
  · intro p hp hw
    obtain ⟨hpm, hpd, hpb, hr⟩ := hp
    rw [hsel] at hpm
    rw [hdead] at hpd
    rw [hborrowed] at hpb
    rw [hwindow] at hw
    by_cases hpw : (s.heap p).window = (s.heap o).window
    · -- the resized one owns the size of its window
      rw [hpw] at hw
      refine ⟨o, ⟨by rw [hsel]; exact ho, ?_, ?_, (hreceived o).2 (.inl rfl)⟩, ?_, (hsame o ho hw rfl).2 rfl⟩
      · rw [hdead]
        exact hd
      · rw [hborrowed]
        exact hb
      · rw [hwindow, hwindow]
        exact hpw.symm
    · have hpo : p ≠ o := fun e => hpw (by rw [e])
      obtain ⟨q, hq, hqw, hqo⟩ := h.owner p ⟨hpm, hpd, hpb, ((hreceived p).1 hr).resolve_left hpo⟩ hw
      refine ⟨q, ⟨by rw [hsel]; exact hq.mem, ?_, ?_, (hreceived q).2 (.inr hq.received)⟩, ?_, ?_⟩
      · rw [hdead]
        exact hq.alive
      · rw [hborrowed]
        exact hq.own
      · rw [hwindow, hwindow]
        exact hqw
      · rw [helse q hq.mem fun hn => hpw (hqw.symm.trans hn.2)]
        exact hqo
  · intro w m hm
    rw [hsel, hwindow]
    simp only [Sizes.resize, Function.update_apply] at hm
    split at hm
    · rename_i hw
      have hmo : o = m := Option.some.inj hm
      rw [← hmo]
      exact ⟨ho, hw.symm, fun h0 => (hsame o ho (by rw [← hw]; exact h0) rfl).2 rfl⟩
    · rename_i hw
      obtain ⟨hmm, hmw, hown⟩ := h.last w m hm
      refine ⟨hmm, hmw, fun h0 => ?_⟩
      rw [helse m hmm fun hn => hw (hmw.symm.trans hn.2)]
      exact hown h0

end Sized

/-- **Every change** keeps one owner for each size. -/
theorem Change.sized {calloc : Option Nat} {x y : Leases.State × Sizes} (h : Change calloc x y) (hf : Formed x.1)
    (hx : Sized x.1 x.2) : Sized y.1 y.2 := by
  cases h with
  | quiet h =>
    refine hx.of_dead h.selections h.ident h.extent h.ownsSize (fun p _ hd => ?_) fun p _ _ q _ hd _ _ => ?_
    · rwa [h.dead] at hd
    · rwa [h.dead]
  | drop hsel => exact hx.drop hf hsel (releaseSelection_released _ _)
  | create hnew hsel ho h0 hid hlends => exact hx.create hsel ho
  | revoke ho hshell hsel hident hextent howns hdead =>
    refine hx.of_dead hsel hident hextent howns (fun p _ hd => ?_) fun p _ _ q _ hd hb _ => ?_
    · rw [hdead, Bool.or_eq_false_iff] at hd
      exact hd.1
    · -- a shell output owns no size
      rw [hdead, hd, Bool.false_or, decide_eq_false_iff_not]
      intro e
      rw [e] at hb
      have := (parent_of_borrowed hb).1
      rw [hshell] at this
      cases this
  | destroyed hsel hident hextent howns hdead =>
    refine hx.of_dead hsel hident hextent howns (fun p hp hd => ?_) fun p hp hd q hq hqd _ hw => ?_
    · rw [hdead p hp, Bool.or_eq_false_iff] at hd
      exact hd.1
    · rw [hdead p hp, Bool.or_eq_false_iff] at hd
      rw [hdead q hq, hqd, hw, hd.2]
      rfl
  | resized ho hd hb hx' hy hsel hident hdead hextent howns =>
    exact hx.resized ho hd hb hx' hy hsel hident hdead hextent howns

theorem Changes.sized {calloc : Option Nat} {x y : Leases.State × Sizes} (h : Changes calloc x y) (hf : Formed x.1)
    (hx : Sized x.1 x.2) : Sized y.1 y.2 := by
  induction h with
  | refl => exact hx
  | tail hs h ih => exact h.sized (Changes.formed hs hf) ih

theorem Sized.init : Sized State.init.leases State.init.sizes where
  one := fun p hp => by cases hp
  owns := fun p hp => by cases hp
  range := fun p hp => by cases hp
  received := fun p hp => by cases hp
  bound := fun p hr => by cases hr
  owner := fun p hp => by cases hp.mem
  last := fun w m hm => by cases hm

theorem sized {s : State} (h : Reach step Free State.init s) : Sized s.leases s.sizes := by
  have hboth : WellFormed s ∧ Sized s.leases s.sizes := by
    refine h.invariant (I := fun s => WellFormed s ∧ Sized s.leases s.sizes) ⟨.init, .init⟩ fun s a t hs _ ht => ?_
    obtain ⟨calloc, hchanges, -⟩ := step_changes ht hs.1.formed hs.1.seen
    exact ⟨hs.1.step ht, hchanges.sized hs.1.formed hs.2⟩
  exact hboth.2

/-- A command that releases a selection forgets its size. -/
theorem released_sizes {s t : State} {c : Command} {e : DirectInput.Command} {ws : List Work} {env : Env}
    {exported : Option (Nat × Nat)} {o : Nat} (hw : s.work = .command c e :: ws) (h : step s (.work env exported) = some t)
    (hop : c.operation = .release ∨ c.operation = .bind) (hscreen : env.screen = true) (h0 : c.output ≠ 0)
    (ho : s.found? c.output = some o) : t.sizes = s.sizes.forget o := by
  have hselects : State.Command.selects c env = true := by
    unfold State.Command.selects
    rcases hop with hop | hop <;> simp [hop, hscreen, h0]
  simp only [step, hw] at h
  split at h
  · have hsizes : (State.perform { s with work := ws } (.command c e) env exported).sizes = s.commandSizes c env := by
      simp only [State.perform, State.lorieOutputCommand, hselects, ↓reduceIte]
      rfl
    rw [← Option.some.inj h, hsizes]
    unfold State.commandSizes
    rw [ho]
    rcases hop with hop | hop <;> simp only [hop]
  · cases h

/-- **The size of a window has one owner**: of the outputs of a window at most one owns its size. When a live output that
borrows nothing received a valid resize, then exactly one live output owns the size; it has a valid size, and it is the one
that was resized last while that one is bound. When the owner is released, a remaining output that was resized owns the
size, if there is one. -/
theorem size_owner {s : State} (h : Reach step Free State.init s) :
    (∀ p ∈ s.leases.selections, ∀ q ∈ s.leases.selections, (s.node p).ownsSize = true → (s.node q).ownsSize = true →
      (s.node p).window = (s.node q).window → (s.node p).window ≠ 0 → p = q) ∧
    (∀ p ∈ s.leases.selections, (s.node p).dead = false → (s.node p).borrowed = false → (s.node p).window ≠ 0 →
      s.sizes.received p = true →
      (∃! q, q ∈ s.leases.selections ∧ (s.node q).dead = false ∧ (s.node q).window = (s.node p).window ∧
        (s.node q).ownsSize = true) ∧
      ∀ q ∈ s.leases.selections, (s.node q).window = (s.node p).window → (s.node q).ownsSize = true →
        (1 ≤ (s.node q).width ∧ (s.node q).width ≤ 16384) ∧ (1 ≤ (s.node q).height ∧ (s.node q).height ≤ 16384) ∧
        ∀ m, s.sizes.last (s.node p).window = some m → q = m) ∧
    ∀ c e ws env exported t o, s.work = .command c e :: ws → (c.operation = .release ∨ c.operation = .bind) →
      env.screen = true → s.found? c.output = some o → (s.node o).ownsSize = true →
      step s (.work env exported) = some t →
      ∀ p ∈ t.leases.selections, (t.node p).dead = false → (t.node p).borrowed = false →
        (t.node p).window = (s.node o).window → t.sizes.received p = true →
        ∃ q ∈ s.leases.selections, q ≠ o ∧ q ∈ t.leases.selections ∧ (t.node q).dead = false ∧
          (t.node q).window = (s.node o).window ∧ t.sizes.received q = true ∧ (t.node q).ownsSize = true := by
  have hs := sized h
  refine ⟨fun p hp q hq hop hoq hw _ => hs.one p hp q hq hop hoq hw, fun p hp hd hb hw hr => ⟨?_, ?_⟩, ?_⟩
  · obtain ⟨q, hq, hqw, hqo⟩ := hs.owner p ⟨hp, hd, hb, hr⟩ hw
    exact ⟨q, ⟨hq.mem, hq.alive, hqw, hqo⟩, fun r hr => hs.one r hr.1 q hq.mem hr.2.2.2 hqo (hr.2.2.1.trans hqw.symm)⟩
  · intro q hq hqw hqo
    obtain ⟨hx, hy⟩ := hs.range q hq (hs.owns q hq hqo).1
    refine ⟨hx, hy, fun m hm => ?_⟩
    obtain ⟨hmm, hmw, hown⟩ := hs.last _ m hm
    exact hs.one q hq m hmm hqo (hown hw) (hqw.trans hmw.symm)
  · intro c e ws env exported t o hwork hop hscreen ho hown hstep p hp hd hb hw hr
    have ht := sized (h.tail trivial hstep)
    have hmem : o ∈ s.leases.selections := List.mem_of_find?_eq_some ho
    have hid : (s.node o).id = c.output := by
      have := List.find?_some ho
      exact of_decide_eq_true this
    have h0 : c.output ≠ 0 := hid ▸ (wellFormed h).formed.nonzero o hmem
    have hw0 : (t.node p).window ≠ 0 := by
      rw [hw]
      exact (hs.owns o hmem hown).2.2
    obtain ⟨q, hq, hqw, hqo⟩ := ht.owner p ⟨hp, hd, hb, hr⟩ hw0
    -- what received a resize was bound before
    have hbefore : q ≠ o ∧ s.sizes.received q = true := by
      have hqr := hq.received
      rw [released_sizes hwork hstep hop hscreen h0 ho] at hqr
      simp only [Sizes.forget, Function.update_apply] at hqr
      split at hqr
      · cases hqr
      · rename_i hqo
        exact ⟨hqo, hqr⟩
    exact ⟨q, hs.bound q hbefore.2, hbefore.1, hq.mem, hq.alive, hqw.trans hw, hq.received, hqo⟩

/-- Two outputs of a window take a size, and the host releases the one that was resized last. -/
def twoSizes : List Action :=
  .createWindow 100 :: connect ++ command (outputCommand .bind 1 100 0 0 0) (some 10) ++
    command (outputCommand .bind 2 100 0 0 0) (some 20) ++ command (outputCommand .resize 1 100 640 480 0) none ++
    command (outputCommand .resize 2 100 800 600 0) none ++ (command (outputCommand .release 2 100 0 0 0) none).take 1

theorem size_owner_twoSizes : ∃ s t, exec step State.init twoSizes = some s ∧ s.sizes.last 100 = some 20 ∧
    step s (.work ⟨true, true, fun _ => false, none, Leases.oneKeyTyping false⟩ none) = some t ∧ (t.node 10).ownsSize = true ∧
    (t.node 10).width = 640 := by
  have hrun : (exec step State.init twoSizes).map (fun s => decide (
      s.work = [.command (outputCommand .release 2 100 0 0 0) ⟨.release, 0, none, none, none, 0, 0, 0, false⟩] ∧
      s.leases.selections = [10, 20] ∧ s.found? 2 = some 20 ∧ (s.node 20).ownsSize = true ∧ (s.node 20).window = 100 ∧
      s.sizes.last 100 = some 20)) = some true := by decide +kernel
  have hnext : (exec step State.init
      (twoSizes ++ [Action.work ⟨true, true, fun _ => false, none, Leases.oneKeyTyping false⟩ none])).map (fun t => decide (
      t.leases.selections = [10] ∧ (t.node 10).dead = false ∧ (t.node 10).borrowed = false ∧ (t.node 10).window = 100 ∧
      t.sizes.received 10 = true ∧ (t.node 10).width = 640)) = some true := by decide +kernel
  obtain ⟨s, hs, hstate⟩ := Option.map_eq_some_iff.1 hrun
  obtain ⟨hwork, hsel, hfound, howns, hwindow, hlast⟩ := of_decide_eq_true hstate
  obtain ⟨t, ht, hstate'⟩ := Option.map_eq_some_iff.1 hnext
  obtain ⟨htsel, hdead, hborrowed, htw, hreceived, hwidth⟩ := of_decide_eq_true hstate'
  rw [exec_append hs] at ht
  obtain ⟨r, hstep, hr⟩ := Option.bind_eq_some_iff.1 ht
  cases hr
  obtain ⟨-, -, hrelease⟩ := size_owner (.of_exec twoSizes hs)
  obtain ⟨q, hq, hne, hqt, -, -, -, hqo⟩ := hrelease _ _ [] _ none t 20 hwork (.inl rfl) rfl hfound howns hstep 10
    (by rw [htsel]; decide) hdead hborrowed (by rw [htw, hwindow]) hreceived
  have hq10 : q = 10 := by
    rw [htsel] at hqt
    exact List.mem_singleton.1 hqt
  rw [hq10] at hqo
  exact ⟨s, t, hs, hlast, hstep, hqo, hwidth⟩

end Lorie.Outputs.Registry
