import Lorie.DataExchange.Negotiation

/-!
# How a drop comes to its end

A transfer that a drop waits for fails, ends well or goes away; what the drop does then is said once (`Sound.fails`,
`Sound.finishes`, `Sound.goes`), and each operation is one of these or leaves the drag alone (`Serves .resting`).

- `Stalls`: the steps that leave a wait without an end;
- `pending_drop_waits`: without these steps, a pending drop waits for something that can arrive, in every state reached.
-/

namespace Lorie.DataExchange

open Lorie.Lib State

/-! ## States -/

/-- What every state has. -/
structure Sound (s : State) : Prop where
  waits : Waits s.drag s.dragDataPending
  offered : Offered s

/-- The drop waits for the answer of the target. -/
def State.Asked (s : State) : Prop := s.drag.positionPending = true ∧ s.drag.dropPending = true

/-- The drop waits for data alone. -/
def State.Starved (s : State) : Prop := s.drag.positionPending = false ∧ s.drag.dropPending = true

/-- No other transfer is one that the drop waits for. -/
def State.Only (s : State) (i : Fin maxPending) : Prop := s.Current i ∧ ∀ j, s.Current j → j = i

/-- The last transfer ends well, and the target that is to be asked again is not found. -/
def State.Loses (s : State) (i : Fin maxPending) (a : Answers) : Prop :=
  s.Starved ∧ s.Only i ∧ s.drag.accepted = false ∧ s.drag.dataRevision + 1 ≠ s.drag.positionDataRevision ∧ a.Lost

/-- `selectionFinished` looks at the transfer. -/
def State.Awaits (s : State) (x : Transfer) : Prop :=
  x.incoming = false ∧ x.channel = .drag ∧ x.generation = (s.offers .drag).generation

/-- Only a transfer changes, and what went out. -/
structure Touches (i : Fin maxPending) (s t : State) : Prop where
  scene : t.scene = s.scene
  others : ∀ j, j ≠ i → (t.transfers j).drags = (s.transfers j).drags

/-- And it has ended. -/
structure Ended (i : Fin maxPending) (s t : State) : Prop extends Touches i s t where
  unused : (t.transfers i).used = false

section Touched

variable {s t u : State} {i : Fin maxPending} {x : Transfer} {a : Answers}

theorem current_iff : s.Current i ↔ (s.transfers i).used = true ∧ s.Awaits (s.transfers i) := by
  unfold State.Current State.Awaits Transfer.drags
  split
  · rename_i h
    simp [h]
  · rename_i h
    simp only [reduceCtorEq, false_iff]
    exact fun hc => h ⟨hc.1, hc.2.1, hc.2.2.1⟩

theorem touches_allocate {incoming : Bool} {c : Channel} {serial generation : Nat} {timer : Bool}
    (h : s.allocate incoming c serial generation timer = some (i, t)) : Touches i s t := by
  obtain ⟨-, rfl⟩ := allocate_eq h
  refine ⟨rfl, fun j hj => ?_⟩
  rw [show ∀ (r : State) (n : Nat), ({ r with transferSequence := n } : State).transfers = r.transfers from fun _ _ => rfl,
    transfers_setTransfer_ne _ hj]

namespace Touches

theorem refl (i : Fin maxPending) (s : State) : Touches i s s := ⟨rfl, fun _ _ => rfl⟩

theorem trans (h : Touches i s t) (h' : Touches i t u) : Touches i s u :=
  ⟨h'.scene.trans h.scene, fun j hj => (h'.others j hj).trans (h.others j hj)⟩

theorem quiet (h : Touches i s t) (hs : u.scene = t.scene) (ht : u.transfers = t.transfers) : Touches i s u := by
  refine h.trans ⟨hs, fun j _ => ?_⟩
  rw [ht]

theorem setTransfer (h : Touches i s t) (x : Transfer) : Touches i s (t.setTransfer i x) := by
  refine h.trans ⟨rfl, fun j hj => ?_⟩
  rw [transfers_setTransfer_ne _ hj]

theorem drag (h : Touches i s t) : t.drag = s.drag := congrArg (fun x => x.2.1) h.scene

theorem offers (h : Touches i s t) : t.offers = s.offers := offers_of_beside (congrArg Prod.fst h.scene)

theorem selections (h : Touches i s t) : t.selections = s.selections := selections_of_beside (congrArg Prod.fst h.scene)

theorem windows (h : Touches i s t) : t.windows = s.windows := windows_of_beside (congrArg Prod.fst h.scene)

theorem enabled (h : Touches i s t) : t.enabled = s.enabled := congrArg (fun x => x.2.2.1) h.scene

theorem bridge (h : Touches i s t) : t.bridge = s.bridge := congrArg (fun x => x.2.2.2.1) h.scene

theorem awaits (h : Touches i s t) : t.Awaits x ↔ s.Awaits x := by
  unfold State.Awaits
  rw [h.offers]

theorem current (h : Touches i s t) {j : Fin maxPending} (hj : j ≠ i) : t.Current j ↔ s.Current j := by
  unfold State.Current
  rw [h.others j hj, h.offers]

theorem refuse (h : Touches i s t) (x : Transfer) : Touches i s (t.refuse x) := by
  refine h.quiet ?_ (transfers_refuse t x)
  unfold State.refuse
  repeat' split
  all_goals rfl

/-- Transfers that are not in use do not count. -/
theorem pending_of_unused (h : Touches i s t) (hfree : (s.transfers i).used = false) (hs : s.dragDataPending) :
    t.dragDataPending := by
  obtain ⟨j, hj⟩ := (dragDataPending_iff s).1 hs
  have hne : j ≠ i := by
    rintro rfl
    rw [State.Current, drags_unused hfree] at hj
    cases hj
  exact (dragDataPending_iff t).2 ⟨j, (h.current hne).2 hj⟩

/-- `release` of a transfer to a client -/
theorem release (h : Touches i s t) (hin : (t.transfers i).incoming = false) : Ended i s (t.release freeResource i) := by
  cases hu : (t.transfers i).used with
  | false =>
    rw [release_unused _ hu]
    exact ⟨h, hu⟩
  | true =>
    rw [release_outgoing _ hu hin]
    have hslot : Touches i s (t.releaseSlot i) := (h.setTransfer _).quiet rfl rfl
    refine ⟨hslot.setTransfer _, ?_⟩
    rw [used_clearFd, transfers_releaseSlot_self]

end Touches

theorem Ended.drags_self (h : Ended i s t) : (t.transfers i).drags = none := drags_unused h.unused

theorem Ended.pending (h : Ended i s t) : t.dragDataPending ↔ ∃ j, j ≠ i ∧ s.Current j := by
  rw [dragDataPending_iff]
  constructor
  · rintro ⟨j, hj⟩
    have hne : j ≠ i := by
      rintro rfl
      rw [State.Current, h.drags_self] at hj
      cases hj
    exact ⟨j, hne, (h.current hne).1 hj⟩
  · rintro ⟨j, hne, hj⟩
    exact ⟨j, (h.current hne).2 hj⟩

theorem Ended.quiet (h : Ended i s t) (hs : u.scene = t.scene) (ht : u.transfers = t.transfers) : Ended i s u := by
  refine ⟨h.toTouches.quiet hs ht, ?_⟩
  rw [ht]
  exact h.unused

/-- Another transfer leaves the drop its wait. -/
theorem Ended.pending_of_not (h : Ended i s t) (hn : ¬s.Only i) (hs : s.dragDataPending) : t.dragDataPending := by
  obtain ⟨j, hj⟩ := (dragDataPending_iff s).1 hs
  rw [h.pending]
  by_contra hnone
  push Not at hnone
  have hall : ∀ k, s.Current k → k = i := fun k hk => by
    by_contra hne
    exact hnone k hne hk
  exact hn ⟨hall j hj ▸ hj, hall⟩

theorem Ended.offered (h : Ended i s t) (hs : Offered s) : Offered t := by
  refine hs.keep (fun j hj => ?_) ?_ h.enabled h.bridge ?_
  · have hne : j ≠ i := by
      rintro rfl
      exact hj h.drags_self
    rwa [h.others j hne] at hj
  · rw [h.offers]
  · rw [h.selections]

end Touched

/-! ## The end of a transfer -/

section Ends

variable {s t : State} {i : Fin maxPending} {x : Transfer} {a : Answers} {data : Prop}

theorem Waits.flags {d : Drag} (h : Waits d data) (ht : d.target = none) :
    d.positionPending = false ∧ d.dropPending = false := by
  constructor
  · by_contra hp
    exact h.position (by simpa using hp) ht
  · by_contra hd
    exact (h.drop (by simpa using hd)).1 ht

/-- Without a pending drop, nothing waits for data. -/
theorem Waits.calm {d : Drag} {data' : Prop} (h : Waits d data) (hd : d.dropPending = false) : Waits d data' where
  position := h.position
  drop := by
    rw [hd]
    nofun

theorem pending_drag (h : DragStep s t) : t.dragDataPending ↔ s.dragDataPending := by
  obtain ⟨d, l, -, -, rfl⟩ := h
  exact Iff.rfl

theorem offered_drag (h : DragStep s t) (hs : Offered s) : Offered t := by
  obtain ⟨d, l, -, -, rfl⟩ := h
  exact hs.keep (fun _ h => h) rfl rfl rfl rfl

theorem Sound.of_drag (h : DragStep s t) (hs : Offered s) (hw : Waits t.drag s.dragDataPending) : Sound t :=
  ⟨hw.mono (pending_drag h).2, offered_drag h hs⟩

theorem selectionFinished_other (h : ¬s.Awaits x) (success : Bool) (a : Answers) : s.selectionFinished x success a = s := by
  unfold State.selectionFinished
  apply if_pos
  by_contra hn
  simp only [not_or, Bool.not_eq_true, Decidable.not_not] at hn
  exact h ⟨hn.1, hn.2.1, hn.2.2.1⟩

theorem selectionFinished_none (ht : s.drag.target = none) (x : Transfer) (success : Bool) (a : Answers) :
    s.selectionFinished x success a = s := by
  unfold State.selectionFinished
  exact if_pos (.inr (.inr (.inr ht)))

theorem selectionFinished_eq (h : s.Awaits x) (ht : s.drag.target ≠ none) (success : Bool) (a : Answers) :
    s.selectionFinished x success a =
      let s := if success then s.withDrag fun d => { d with dataRevision := d.dataRevision + 1 } else s
      if s.drag.dropPending = false then s else if success then s.dropDrag a else s.rejectDrag := by
  unfold State.selectionFinished
  apply if_neg
  obtain ⟨hin, hc, hg⟩ := h
  simp [hin, hc, hg, ht]

/-- The drop is refused when its transfer fails, but the position that is pending stays so. -/
theorem waits_fails (h : Ended i s t) (hs : Waits s.drag s.dragDataPending) (hx : t.Awaits x ↔ s.Current i)
    (hok : s.Current i → ¬s.Asked) : Waits (t.selectionFinished x false a).drag t.dragDataPending := by
  have hdrag := h.drag
  by_cases hi : s.Current i
  · by_cases ht : t.drag.target = none
    · rw [selectionFinished_none ht]
      rw [hdrag] at ht ⊢
      exact .idle (hs.flags ht).1 (hs.flags ht).2
    · rw [selectionFinished_eq (hx.2 hi) ht]
      dsimp only
      simp only [Bool.false_eq_true, if_false]
      cases hd : t.drag.dropPending with
      | false =>
        rw [if_pos rfl]
        rw [hdrag] at hd ⊢
        exact hs.calm hd
      | true =>
        rw [if_neg nofun]
        obtain ⟨hdrop, -, hp⟩ := rejectDrag_drag t
        refine .idle ?_ hdrop
        rw [hp, hdrag]
        rw [hdrag] at hd
        by_contra hpos
        exact hok hi ⟨by simpa using hpos, hd⟩
  · rw [selectionFinished_other fun hw => hi (hx.1 hw), hdrag]
    exact hs.mono (h.pending_of_not fun ho => hi ho.1)

/-- The drop goes on when its transfer ends well. -/
theorem waits_finishes (h : Ended i s t) (hs : Waits s.drag s.dragDataPending) (hx : t.Awaits x ↔ s.Current i)
    (hok : ¬s.Loses i a) : Waits (t.selectionFinished x true a).drag t.dragDataPending := by
  have hdrag := h.drag
  by_cases hi : s.Current i
  · by_cases ht : t.drag.target = none
    · rw [selectionFinished_none ht]
      rw [hdrag] at ht ⊢
      exact .idle (hs.flags ht).1 (hs.flags ht).2
    · rw [selectionFinished_eq (hx.2 hi) ht]
      dsimp only
      simp only [if_true, drag_withDrag]
      cases hd : t.drag.dropPending with
      | false =>
        rw [if_pos rfl]
        rw [hdrag] at hd
        refine Waits.congr (d := s.drag) (hs.calm hd) ?_ ?_ ?_
        all_goals rw [drag_withDrag, hdrag]
      | true =>
        rw [if_neg nofun]
        refine waits_dropDrag (fun hdata => hdata) (fun _ => ht) fun hl => hok ?_
        obtain ⟨⟨hp, -, hacc, hdata, hrev⟩, hlost⟩ := hl
        simp only [drag_withDrag, hdrag] at hp hacc hrev
        rw [hdrag] at hd
        refine ⟨⟨hp, hd⟩, ⟨hi, fun j hj => ?_⟩, hacc, hrev, hlost⟩
        by_contra hne
        exact hdata (h.pending.2 ⟨j, hne, hj⟩)
  · rw [selectionFinished_other fun hw => hi (hx.1 hw), hdrag]
    exact hs.mono (h.pending_of_not fun ho => hi ho.1)

namespace Sound

/-- A transfer to a target fails. -/
theorem fails (hs : Sound s) (h : Ended i s t) (hx : t.Awaits x ↔ s.Current i) (hok : s.Current i → ¬s.Asked)
    (a : Answers) : Sound (t.selectionFinished x false a) :=
  .of_drag ((DragStep.refl t).selectionFinished x false a) (h.offered hs.offered) (waits_fails h hs.waits hx hok)

/-- A transfer to a target ends well. -/
theorem finishes (hs : Sound s) (h : Ended i s t) (hx : t.Awaits x ↔ s.Current i) (hok : ¬s.Loses i a) :
    Sound (t.selectionFinished x true a) :=
  .of_drag ((DragStep.refl t).selectionFinished x true a) (h.offered hs.offered) (waits_finishes h hs.waits hx hok)

/-- A transfer to a target goes, and the drop is not told. -/
theorem goes (hs : Sound s) (h : Ended i s t) (hok : ¬(s.Starved ∧ s.Only i)) : Sound t := by
  refine ⟨?_, h.offered hs.offered⟩
  rw [h.drag]
  constructor
  · exact hs.waits.position
  · intro hd
    obtain ⟨ht, hp | hdata⟩ := hs.waits.drop hd
    · exact ⟨ht, .inl hp⟩
    · refine ⟨ht, ?_⟩
      cases hp : s.drag.positionPending with
      | true => exact .inl rfl
      | false => exact .inr (h.pending_of_not (fun ho => hok ⟨⟨hp, hd⟩, ho⟩) hdata)

/-- A second success changes nothing that a drop waits for. -/
theorem again (hs : Sound s) (x : Transfer) (a : Answers) : Sound (s.selectionFinished x true a) := by
  by_cases hx : s.Awaits x ∧ s.drag.target ≠ none
  · refine .of_drag ((DragStep.refl s).selectionFinished x true a) hs.offered ?_
    rw [selectionFinished_eq hx.1 hx.2]
    dsimp only
    simp only [if_true, drag_withDrag]
    cases hd : s.drag.dropPending with
    | false =>
      rw [if_pos rfl]
      exact hs.waits.congr rfl rfl rfl
    | true =>
      rw [if_neg nofun]
      refine waits_dropDrag (fun hdata => hdata) (fun _ => hx.2) ?_
      rintro ⟨⟨hp, -, -, hdata, -⟩, -⟩
      rcases (hs.waits.drop hd).2 with hpos | hpending
      · rw [drag_withDrag] at hp
        rw [hp] at hpos
        cases hpos
      · exact hdata hpending
  · rw [not_and_or, Decidable.not_not] at hx
    rcases hx with hx | ht
    · rw [selectionFinished_other hx]
      exact hs
    · rw [selectionFinished_none ht]
      exact hs

/-- What does not concern the drag -/
theorem serves (hs : Sound s) (h : Serves .resting s t) : Sound t := by
  obtain ⟨hr, ho⟩ := rests_works (h.works hs.offered.guarded) hs.offered
  exact ⟨hr.waits hs.waits, ho⟩

end Sound

/-- A second failure changes nothing. -/
theorem selectionFinished_twice {y : Transfer} (a a' : Answers) (hxy : s.Awaits x ↔ s.Awaits y) :
    (s.selectionFinished x false a).selectionFinished y false a' = s.selectionFinished x false a := by
  by_cases hx : s.Awaits x
  · by_cases ht : s.drag.target = none
    · rw [selectionFinished_none ht, selectionFinished_none ht]
    · have hfirst := selectionFinished_eq hx ht false a
      dsimp only at hfirst
      simp only [Bool.false_eq_true, if_false] at hfirst
      cases hd : s.drag.dropPending with
      | false =>
        rw [hd, if_pos rfl] at hfirst
        rw [hfirst, selectionFinished_eq (hxy.1 hx) ht]
        simp [hd]
      | true =>
        rw [hd, if_neg nofun] at hfirst
        rw [hfirst, selectionFinished_none (rejectDrag_drag s).2.1]
  · rw [selectionFinished_other hx, selectionFinished_other fun hy => hx (hxy.2 hy)]

end Ends

/-! ## Transfers to clients -/

/-- How a piece ends its transfer: well or not, when it is the last one. -/
def State.pieceEnds (s : State) (t : Transfer) (whole : Bool) (a : Answers) : Option Bool :=
  if ¬s.HasWindow t.requestor ∨ (chunk t ≠ 0 ∧ a.pread = false) then some false
  else if whole = true ∨ (t.incremental = true ∧ (a.change = false ∨ chunk t = 0)) then some a.change
  else none

/-- The end of a transfer leaves the drop without one. -/
def State.EndsBadly (s : State) (i : Fin maxPending) (a : Answers) : Option Bool → Prop
  | some false => s.Current i ∧ s.Asked
  | some true => s.Loses i a
  | none => False

/-- How a transfer that moved ends. -/
theorem Touches.endsBadly {s t : State} {i : Fin maxPending} (h : Touches i s t)
    (hi : (t.transfers i).drags = (s.transfers i).drags) (k : Fin maxPending) (a : Answers) (o : Option Bool) :
    t.EndsBadly k a o ↔ s.EndsBadly k a o := by
  have hcurrent : ∀ j, t.Current j ↔ s.Current j := by
    intro j
    by_cases hj : j = i
    · subst hj
      unfold State.Current
      rw [hi, h.offers]
    · exact h.current hj
  cases o with
  | none => exact Iff.rfl
  | some success =>
    cases success with
    | false =>
      simp only [State.EndsBadly, State.Asked, hcurrent, h.drag]
    | true =>
      simp only [State.EndsBadly, State.Loses, State.Starved, State.Only, hcurrent, h.drag]

section Pieces

variable {s t : State} {i : Fin maxPending} {x : Transfer} {a : Answers}

/-- The transfer that `selectionFinished` is called with -/
structure Same (x y : Transfer) : Prop where
  incoming : x.incoming = y.incoming
  channel : x.channel = y.channel
  generation : x.generation = y.generation

theorem Same.awaits {y : Transfer} (h : Same x y) : s.Awaits x ↔ s.Awaits y := by
  unfold State.Awaits
  rw [h.incoming, h.channel, h.generation]

theorem Same.current (h : Same x (s.transfers i)) (hu : (s.transfers i).used = true) : s.Awaits x ↔ s.Current i := by
  rw [current_iff, h.awaits]
  simp [hu]

/-- A transfer ends, and `selectionFinished` is told. -/
theorem Sound.ends (hs : Sound s) (h : Ended i s t) (hu : (s.transfers i).used = true) (hx : Same x (s.transfers i))
    {success : Bool} (hok : ¬s.EndsBadly i a (some success)) : Sound (t.selectionFinished x success a) := by
  have hcurrent : t.Awaits x ↔ s.Current i := h.awaits.trans (hx.current hu)
  cases success with
  | false => exact hs.fails h hcurrent (fun hi hask => hok ⟨hi, hask⟩) a
  | true => exact hs.finishes h hcurrent hok

/-- `fail` of a transfer to a client -/
theorem fail_ends (hin : (s.transfers i).incoming = false) :
    ∃ t, Ended i s t ∧ s.fail freeResource i = t.selectionFinished (s.transfers i) false {} := by
  refine ⟨(s.refuse (s.transfers i)).release freeResource i, ?_, rfl⟩
  refine ((Touches.refl i s).refuse _).release ?_
  rw [transfers_refuse]
  exact hin

theorem Sound.fail (hs : Sound s) (hu : (s.transfers i).used = true)
    (hok : s.Current i → ¬s.Asked) : Sound (s.fail freeResource i) := by
  cases hin : (s.transfers i).incoming with
  | false =>
    obtain ⟨t, ht, heq⟩ := fail_ends hin
    rw [heq]
    exact hs.ends ht hu ⟨rfl, rfl, rfl⟩ fun hbad => hok hbad.1 hbad.2
  | true =>
    refine hs.serves (.fail hu fun hout => ?_)
    rw [hin] at hout
    cases hout

theorem touches_advance (s : State) (i : Fin maxPending) : Touches i s (s.advance i) := (Touches.refl i s).setTransfer _

/-- What `sendChunk` does with a transfer to a client -/
theorem sendChunk_cases (hin : (s.transfers i).incoming = false) (a : Answers) :
    (s.pieceEnds (s.transfers i) false a = none ∧ s.sendChunk i a = (s.advance i, a.change)) ∨
    ∃ success t b, s.pieceEnds (s.transfers i) false a = some success ∧ Ended i s t ∧ (success = true → b = a) ∧
      s.sendChunk i a = (t.selectionFinished (s.transfers i) success b, success) := by
  unfold State.pieceEnds State.sendChunk
  dsimp only
  by_cases hwin : ¬s.HasWindow (s.transfers i).requestor
  · rw [if_pos hwin, if_pos (.inl hwin)]
    exact .inr ⟨false, _, a, rfl, (Touches.refl i s).release hin, nofun, rfl⟩
  · rw [if_neg hwin]
    by_cases hread : chunk (s.transfers i) ≠ 0 ∧ a.pread = false
    · rw [if_pos hread, if_pos (.inr hread)]
      obtain ⟨t, ht, heq⟩ := fail_ends hin
      rw [heq]
      exact .inr ⟨false, t, {}, rfl, ht, nofun, rfl⟩
    · rw [if_neg hread, if_neg (not_or.2 ⟨hwin, hread⟩)]
      by_cases hlast : (s.transfers i).incremental = true ∧ (a.change = false ∨ chunk (s.transfers i) = 0)
      · rw [if_pos hlast, if_pos (.inr hlast)]
        refine .inr ⟨a.change, _, a, rfl, (touches_advance s i).release ?_, fun _ => rfl, rfl⟩
        rw [State.advance, transfers_setTransfer_self]
        exact hin
      · rw [if_neg hlast, if_neg (not_or.2 ⟨nofun, hlast⟩)]
        exact .inl ⟨rfl, rfl⟩

theorem Sound.sendChunk (hs : Sound s) (hu : (s.transfers i).used = true) (hin : (s.transfers i).incoming = false)
    (hok : ¬s.EndsBadly i a (s.pieceEnds (s.transfers i) false a)) : Sound (s.sendChunk i a).1 := by
  rcases sendChunk_cases hin a with ⟨-, heq⟩ | ⟨success, t, b, hends, ht, hb, heq⟩
  · rw [heq]
    exact hs.serves (.advance s i)
  · rw [heq]
    rw [hends] at hok
    refine hs.ends ht hu ⟨rfl, rfl, rfl⟩ ?_
    cases success with
    | false => exact hok
    | true =>
      rw [hb rfl]
      exact hok

/-- A small file is sent as a whole. -/
theorem Sound.sendWhole (hs : Sound s) (hu : (s.transfers i).used = true) (hin : (s.transfers i).incoming = false)
    (hok : ¬s.EndsBadly i a (s.pieceEnds (s.transfers i) true a)) : Sound (s.sendWhole i a) := by
  obtain ⟨hin', hc', hg'⟩ := Serves.transfers_sendChunk hu hin a
  unfold State.sendWhole
  dsimp only
  rcases sendChunk_cases hin a with ⟨hnone, heq⟩ | ⟨success, t, b, hends, ht, hb, heq⟩
  · -- the piece is the whole file, and the transfer ends behind it
    rw [heq] at hin' hc' hg' ⊢
    have hused : ((s.advance i).transfers i).used = true := by
      rw [State.advance, transfers_setTransfer_self]
      exact hu
    dsimp only at hin' hc' hg' ⊢
    rw [if_pos hused]
    have hwhole : s.pieceEnds (s.transfers i) true a = some a.change := by
      unfold State.pieceEnds at hnone ⊢
      split at hnone
      · cases hnone
      · rename_i hread
        rw [if_neg hread, if_pos (.inl rfl)]
    rw [hwhole] at hok
    have hnotify : Touches i s ((s.advance i).notify ((s.advance i).transfers i) a.change) :=
      (touches_advance s i).quiet rfl rfl
    exact hs.ends (hnotify.release hin') hu ⟨hin'.trans hin.symm, hc', hg'⟩ hok
  · -- the transfer ended on the way, and `selectionFinished` is called a second time
    rw [heq] at hin' hc' hg' ⊢
    have hsame : Same ((t.selectionFinished (s.transfers i) success b).transfers i) (s.transfers i) :=
      ⟨hin'.trans hin.symm, hc', hg'⟩
    have hunused : ((t.selectionFinished (s.transfers i) success b).transfers i).used = false := by
      rw [transfers_drag ((DragStep.refl t).selectionFinished _ _ _)]
      exact ht.unused
    dsimp only
    rw [if_neg (by rw [hunused]; exact Bool.false_ne_true), release_unused _ hunused]
    have hwhole : s.pieceEnds (s.transfers i) true a = some success := by
      unfold State.pieceEnds at hends ⊢
      split at hends
      · rename_i hread
        rw [if_pos hread]
        exact hends
      · rename_i hread
        split at hends
        · rw [if_neg hread, if_pos (.inl rfl)]
          exact hends
        · cases hends
    rw [hwhole] at hok
    cases success with
    | false =>
      rw [selectionFinished_twice b a hsame.awaits.symm]
      exact hs.ends ht hu ⟨rfl, rfl, rfl⟩ hok
    | true =>
      rw [hb rfl]
      exact (hs.ends ht hu ⟨rfl, rfl, rfl⟩ hok).again _ a

end Pieces

/-! ## Steps that leave a wait without an end -/

/-- `LORIE_DATA_REPLY`: its transfer ends without an end for the drop. -/
def State.ReplyStalls (s : State) (i : Fin maxPending) (a : Answers) : Bool → Option Nat → Prop
  | true, some size =>
    let t := { s.transfers i with size := size }
    if maxBytes < size then s.EndsBadly i a (some false)
    else if ¬s.HasWindow t.requestor then s.Starved ∧ s.Only i
    else if chunkSize < size then a.change = false ∧ s.Starved ∧ s.Only i
    else s.EndsBadly i a (s.pieceEnds t true a)
  | _, _ => s.EndsBadly i a (some false)

/-- `LORIE_DATA_OFFER`: the drop waits for transfers of the old offer, or the selection stays with another owner. -/
def State.OfferStalls (s : State) (generation : Nat) (a : Answers) : Prop :=
  (s.Starved ∧ ∀ i, (s.transfers i).drags ≠ some generation) ∨
    (a.own = false ∧ (s.selections .drag).window ≠ s.bridge ∧
      ¬((s.selections .drag).window = none ∧ (s.selections .drag).client = none))

/-- What a command asks for leaves a wait without an end. -/
def State.OperationStalls (s : State) (e : Event) (fd : Bool) (a : Answers) : Operation → Prop
  | .offer => e.selected = .drag ∧ fd = true ∧ a.names ≠ none ∧ s.OfferStalls e.offer a
  | .reply => ∃ i, s.replied? e.selected e.serial e.offer = some i ∧ s.ReplyStalls i a fd a.stat
  | .move => s.Starved ∧ a.point ≠ none ∧ a.Lost
  | .drop => s.Renegotiates ∧ a.Lost
  | _ => False

/-- A command of the host that leaves a wait without an end -/
def State.CommandStalls (s : State) (e : Event) (fd : Bool) (a : Answers) : Prop :=
  e.channel ≤ 1 ∧ s.enabled = true ∧ s.bridge ≠ none ∧ s.OperationStalls e fd a e.operation

/-- A message of the target that leaves a wait without an end: `XdndFinished` before its time, or a refusal when the
target is to be asked again and is not found -/
def State.MessageStalls (s : State) (type : MessageType) (accepted : Bool) (a : Answers) : Prop :=
  (type = .finished ∧ (s.drag.positionPending = true ∨ s.drag.dropPending = true)) ∨
    (type = .status ∧ accepted = false ∧ s.drag.dropPending = true ∧ ¬s.dragDataPending ∧
      s.drag.dataRevision ≠ s.drag.positionDataRevision ∧ a.Lost ∧ (s.drag.moveQueued = true → a.point = none))

/-- The steps that leave a wait without an end. -/
def State.Stalls (s : State) : Action → Prop
  | .setSelectionOwner .drag window _ _ _ => s.enabled = true ∧ window ≠ s.bridge ∧ s.Asked ∧ s.dragDataPending
  | .convert .drag requestor target _ _ a =>
    s.enabled = true ∧ (s.offers .drag).isLocal = true ∧ s.Asked ∧ (∃ i, (s.transfers i).used = false) ∧
      (¬s.HasWindow requestor ∨ a.access = false ∨
        (target ≠ .targets ∧ target ≠ .timestamp ∧ target ∉ (s.offers .drag).targets))
  | .clientMessage window type first bit copy a =>
    s.enabled = true ∧ window = s.drag.source ∧ s.drag.target ≠ none ∧ first = s.drag.target ∧
      s.MessageStalls type (bit && copy) a
  | .propertyWork a =>
    ∃ w ∈ s.work.head?, s.enabled = true ∧ (s.transfers w.1).ticket = w.2 ∧
      s.EndsBadly w.1 a (s.pieceEnds (s.transfers w.1) false a)
  | .expired i => s.Current i ∧ s.Asked
  | .dataCommand e fd a => s.CommandStalls e fd a
  | _ => False

/-! ## Operations -/

section Operations

variable {s t : State} {i : Fin maxPending} {a : Answers}

/-- The export does not concern the drag. -/
theorem resting_export (h : ExportStep s t) : Serves .resting s t := by
  obtain ⟨x, e, l, p, -, rfl⟩ := h
  refine .here ?_
  constructor
  · exact fun _ hw => hw
  · rfl
  · rfl
  · exact .inl trivial
  · exact .inr rfl
  · exact .inr ⟨rfl, fun _ => rfl, rfl, rfl⟩
  · exact fun hg => ⟨hg.fresh, hg.requestor, fun _ _ => trivial, hg.drag⟩

theorem resting_endExport (s : State) : Serves .resting s (s.endExport freeResource) := by
  unfold State.endExport
  dsimp only
  split
  · rename_i w _
    refine ((resting_export (.finishExport s)).trans ?_).trans (resting_export (.leaveExport _))
    exact .frees fun hg => freeing_freeResource .resting _ w trivial hg
  · exact (resting_export (.finishExport s)).trans (resting_export (.leaveExport _))

theorem resting_exportDrop (s : State) : Serves .resting s s.exportDrop := by
  have hrecord := resting_export (((ExportStep.refl s).withExport fun x => { x with dropped := true }).record
    fun r => { r with dropped := true })
  unfold State.exportDrop
  dsimp only
  split
  · exact hrecord.trans (resting_endExport _)
  · exact hrecord

theorem resting_report (s : State) (success : Bool) : Serves .resting s (s.report success) := by
  have hrecord := resting_export (((ExportStep.refl s).withExport fun x => { x with completed := true, success := success
    }).record fun r => { r with reports := r.reports ++ [success] }).releaseExportPointer
  unfold State.report
  dsimp only
  split
  · exact hrecord.trans (resting_endExport _)
  · exact hrecord

theorem resting_beginExport (s : State) (a : Answers) : Serves .resting s (s.beginExport a) := by
  unfold State.beginExport
  dsimp only
  split
  · split
    · exact .refl s
    · have hwin : Serves .resting s (s.newWindow a).2 := .here (.newWindow s a)
      cases hw : s.newWindow a with
      | mk w r =>
        rw [hw] at hwin
        dsimp only at hwin ⊢
        cases w with
        | none => exact hwin.trans (resting_export ((ExportStep.refl r).withExport _))
        | some w =>
          dsimp only
          refine hwin.trans (resting_export ?_)
          exact ⟨_, _, [], r.pointerDown, .nil, by rw [List.append_nil]⟩
  · exact .refl s

namespace Sound

/-- No drag is under way, and the offer is as it was. -/
theorem idle (hs : Sound s) (h : DragStep s t) (hp : t.drag.positionPending = false) (hd : t.drag.dropPending = false) :
    Sound t := .of_drag h hs.offered (.idle hp hd)

theorem forgetDrag (hs : Sound s) : Sound s.forgetDrag := hs.idle (DragStep.refl s).forgetDrag rfl rfl

theorem complete (hs : Sound s) (success : Bool) : Sound (s.complete success) := by
  unfold State.complete
  split
  · exact (hs.serves (resting_report s success)).forgetDrag
  · exact hs.forgetDrag

theorem enterDrag (hs : Sound s) (c : Channel) (e : Event) : Sound (s.enterDrag c e) := by
  have hsource : ∀ f : Drag → Drag, (f s.drag).positionPending = s.drag.positionPending →
      (f s.drag).dropPending = s.drag.dropPending → (f s.drag).target = s.drag.target → Sound (s.withDrag f) :=
    fun f hp hd ht => .of_drag ((DragStep.refl s).withDrag f) hs.offered (hs.waits.congr hp hd ht)
  unfold State.enterDrag
  dsimp only
  split
  · exact hsource _ rfl rfl rfl
  · refine idle (hsource _ rfl rfl rfl).forgetDrag ((DragStep.refl _).withDrag _) ?_ ?_
    · rfl
    · rfl

/-- A move leaves a target, and a drop that waits for data is stuck there. -/
theorem moveDrag (hs : Sound s) (e : Event) (hok : ¬(s.Starved ∧ a.point ≠ none ∧ a.Lost)) : Sound (s.moveDrag e a) := by
  refine .of_drag ((DragStep.refl s).moveDrag e a) hs.offered ?_
  have hdrop := dropPending_moveDrag s e a
  refine ⟨position_moveDrag hs.waits.position, fun hd => ?_⟩
  rw [hdrop] at hd
  obtain ⟨ht, hwait⟩ := hs.waits.drop hd
  cases hp : s.drag.positionPending with
  | true =>
    rw [moveDrag_pending hp]
    exact ⟨ht, .inl hp⟩
  | false =>
    have hdata : s.dragDataPending := by
      rcases hwait with hpos | hdata
      · rw [hp] at hpos
        cases hpos
      · exact hdata
    cases hpt : a.point with
    | none =>
      rw [moveDrag_none hp hpt]
      exact ⟨ht, .inr hdata⟩
    | some p =>
      obtain ⟨htarget, -, -⟩ := moveDrag_some (e := e) hp hpt
      refine ⟨fun hnone => hok ⟨⟨hp, hd⟩, ?_, ?_⟩, .inr hdata⟩
      · rw [hpt]
        nofun
      · intro q hq
        rw [hpt] at hq
        cases hq
        rw [htarget] at hnone
        exact Option.map_eq_none_iff.1 hnone

theorem dropDrag (hs : Sound s) (hok : ¬(s.Renegotiates ∧ a.Lost)) : Sound (s.dropDrag a) :=
  .of_drag ((DragStep.refl s).dropDrag a) hs.offered (waits_dropDrag id hs.waits.position hok)

theorem dragFinished (hs : Sound s) (bit : Bool)
    (hok : ¬(s.drag.positionPending = true ∨ s.drag.dropPending = true)) : Sound (s.dragFinished bit) := by
  rw [not_or, Bool.not_eq_true, Bool.not_eq_true] at hok
  exact hs.idle ((DragStep.refl s).dragFinished bit) hok.1 hok.2

/-- The status of the target: a queued move is made, and a pending drop goes on. -/
theorem dragStatus (hs : Sound s) (accepted : Bool)
    (hok : ¬s.MessageStalls .status accepted a) : Sound (s.dragStatus accepted a) := by
  refine .of_drag ((DragStep.refl s).dragStatus accepted a) hs.offered ?_
  have htake : DragStep s (s.takeStatus accepted) := (((DragStep.refl s).withDrag _).emit .status nofun _ _ _ _ _ _ _ _)
  -- behind the status and the queued move
  have hqueued : DragStep s ((s.takeStatus accepted).moveQueued a) ∧
      ((s.takeStatus accepted).moveQueued a).drag.dropPending = s.drag.dropPending ∧
      (((s.takeStatus accepted).moveQueued a).drag.positionPending = true →
        ((s.takeStatus accepted).moveQueued a).drag.target ≠ none) ∧
      (((s.takeStatus accepted).moveQueued a).Renegotiates ∧ a.Lost → accepted = false ∧
        s.drag.dataRevision ≠ s.drag.positionDataRevision ∧ (s.drag.moveQueued = true → a.point = none)) := by
    have hstill : (s.takeStatus accepted).Renegotiates → accepted = false ∧
        s.drag.dataRevision ≠ s.drag.positionDataRevision := fun hr => ⟨hr.2.2.1, hr.2.2.2.2⟩
    unfold State.moveQueued
    cases hq : (s.takeStatus accepted).drag.moveQueued with
    | false =>
      rw [if_neg nofun]
      refine ⟨htake, rfl, nofun, fun hr => ?_⟩
      obtain ⟨hacc, hrev⟩ := hstill hr.1
      have hq' : s.drag.moveQueued = false := hq
      rw [hq']
      exact ⟨hacc, hrev, nofun⟩
    | true =>
      rw [if_pos rfl]
      have hpos : ((s.takeStatus accepted).withDrag fun d => { d with moveQueued := false }).drag.positionPending = false :=
        rfl
      refine ⟨(htake.withDrag _).moveDrag _ a, dropPending_moveDrag _ _ _, position_moveDrag (by rw [hpos]; nofun), ?_⟩
      rintro ⟨hr, hlost⟩
      cases hpt : a.point with
      | none =>
        obtain ⟨-, -, hacc, -, hrev⟩ := hr
        rw [moveDrag_none hpos hpt] at hacc hrev
        exact ⟨hacc, hrev, fun _ => rfl⟩
      | some p =>
        -- the move left the target, so nothing is asked again
        have hnone := (moveDrag_some (e := (s.takeStatus accepted).drag.move) hpos hpt).1
        rw [hlost p hpt] at hnone
        exact absurd hnone hr.2.1
  obtain ⟨hstep, hdrop, hposition, hagain⟩ := hqueued
  have hdata := pending_drag hstep
  unfold State.dragStatus
  dsimp only
  generalize (s.takeStatus accepted).moveQueued a = r at hstep hdrop hposition hagain hdata
  split
  · rename_i hpending
    refine waits_dropDrag hdata.1 hposition fun hr => hok (.inr ?_)
    obtain ⟨hacc, hrev, hpoint⟩ := hagain hr
    rw [hdrop] at hpending
    exact ⟨rfl, hacc, hpending, fun h => hr.1.2.2.2.1 (hdata.2 h), hrev, hr.2, hpoint⟩
  · rename_i hpending
    refine ⟨hposition, fun h => absurd h hpending⟩

/-- The end of `convert` for a transfer that was not there before -/
theorem serve (hs : Sound s) (h : Touches i s t) (hfree : (s.transfers i).used = false) (ht : Sound t)
    (hu : (t.transfers i).used = true) (hin : (t.transfers i).incoming = false)
    (hok : ¬t.HasWindow (t.transfers i).requestor ∨ a.access = false ∨ ((t.transfers i).target ≠ .targets ∧
      (t.transfers i).target ≠ .timestamp ∧ (t.transfers i).target ∉ (t.offers (t.transfers i).channel).targets) →
        ¬t.Asked) : Sound (t.serve i a) := by
  unfold State.serve
  dsimp only
  split
  · rename_i hrefuse
    refine ht.fail hu fun _ => hok ?_
    rcases hrefuse with hwin | haccess
    · exact .inl hwin
    · exact .inr (.inl haccess)
  · split
    · have hnotify : Touches i s (t.notify (t.transfers i) a.change) := h.quiet rfl rfl
      refine hs.goes (hnotify.release hin) fun hgone => ?_
      have hcurrent := (current_iff.1 hgone.2.1).1
      rw [hfree] at hcurrent
      cases hcurrent
    · split
      · exact ht.serves (.emit _ _ _ _ _ _ _ _ _ _)
      · rename_i hknown hfound
        rw [not_or] at hknown
        exact ht.fail hu fun _ => hok (.inr (.inr ⟨hknown.1, hknown.2, hfound⟩))

/-- A conversion of the drag's selection: a transfer that is refused at once may refuse the drop. -/
theorem convert (hs : Sound s) (c : Channel) (requestor : Option Window) (target : Atom) (property : Option Atom)
    (time : Nat) (hok : ¬s.Stalls (.convert c requestor target property time a)) :
    Sound (s.convert c requestor target property time a) := by
  cases c with
  | clipboard => exact hs.serves (Serves.convert s (c := .clipboard) nofun requestor target property time a)
  | drag =>
    unfold State.convert
    split
    · exact hs
    · rename_i hlocal
      rw [not_or, Bool.not_eq_false, Bool.not_eq_false] at hlocal
      obtain ⟨henabled, hlocal⟩ := hlocal
      have hr : Sound { s with
          requests := s.requests ++ [Request.conversion requestor .drag target time]
          requestSequence := s.requestSequence + 1 } := hs.serves (.quiet rfl rfl (List.append_nil _).symm .nil)
      have hstall : ∀ j, (s.transfers j).used = false → (¬s.HasWindow requestor ∨ a.access = false ∨
          (target ≠ .targets ∧ target ≠ .timestamp ∧ target ∉ (s.offers .drag).targets)) → ¬s.Asked :=
        fun j hj hrefuse hask => hok ⟨henabled, hlocal, hask, ⟨j, hj⟩, hrefuse⟩
      unfold State.outgoingTransfer
      split
      · exact hr.serves (.notify _ _ _)
      · rename_i i u halloc
        obtain ⟨hfree, -⟩ := allocate_eq halloc
        have hti := transfers_allocate halloc
        obtain ⟨x, hx⟩ : ∃ x, x = { u.transfers i with requestor := requestor, target := target
                                                       property := property.getD target, time := time } := ⟨_, rfl⟩
        have htouch := (touches_allocate halloc).setTransfer x
        have hself := transfers_setTransfer_self u i x
        have hrequestor : ((u.setTransfer i x).transfers i).requestor = requestor := by rw [hself, hx]
        have htarget : ((u.setTransfer i x).transfers i).target = target := by rw [hself, hx]
        have hchannel : ((u.setTransfer i x).transfers i).channel = .drag := by rw [hself, hx, hti]
        rw [← hx]
        refine serve hr htouch hfree ?_ ?_ ?_ ?_
        · -- the new transfer is one more that the drop waits for
          refine ⟨?_, ?_, ?_⟩
          · rw [htouch.drag]
            exact hr.waits.mono (htouch.pending_of_unused hfree)
          · intro _ _
            rw [htouch.offers]
            exact hlocal
          · rw [htouch.offers, htouch.enabled, htouch.bridge, htouch.selections]
            exact hr.offered.owner
        · rw [hself, hx, hti]
        · rw [hself, hx, hti]
        · rw [hrequestor, htarget, hchannel]
          unfold State.HasWindow State.Asked
          rw [htouch.windows, htouch.offers, htouch.drag]
          exact hstall i hfree

/-- A large file is announced; when that fails, the transfer goes. -/
theorem startIncremental (hs : Sound s) (h : Touches i s t) (ht : Sound t) (hin : (t.transfers i).incoming = false)
    (hok : ¬(a.change = false ∧ s.Starved ∧ s.Only i)) : Sound (t.startIncremental i a) := by
  obtain ⟨x, hx⟩ : ∃ x, x = { t.transfers i with incremental := true } := ⟨_, rfl⟩
  have hself := transfers_setTransfer_self t i x
  have hset : Sound (t.setTransfer i x) := ht.serves (by rw [hx]; exact .move rfl rfl rfl rfl rfl)
  unfold State.startIncremental
  dsimp only
  rw [← hx]
  split
  · exact hset.serves (.notify _ _ _)
  · rename_i hchange
    have hnotify : Touches i s ((t.setTransfer i x).notify ((t.setTransfer i x).transfers i) a.change) :=
      (h.setTransfer x).quiet rfl rfl
    refine hs.goes (hnotify.release ?_) fun hgone => hok ⟨by simpa using hchange, hgone⟩
    have hin' : ((t.setTransfer i x).transfers i).incoming = false := by rw [hself, hx]; exact hin
    exact hin'

/-- The answer of the host ends the transfer, or its first piece goes out. -/
theorem replyTo (hs : Sound s) (hu : (s.transfers i).used = true) (hin : (s.transfers i).incoming = false)
    (fd : Option Nat) (hok : ¬s.ReplyStalls i a fd.isSome a.stat) : Sound (s.replyTo i fd a) := by
  unfold State.ReplyStalls at hok
  unfold State.replyTo
  have hfail : ¬s.EndsBadly i a (some false) → Sound ((s.fail freeResource i).close fd) := fun hbad =>
    (hs.fail hu fun hi hask => hbad ⟨hi, hask⟩).serves (.close _ _)
  cases fd with
  | none => exact hfail hok
  | some fd =>
    cases hstat : a.stat with
    | none =>
      rw [hstat] at hok
      exact hfail hok
    | some size =>
      rw [hstat] at hok
      dsimp only at hok ⊢
      split
      · rename_i hlarge
        rw [Option.isSome_some] at hok
        dsimp only at hok
        rw [if_pos hlarge] at hok
        exact hfail hok
      · rename_i hlarge
        rw [Option.isSome_some] at hok
        dsimp only at hok
        rw [if_neg hlarge] at hok
        obtain ⟨x, hx⟩ : ∃ x, x = { s.transfers i with fd := some fd, size := size } := ⟨_, rfl⟩
        rw [← hx]
        have hself := transfers_setTransfer_self s i x
        have htouch : Touches i s (s.setTransfer i x) := (Touches.refl i s).setTransfer x
        have hv : Sound (s.setTransfer i x) := hs.serves (by rw [hx]; exact .move rfl rfl rfl rfl rfl)
        have hvu : ((s.setTransfer i x).transfers i).used = true := by rw [hself, hx]; exact hu
        have hvin : ((s.setTransfer i x).transfers i).incoming = false := by rw [hself, hx]; exact hin
        unfold State.deliver
        rw [hself]
        have hrequestor : x.requestor = (s.transfers i).requestor := by rw [hx]
        have hsize : x.size = size := by rw [hx]
        by_cases hwin : s.HasWindow (s.transfers i).requestor
        · rw [if_neg (not_not.2 hwin)] at hok
          have hwin' : (s.setTransfer i x).HasWindow x.requestor := by rw [hrequestor]; exact hwin
          rw [if_neg (not_not.2 hwin'), hsize]
          split
          · rename_i hchunk
            rw [if_pos hchunk] at hok
            exact hs.startIncremental htouch hv hvin hok
          · rename_i hchunk
            rw [if_neg hchunk] at hok
            refine hv.sendWhole hvu hvin ?_
            have hpiece : (s.setTransfer i x).pieceEnds x true a = s.pieceEnds { s.transfers i with size := size } true a := by
              rw [hx]
              rfl
            have hdrags : ((s.setTransfer i x).transfers i).drags = (s.transfers i).drags := by
              rw [hself, hx]
              rfl
            rw [hself, hpiece, htouch.endsBadly hdrags]
            exact hok
        · rw [if_pos hwin] at hok
          have hwin' : ¬(s.setTransfer i x).HasWindow x.requestor := by rw [hrequestor]; exact hwin
          rw [if_pos hwin']
          exact hs.goes (htouch.release hvin) hok

theorem reply (hs : Sound s) (c : Channel) (e : Event) (fd : Option Nat)
    (hok : ¬∃ i, s.replied? c e.serial e.offer = some i ∧ s.ReplyStalls i a fd.isSome a.stat) : Sound (s.reply c e fd a) := by
  have htaken : Sound { s with answered := s.answered ++ [e.serial] } :=
    hs.serves (.quiet rfl rfl (List.append_nil _).symm .nil)
  unfold State.reply
  dsimp only
  split
  · exact htaken.serves (.close _ _)
  · rename_i i hi
    obtain ⟨hu, hin, -, -⟩ := Serves.replied_some hi
    exact htaken.replyTo hu hin fd fun hstall => hok ⟨i, hi, hstall⟩

theorem propertyWork (hs : Sound s) (i : Fin maxPending) (ticket : Nat)
    (hok : ¬(s.enabled = true ∧ (s.transfers i).ticket = ticket ∧
      s.EndsBadly i a (s.pieceEnds (s.transfers i) false a))) : Sound (s.propertyWork i ticket a) := by
  unfold State.propertyWork
  dsimp only
  split
  · rename_i hw
    obtain ⟨x, hx⟩ : ∃ x, x = { s.transfers i with queued := false } := ⟨_, rfl⟩
    rw [← hx]
    have hself := transfers_setTransfer_self s i x
    have hset : Sound (s.setTransfer i x) := hs.serves (by rw [hx]; exact .move rfl rfl rfl rfl rfl)
    have hused : ((s.setTransfer i x).transfers i).used = true := by rw [hself, hx]; exact hw.2.1
    split
    · rename_i hin
      refine hset.serves (.receive hused ?_ false a)
      rw [hself, hx]
      exact hin
    · rename_i hin
      refine hset.sendChunk hused ?_ fun hbad => hok ⟨hw.1, hw.2.2, ?_⟩
      · rw [hself, hx]
        simpa using hin
      · have hpiece : (s.setTransfer i x).pieceEnds x false a = s.pieceEnds (s.transfers i) false a := by
          rw [hx]
          rfl
        have hdrags : ((s.setTransfer i x).transfers i).drags = (s.transfers i).drags := by
          rw [hself, hx]
          rfl
        rw [hself, hpiece, ((Touches.refl i s).setTransfer x).endsBadly hdrags] at hbad
        exact hbad
  · exact hs

theorem expired (hs : Sound s) (hu : (s.transfers i).used = true) (hok : ¬(s.Current i ∧ s.Asked)) :
    Sound ((s.setTransfer i { s.transfers i with timer := false }).fail freeResource i) := by
  have hset : Sound (s.setTransfer i { s.transfers i with timer := false }) := hs.serves (.move rfl rfl rfl rfl rfl)
  have hself := transfers_setTransfer_self s i { s.transfers i with timer := false }
  have hdrags : ((s.setTransfer i { s.transfers i with timer := false }).transfers i).drags = (s.transfers i).drags := by
    rw [hself]
    rfl
  refine hset.fail ?_ fun hi hask => hok ⟨?_, hask⟩
  · rw [hself]
    exact hu
  · unfold State.Current at hi ⊢
    rw [hdrags] at hi
    exact hi

end Sound

/-! ### The selection of the drag -/

/-- No transfer that ends finds a drop that waits for the target. -/
structure Calm (s : State) : Prop where
  waits : Waits s.drag s.dragDataPending
  apart : s.Asked → ¬s.dragDataPending

theorem Calm.congr (hs : Calm s) (hd : t.drag = s.drag) (hp : t.dragDataPending ↔ s.dragDataPending) : Calm t := by
  constructor
  · rw [hd]
    exact hs.waits.mono hp.2
  · unfold State.Asked
    rw [hd, hp]
    exact hs.apart

theorem pending_congr (ho : t.offers .drag = s.offers .drag) (hd : ∀ j, (t.transfers j).drags = (s.transfers j).drags) :
    t.dragDataPending ↔ s.dragDataPending := by
  rw [dragDataPending_iff, dragDataPending_iff]
  simp only [State.Current, ho, hd]

/-- Refusing a drop asks nothing. -/
theorem asked_fails (x : Transfer) (a : Answers) (h : (s.selectionFinished x false a).Asked) : s.Asked := by
  by_cases hx : s.Awaits x ∧ s.drag.target ≠ none
  · rw [selectionFinished_eq hx.1 hx.2] at h
    dsimp only at h
    simp only [Bool.false_eq_true, if_false] at h
    split at h
    · exact h
    · have hdrop := h.2
      rw [(rejectDrag_drag s).1] at hdrop
      cases hdrop
  · rw [not_and_or, Decidable.not_not] at hx
    rcases hx with hx | ht
    · rwa [selectionFinished_other hx] at h
    · rwa [selectionFinished_none ht] at h

/-- `FreeResource` keeps a calm drag so. -/
theorem calm_frees (h : Frees .all s t) (hs : Calm s) : Calm t := by
  induction h with
  | refl s => exact hs
  | trans _ _ ih ih' => exact ih' (ih hs)
  | erase s _ => exact hs.congr rfl Iff.rfl
  | lose _ => exact hs.congr rfl Iff.rfl
  | @incoming s i hu hin =>
    have htouch : Touches i s ((s.refuse (s.transfers i)).releaseSlot i) :=
      (((Touches.refl i s).refuse _).setTransfer _).quiet rfl rfl
    refine hs.congr htouch.drag (pending_congr (by rw [htouch.offers]) fun j => ?_)
    by_cases hj : j = i
    · subst hj
      rw [transfers_releaseSlot_self]
      simp [Transfer.drags, hin]
    · exact htouch.others j hj
  | @clearFd s i hu =>
    refine hs.congr rfl (pending_congr rfl fun j => ?_)
    by_cases hj : j = i
    · subst hj
      rw [drags_unused hu, drags_unused ((used_clearFd s j).trans hu)]
    · rw [transfers_clearFd_ne _ hj]
  | @outgoing s i hu hin _ =>
    obtain ⟨r, hr, heq⟩ := fail_ends hin
    rw [← fail_outgoing freeResource hu hin, heq]
    have hx : r.Awaits (s.transfers i) ↔ s.Current i := by
      rw [hr.awaits, current_iff]
      simp [hu]
    have hdata := pending_drag ((DragStep.refl r).selectionFinished (s.transfers i) false {})
    have hless : r.dragDataPending → s.dragDataPending := by
      rw [hr.pending, dragDataPending_iff]
      rintro ⟨j, -, hj⟩
      exact ⟨j, hj⟩
    constructor
    · refine Waits.mono (waits_fails hr hs.waits hx fun hi hask => hs.apart hask ?_) hdata.2
      exact (dragDataPending_iff s).2 ⟨i, hi⟩
    · intro hask hpending
      have hask' : s.Asked := by
        have := asked_fails _ _ hask
        unfold State.Asked at this
        rwa [hr.drag] at this
      exact hs.apart hask' (hless (hdata.1 hpending))
  | @renew s c hc =>
    cases c with
    | clipboard => exact hs.congr rfl (pending_congr (by simp [State.renewOffer]) fun _ => rfl)
    | drag =>
      have hnone : ∀ (g : Nat) (i : Fin maxPending), (s.transfers i).drags ≠ some g := by
        intro g i
        unfold Transfer.drags
        split
        · rename_i hi
          exact absurd hi.2.2 (hc i hi.1)
        · simp
      have hsame : ∀ r : State, r.transfers = s.transfers → ¬r.dragDataPending := by
        intro r hr hdata
        obtain ⟨i, hi⟩ := (dragDataPending_iff r).1 hdata
        rw [State.Current, hr] at hi
        exact hnone _ i hi
      exact hs.congr rfl ⟨fun hd => absurd hd (hsame _ rfl), fun hd => absurd hd (hsame _ rfl)⟩
  | cancel s => exact hs.congr rfl Iff.rfl
  | @endExport s t _ _ ih =>
    have hstep : ∀ {s t : State}, ExportStep s t → Calm s → Calm t := by
      rintro s _ ⟨x, e, l, p, -, rfl⟩ h
      exact h.congr rfl Iff.rfl
    exact hstep (.leaveExport t) (ih (hstep (.finishExport s) hs))

/-- Behind the callback of its selection, the drag has no transfers and no offer. -/
theorem sound_forgetOwner (hs : Calm s) : Sound (s.forgetOwner freeResource .drag) := by
  have hfrees : Frees .all s (s.forgetOwner freeResource .drag) :=
    frees_forgetOwner freeing_freeResource (guarded_all s) fun _ => .inl trivial
  refine ⟨(calm_frees hfrees hs).waits, fun i hi => ?_, fun hl => ?_⟩
  · by_contra
    apply hi
    unfold Transfer.drags
    split
    · rename_i hused
      exact absurd hused.2.2 (channel_failAll freeing_freeResource _ .drag i hused.1)
    · rfl
  · unfold State.forgetOwner at hl
    simp [State.renewOffer] at hl

/-- `XdndSelection` gets another owner. -/
theorem sound_setSelectionOwner (hs : Sound s) (c : Channel) (x : Selection) (a : Answers)
    (hok : c = .drag → ¬(s.enabled = true ∧ x.window ≠ s.bridge ∧ s.Asked ∧ s.dragDataPending)) :
    Sound ((s.setSelection c x).selectionChanged freeResource c .setOwner a) := by
  cases c with
  | clipboard =>
    have hset : Serves .resting s (s.setSelection .clipboard x) :=
      Serves.setSelection (c := .clipboard) nofun nofun s x
    exact hs.serves (hset.trans (Serves.selectionChanged (c := .clipboard) .setOwner a nofun))
  | drag =>
    have hselected : (s.setSelection .drag x).selections .drag = x := by simp [State.setSelection]
    unfold State.selectionChanged
    dsimp only
    split
    · rename_i hskip
      refine ⟨hs.waits, hs.offered.drags, fun hl => ?_⟩
      obtain ⟨he, hb, -⟩ := hs.offered.owner hl
      refine ⟨he, hb, .inl ?_⟩
      rcases hskip with hoff | hbridge
      · have hoff' : s.enabled = false := hoff
        rw [he] at hoff'
        cases hoff'
      · exact hbridge
    · rename_i hgo
      rw [not_or, hselected] at hgo
      have henabled : ¬s.enabled = false := hgo.1
      have hcalm : Calm (s.setSelection .drag x) :=
        ⟨hs.waits, fun hask hdata => hok rfl ⟨by simpa using henabled, hgo.2, hask, hdata⟩⟩
      have hnew := sound_forgetOwner hcalm
      simp only [↓reduceIte]
      split
      · exact hnew.serves (.emit _ _ _ _ _ _ _ _ _ _)
      · split
        · exact hnew.serves (.request _ _ _ _ _ _ a)
        · exact hnew

/-- An offer of the host for a drag: the drop goes on waiting for a transfer of the new offer. -/
theorem sound_offer (hs : Sound s) (henabled : s.enabled = true) (hbridge : s.bridge ≠ none) (generation now : Nat)
    (names : List Atom) (hok : ¬s.OfferStalls generation a) :
    Sound ((s.setOffer .drag
      { generation := generation, owner := s.bridge, time := now, targets := names, isLocal := true }).own .drag a) := by
  obtain ⟨o, ho⟩ : ∃ o : Offer,
      o = { generation := generation, owner := s.bridge, time := now, targets := names, isLocal := true } := ⟨_, rfl⟩
  rw [← ho]
  have hoffer : (s.setOffer .drag o).offers .drag = o := by simp [State.setOffer]
  have hwaits : Waits s.drag (s.setOffer .drag o).dragDataPending := by
    refine ⟨hs.waits.position, fun hd => ?_⟩
    obtain ⟨ht, -⟩ := hs.waits.drop hd
    refine ⟨ht, ?_⟩
    cases hp : s.drag.positionPending with
    | true => exact .inl rfl
    | false =>
      right
      by_contra hnone
      refine hok (.inl ⟨⟨hp, hd⟩, fun i hi => hnone ((dragDataPending_iff _).2 ⟨i, ?_⟩)⟩)
      rw [State.Current, hoffer, ho]
      exact hi
  have hlocal : ((s.setOffer .drag o).offers .drag).isLocal = true := by rw [hoffer, ho]
  unfold State.own
  split
  · unfold State.selectionChanged
    have howner : ((s.setOffer .drag o).setSelection .drag
        { window := (s.setOffer .drag o).bridge, client := some 0, time := a.now }).selections .drag =
          { window := s.bridge, client := some 0, time := a.now } := by
      simp only [State.setSelection, Function.update_self]
      rfl
    rw [if_pos (.inr (by rw [howner]; rfl))]
    refine ⟨hwaits, fun _ _ => hlocal, fun _ => ⟨henabled, hbridge, .inl ?_⟩⟩
    rw [howner]
    rfl
  · rename_i hown
    refine ⟨hwaits, fun _ _ => hlocal, fun _ => ⟨henabled, hbridge, ?_⟩⟩
    by_contra hother
    rw [not_or] at hother
    exact hok (.inr ⟨by simpa using hown, hother⟩)

theorem sound_takeOffer (hs : Sound s) (henabled : s.enabled = true) (hbridge : s.bridge ≠ none) (c : Channel) (e : Event)
    (fd : Option Nat)
    (hok : ¬(c = .drag ∧ fd.isSome = true ∧ a.names ≠ none ∧ s.OfferStalls e.offer a)) : Sound (s.takeOffer c e fd a) := by
  cases c with
  | clipboard => exact hs.serves (Serves.takeOffer (c := .clipboard) nofun nofun s e fd a)
  | drag =>
    unfold State.takeOffer
    split
    · rename_i fd names hnames
      refine sound_offer hs henabled hbridge e.offer a.now names fun hstall => hok ⟨rfl, rfl, ?_, hstall⟩
      rw [hnames]
      nofun
    · exact hs

theorem sound_operate (hs : Sound s) (henabled : s.enabled = true) (hbridge : s.bridge ≠ none) (e : Event)
    (hchannel : e.channel ≤ 1) (fd : Option Nat) (hok : ¬s.CommandStalls e fd.isSome a) :
    Sound (s.operate e.selected e fd a) := by
  unfold State.operate
  unfold State.CommandStalls at hok
  split
  · rename_i hop
    rw [hop] at hok
    exact (sound_takeOffer hs henabled hbridge _ e fd fun h => hok ⟨hchannel, henabled, hbridge, h⟩).serves (.close _ _)
  · exact (hs.serves (.read s _ e a)).serves (.close _ _)
  · rename_i hop
    rw [hop] at hok
    exact hs.reply _ e fd fun h => hok ⟨hchannel, henabled, hbridge, h⟩
  · exact (hs.enterDrag _ e).serves (.close _ _)
  · rename_i hop
    rw [hop] at hok
    exact (hs.moveDrag e fun h => hok ⟨hchannel, henabled, hbridge, h⟩).serves (.close _ _)
  · refine Sound.serves ?_ (.close _ _)
    exact hs.idle (DragStep.refl s).leaveTarget.forgetDrag rfl rfl
  · rename_i hop
    rw [hop] at hok
    exact (hs.dropDrag fun h => hok ⟨hchannel, henabled, hbridge, h⟩).serves (.close _ _)
  · exact (hs.complete _).serves (.close _ _)
  · exact (hs.complete _).serves (.close _ _)
  · exact (hs.serves (resting_beginExport s a)).serves (.close _ _)
  · exact hs.serves (.close _ _)

/-- `LORIE_DATA_ENABLE` -/
theorem sound_enable (hs : Sound s) (e : Event) (a : Answers) : Sound (s.enable e a) := by
  unfold State.enable
  dsimp only
  split
  · rename_i w hw
    exact ⟨hs.waits, hs.offered.drags, fun hl => ⟨rfl, (hs.offered.owner hl).2⟩⟩
  · rename_i hw
    have hbridge : s.bridge = none := hw
    have hlocal : (s.offers .drag).isLocal = false := by
      by_contra hl
      exact (hs.offered.owner (by simpa using hl)).2.1 hbridge
    obtain ⟨r, hr⟩ : ∃ r : State, r = { s with enabled := true, clipboardActive := e.x ≠ 0 } := ⟨_, rfl⟩
    have hsame : (r.newWindow a).2.drag = s.drag ∧ (r.newWindow a).2.offers = s.offers ∧
        (r.newWindow a).2.transfers = s.transfers := by
      rw [hr]
      unfold State.newWindow
      repeat' split
      all_goals exact ⟨rfl, rfl, rfl⟩
    rw [← hr]
    obtain ⟨hdrag, hoffers, htransfers⟩ := hsame
    generalize r.newWindow a = q at hdrag hoffers htransfers
    have hpending : q.2.dragDataPending ↔ s.dragDataPending :=
      pending_congr (by rw [hoffers]) fun j => by rw [htransfers]
    refine ⟨?_, fun i hi => ?_, fun hl => ?_⟩
    · have hwaits : Waits q.2.drag q.2.dragDataPending := by
        rw [hdrag]
        exact hs.waits.mono hpending.2
      exact hwaits
    · have hi' : (s.transfers i).drags ≠ none := by
        rw [← htransfers]
        exact hi
      have hl := hs.offered.drags i hi'
      rw [hlocal] at hl
      cases hl
    · have hl' : (s.offers .drag).isLocal = true := by
        rw [← hoffers]
        exact hl
      rw [hlocal] at hl'
      cases hl'

theorem sound_command (hs : Sound s) (e : Event) (fd : Option Nat) (hok : ¬s.CommandStalls e fd.isSome a) :
    Sound (s.command e fd a) := by
  unfold State.command
  split
  · exact hs.serves (.close _ _)
  · rename_i hchannel
    split
    · exact (sound_enable hs e a).serves (.close _ _)
    · split
      · exact hs.serves (.close _ _)
      · rename_i hgo
        rw [not_or, Bool.not_eq_false] at hgo
        exact sound_operate hs hgo.1 hgo.2 e (by omega) fd hok

theorem sound_lorieDataCommand (hs : Sound s) (e : Event) (fd : Bool) (hok : ¬s.CommandStalls e fd a) :
    Sound (s.lorieDataCommand e fd a) := by
  unfold State.lorieDataCommand
  split
  · rename_i hfd
    subst hfd
    have hnew : Sound (s.ask e).newFd.2 := hs.serves (.quiet rfl rfl (List.append_nil _).symm .nil)
    exact sound_command hnew e _ hok
  · rename_i hfd
    rw [Bool.not_eq_true] at hfd
    subst hfd
    have hasked : Sound (s.ask e) := hs.serves (.quiet rfl rfl (List.append_nil _).symm .nil)
    exact sound_command hasked e none hok

/-- A reset leaves neither a drag nor its transfers. -/
theorem sound_lorieDataReset (s : State) : Sound s.lorieDataReset := by
  refine ⟨.idle rfl rfl, fun i hi => ?_, nofun⟩
  exact absurd (drags_unused (used_lorieDataReset s i)) hi

end Operations

/-! ## Whole runs -/

theorem Sound.step {s t : State} {a : Action} (hs : Sound s) (hok : ¬s.Stalls a) (h : step s a = some t) : Sound t := by
  cases a with
  | createWindow c n =>
    simp only [DataExchange.step] at h
    split at h
    · cases h
    · cases h
      exact ⟨hs.waits, hs.offered.drags, hs.offered.owner⟩
  | destroyWindow w =>
    simp only [DataExchange.step] at h
    split at h
    · cases h
      exact hs.serves (.frees fun hg => freeing_freeResource .resting s w trivial hg)
    · cases h
  | setSelectionOwner c window client time a =>
    simp only [DataExchange.step] at h
    split at h
    · cases h
      refine sound_setSelectionOwner hs c _ a ?_
      rintro rfl hstall
      exact hok hstall
    · cases h
  | closeClient client =>
    simp only [DataExchange.step] at h
    split at h
    · cases h
      exact hs.serves (.frees fun hg => frees_closeClient client hg fun _ => .inr fun _ _ => trivial)
    · cases h
  | convert c requestor target property time a =>
    cases h
    exact hs.convert c requestor target property time hok
  | selectionNotify c requestor target property a =>
    cases h
    exact hs.serves (.selectionNotify s c requestor target property a)
  | clientMessage window type first bit copy a =>
    cases h
    unfold State.clientMessage
    dsimp only
    split
    · exact hs
    · rename_i henabled
      rw [Bool.not_eq_false] at henabled
      split
      · exact hs.serves (.message s _ _ fun _ => rfl)
      · split
        · exact hs
        · split
          · exact hs.serves (resting_exportDrop s)
          · split
            · rename_i hm
              obtain ⟨hw, ht, hf, rfl⟩ := hm
              have ht' : s.drag.target ≠ none := Option.isSome_iff_ne_none.1 ht
              exact hs.dragStatus _ fun hstall => hok ⟨henabled, hw, ht', hf, hstall⟩
            · split
              · rename_i hm
                obtain ⟨hw, ht, hf, rfl⟩ := hm
                exact hs.dragFinished bit fun hwait =>
                  hok ⟨henabled, hw, Option.isSome_iff_ne_none.1 ht, hf, .inl ⟨rfl, hwait⟩⟩
              · exact hs
  | propertyChanged i a =>
    cases h
    unfold State.propertyChanged
    dsimp only
    split
    · have hset : Sound (s.setTransfer i { s.transfers i with queued := true }) := hs.serves (.move rfl rfl rfl rfl rfl)
      exact hset.serves (.quiet rfl rfl (List.append_nil _).symm .nil)
    · exact hs
  | propertyWork a =>
    simp only [DataExchange.step] at h
    split at h
    · rename_i i ticket rest hwork
      cases h
      have hrest : Sound { s with work := rest } := hs.serves (.quiet rfl rfl (List.append_nil _).symm .nil)
      refine hrest.propertyWork i ticket fun hstall => hok ⟨(i, ticket), ?_, hstall⟩
      rw [hwork]
      rfl
    · cases h
  | expired i =>
    simp only [DataExchange.step] at h
    split at h
    · rename_i hi
      cases h
      exact hs.expired hi.1 hok
    · cases h
  | exportExpired =>
    simp only [DataExchange.step] at h
    split at h
    · cases h
      unfold State.exportExpired
      exact hs.serves ((resting_export ((ExportStep.refl s).withExport _)).trans (resting_endExport _))
    · cases h
  | dataPointer output window button down =>
    simp only [DataExchange.step] at h
    split at h
    · cases h
      unfold State.lorieDataPointer
      split
      · exact hs
      · exact ⟨hs.waits, hs.offered.drags, hs.offered.owner⟩
    · cases h
  | dataCommand e fd a =>
    cases h
    exact sound_lorieDataCommand hs e fd hok
  | dataReset =>
    cases h
    exact sound_lorieDataReset s

/-- **A pending drop waits for something that can arrive**: a pending position has a target, and a pending drop has one and
waits for its status or for a transfer of the current offer, in every run without the steps that leave a wait without an
end. -/
theorem pending_drop_waits {dragFirst : Bool} {s : State}
    (h : Reach step (fun s a => ¬s.Stalls a) (.init dragFirst) s) :
    (s.drag.positionPending = true → s.drag.target ≠ none) ∧
      (s.drag.dropPending = true →
        s.drag.target ≠ none ∧ (s.drag.positionPending = true ∨ s.dragDataPending)) := by
  have hsound : Sound s := by
    refine h.invariant (I := Sound) ⟨.idle rfl rfl, ?_, ?_⟩ fun _ _ _ hs hok hstep => hs.step hok hstep
    · exact fun i hi => absurd rfl hi
    · intro hl
      cases hl
  exact ⟨hsound.waits.position, hsound.waits.drop⟩

section Decidable

variable (s : State) (i : Fin maxPending) (a : Answers)

instance : Decidable a.Lost :=
  match h : a.point with
  | none => isTrue (by unfold Answers.Lost; rw [h]; nofun)
  | some p => decidable_of_iff (p.target = none) (by unfold Answers.Lost; rw [h]; simp)

instance : Decidable s.Renegotiates := inferInstanceAs (Decidable (_ ∧ _ ∧ _ ∧ ¬_ ∧ _))

instance : Decidable (s.Current i) := inferInstanceAs (Decidable (_ = _))

instance : Decidable s.Asked := inferInstanceAs (Decidable (_ ∧ _))

instance : Decidable s.Starved := inferInstanceAs (Decidable (_ ∧ _))

instance : Decidable (s.Only i) := inferInstanceAs (Decidable (_ ∧ ∀ j, s.Current j → j = i))

instance : Decidable (s.Loses i a) := inferInstanceAs (Decidable (_ ∧ _ ∧ _ ∧ _ ∧ _))

instance (o : Option Bool) : Decidable (s.EndsBadly i a o) :=
  match o with
  | some false => inferInstanceAs (Decidable (_ ∧ _))
  | some true => inferInstanceAs (Decidable (s.Loses i a))
  | none => inferInstanceAs (Decidable False)

instance (fd : Bool) (size : Option Nat) : Decidable (s.ReplyStalls i a fd size) :=
  match fd, size with
  | true, some size =>
    inferInstanceAs (Decidable (if maxBytes < size then s.EndsBadly i a (some false)
      else if ¬s.HasWindow (s.transfers i).requestor then s.Starved ∧ s.Only i
      else if chunkSize < size then a.change = false ∧ s.Starved ∧ s.Only i
      else s.EndsBadly i a (s.pieceEnds { s.transfers i with size := size } true a)))
  | true, none => inferInstanceAs (Decidable (s.EndsBadly i a (some false)))
  | false, none => inferInstanceAs (Decidable (s.EndsBadly i a (some false)))
  | false, some _ => inferInstanceAs (Decidable (s.EndsBadly i a (some false)))

instance (generation : Nat) : Decidable (s.OfferStalls generation a) :=
  inferInstanceAs (Decidable ((_ ∧ ∀ i, (s.transfers i).drags ≠ some generation) ∨ _))

instance (e : Event) (fd : Bool) (o : Operation) : Decidable (s.OperationStalls e fd a o) :=
  match o with
  | .offer => inferInstanceAs (Decidable (_ ∧ _ ∧ _ ∧ s.OfferStalls e.offer a))
  | .reply =>
    inferInstanceAs (Decidable (∃ i, s.replied? e.selected e.serial e.offer = some i ∧ s.ReplyStalls i a fd a.stat))
  | .move => inferInstanceAs (Decidable (s.Starved ∧ _ ∧ a.Lost))
  | .drop => inferInstanceAs (Decidable (s.Renegotiates ∧ a.Lost))
  | .enable | .read | .request | .enter | .leave | .status | .finish | .cancel | .begin | .other =>
    inferInstanceAs (Decidable False)

instance (e : Event) (fd : Bool) : Decidable (s.CommandStalls e fd a) := inferInstanceAs (Decidable (_ ∧ _ ∧ _ ∧ _))

instance (type : MessageType) (accepted : Bool) : Decidable (s.MessageStalls type accepted a) :=
  inferInstanceAs (Decidable (_ ∨ _))

instance (a : Action) : Decidable (s.Stalls a) :=
  match a with
  | .setSelectionOwner .drag window _ _ _ =>
    inferInstanceAs (Decidable (s.enabled = true ∧ window ≠ s.bridge ∧ s.Asked ∧ s.dragDataPending))
  | .convert .drag requestor target _ _ a =>
    inferInstanceAs (Decidable (s.enabled = true ∧ (s.offers .drag).isLocal = true ∧ s.Asked ∧
      (∃ i, (s.transfers i).used = false) ∧ (¬s.HasWindow requestor ∨ a.access = false ∨
        (target ≠ .targets ∧ target ≠ .timestamp ∧ target ∉ (s.offers .drag).targets))))
  | .clientMessage window type first bit copy a =>
    inferInstanceAs (Decidable (s.enabled = true ∧ window = s.drag.source ∧ s.drag.target ≠ none ∧ first = s.drag.target ∧
      s.MessageStalls type (bit && copy) a))
  | .propertyWork a =>
    inferInstanceAs (Decidable (∃ w ∈ s.work.head?, s.enabled = true ∧ (s.transfers w.1).ticket = w.2 ∧
      s.EndsBadly w.1 a (s.pieceEnds (s.transfers w.1) false a)))
  | .expired i => inferInstanceAs (Decidable (s.Current i ∧ s.Asked))
  | .dataCommand e fd a => inferInstanceAs (Decidable (s.CommandStalls e fd a))
  | .setSelectionOwner .clipboard .. | .convert .clipboard .. | .createWindow .. | .destroyWindow .. | .closeClient ..
  | .selectionNotify .. | .propertyChanged .. | .exportExpired | .dataPointer .. | .dataReset =>
    inferInstanceAs (Decidable False)

end Decidable

/-- The host drops on a target that refused the position and reads the selection. -/
def dropping : List Action :=
  [.createWindow 1 1, .createWindow 1 2,
    .dataCommand { operation := .enable, channel := 0 } false { newWindow := some 0 },
    .dataCommand { operation := .offer, channel := 1, offer := 7 } true { names := some [.other 3] },
    .dataCommand { operation := .enter, channel := 1 } false {},
    .dataCommand { operation := .move, channel := 1 } false { point := some ⟨some ⟨.client 1 1, 5, .client 1 1⟩, 0, 0⟩ },
    .clientMessage (some (.server 0)) .status (some (.client 1 1)) false true {},
    .convert .drag (some (.client 1 2)) (.other 3) none 0 {},
    .dataCommand { operation := .drop, channel := 1 } false {}]

theorem pending_drop_waits_dropping :
    ∃ s, Reach step Free (.init false) s ∧ s.drag.dropPending = true ∧ s.drag.target ≠ none ∧
      (s.drag.positionPending = true ∨ s.dragDataPending) := by
  have hrun : (exec (fun s a => if ¬s.Stalls a then step s a else none) (.init false) dropping).map
      (fun s => s.drag.dropPending) = some true := by decide +kernel
  obtain ⟨s, hs, hdrop⟩ := Option.map_eq_some_iff.1 hrun
  have hreach := Reach.of_exec_guarded dropping hs
  exact ⟨s, hreach.mono fun _ _ _ => trivial, hdrop, (pending_drop_waits hreach).2 hdrop⟩

/-- The window that reads the selection is destroyed before the host answers. -/
def readerDestroyed : List Action :=
  dropping ++ [.destroyWindow (.client 1 2),
    .dataCommand { operation := .reply, channel := 1, serial := 1, offer := 7 } true { stat := some 10 }]

/-- The answer of the host ends the transfer, and nobody tells the drop. -/
theorem drop_waits_for_nothing :
    ∃ s, Reach step Free (.init false) s ∧ ¬((s.drag.positionPending = true → s.drag.target ≠ none) ∧
      (s.drag.dropPending = true → s.drag.target ≠ none ∧ (s.drag.positionPending = true ∨ s.dragDataPending))) := by
  have hrun : (exec step (.init false) readerDestroyed).map (fun s =>
      decide (s.drag.dropPending = true ∧ s.drag.positionPending = false ∧ ¬s.dragDataPending)) = some true := by
    decide +kernel
  obtain ⟨s, hs, hout⟩ := Option.map_eq_some_iff.1 hrun
  obtain ⟨hdrop, hposition, hdata⟩ := of_decide_eq_true hout
  refine ⟨s, .of_exec readerDestroyed hs, fun h => ?_⟩
  rcases (h.2 hdrop).2 with hp | hd
  · rw [hposition] at hp
    cases hp
  · exact hdata hd

end Lorie.DataExchange
