import Lorie.DataExchange.Service
import Lorie.Lib.Transition

/-!
# What a pending drop waits for

During a drag the server waits for a status of the target (`positionPending`), and a drop waits for that status or for a
transfer to the target (`dropPending`). The functions of the drag keep it so as long as they end both waits together; some
branches end one without the other.

- `Waits`: a pending position has a target, a pending drop has one and something that can arrive;
- `Offered`: transfers to the target of a drag need a local offer, whose selection is the bridge's, so that nothing that
  `FreeResource` does ends them;
- `rests_works`: what does not concern the drag keeps both.
-/

namespace Lorie.DataExchange

open Lorie.Lib State

/-! ## The drag -/

/-- A pending position has a target; a pending drop has one, and waits for its status or for data. -/
structure Waits (d : Drag) (data : Prop) : Prop where
  position : d.positionPending = true → d.target ≠ none
  drop : d.dropPending = true → d.target ≠ none ∧ (d.positionPending = true ∨ data)

/-- The point of an answer lies over no target. -/
def Answers.Lost (a : Answers) : Prop := ∀ p ∈ a.point, p.target = none

/-- `dropDrag` asks the target again. -/
def State.Renegotiates (s : State) : Prop :=
  s.drag.positionPending = false ∧ s.drag.target ≠ none ∧ s.drag.accepted = false ∧ ¬s.dragDataPending ∧
    s.drag.dataRevision ≠ s.drag.positionDataRevision

section Drag

variable {s t : State} {e : Event} {a : Answers} {p : Point} {data : Prop}

theorem Waits.idle {d : Drag} (hp : d.positionPending = false) (hd : d.dropPending = false) : Waits d data := by
  constructor
  · rw [hp]
    nofun
  · rw [hd]
    nofun

theorem Waits.mono {d : Drag} {data' : Prop} (h : Waits d data) (hdata : data → data') : Waits d data' where
  position := h.position
  drop := by
    intro hd
    obtain ⟨ht, hp | hdat⟩ := h.drop hd
    · exact ⟨ht, .inl hp⟩
    · exact ⟨ht, .inr (hdata hdat)⟩

/-- The flags and the target of a drag -/
theorem Waits.congr {d d' : Drag} (h : Waits d data) (hp : d'.positionPending = d.positionPending)
    (hd : d'.dropPending = d.dropPending) (ht : d'.target = d.target) : Waits d' data := by
  constructor
  · rw [hp, ht]
    exact h.position
  · rw [hp, hd, ht]
    exact h.drop

@[simp] theorem drag_withDrag (s : State) (f : Drag → Drag) : (s.withDrag f).drag = f s.drag := rfl

@[simp] theorem drag_message (s : State) (w v : Option Window) (m : Message) : (s.message w v m).drag = s.drag := rfl

@[simp] theorem drag_emit (s : State) (o : Operation) (c : Channel) (n g : Nat) (m : Option Atom) (f : Option Nat) (k : Nat)
    (w : Option Window) (x : Bool) : (s.emit o c n g m f k w x).drag = s.drag := rfl

@[simp] theorem drag_leaveTarget (s : State) : s.leaveTarget.drag = s.drag := by
  unfold State.leaveTarget
  split <;> rfl

theorem retarget_drag (s : State) (p : Point) (h : s.drag.positionPending = false) :
    (s.retarget p).drag.target = p.target.map Target.window ∧ (s.retarget p).drag.dropPending = s.drag.dropPending ∧
      (s.retarget p).drag.positionPending = false := by
  unfold State.retarget
  split
  · rename_i heq
    exact ⟨heq.symm, rfl, h⟩
  · cases p.target with
    | none => simp
    | some t => simp

/-- A move while the target was asked is queued. -/
theorem moveDrag_pending (h : s.drag.positionPending = true) :
    (s.moveDrag e a).drag = { s.drag with move := e, moveQueued := true } := by
  unfold State.moveDrag
  simp [h]

theorem moveDrag_none (h : s.drag.positionPending = false) (hp : a.point = none) :
    (s.moveDrag e a).drag = { s.drag with move := e } := by
  unfold State.moveDrag
  simp [h, hp]

/-- A move over a point: the target of the point is asked. -/
theorem moveDrag_some (h : s.drag.positionPending = false) (hp : a.point = some p) :
    (s.moveDrag e a).drag.target = p.target.map Target.window ∧ (s.moveDrag e a).drag.dropPending = s.drag.dropPending ∧
      (s.moveDrag e a).drag.positionPending = p.target.isSome := by
  have hre := retarget_drag (s.withDrag fun d => { d with move := e }) p h
  unfold State.moveDrag
  simp only [drag_withDrag, h, Bool.false_eq_true, if_false, hp]
  generalize (s.withDrag fun d => { d with move := e }).retarget p = r at hre
  obtain ⟨htarget, hdrop, hpos⟩ := hre
  unfold State.sendPosition
  cases hpt : p.target with
  | none => simp_all
  | some q => simp_all

theorem dropPending_moveDrag (s : State) (e : Event) (a : Answers) :
    (s.moveDrag e a).drag.dropPending = s.drag.dropPending := by
  cases h : s.drag.positionPending with
  | true => rw [moveDrag_pending h]
  | false =>
    cases hp : a.point with
    | none => rw [moveDrag_none h hp]
    | some p => exact (moveDrag_some h hp).2.1

/-- A target that is asked is there. -/
theorem position_moveDrag (hpos : s.drag.positionPending = true → s.drag.target ≠ none)
    (h : (s.moveDrag e a).drag.positionPending = true) : (s.moveDrag e a).drag.target ≠ none := by
  cases hp : s.drag.positionPending with
  | true =>
    rw [moveDrag_pending hp]
    exact hpos hp
  | false =>
    cases hpt : a.point with
    | none =>
      rw [moveDrag_none hp hpt] at h
      rw [hp] at h
      cases h
    | some p =>
      obtain ⟨htarget, -, hpos'⟩ := moveDrag_some (e := e) hp hpt
      rw [hpos'] at h
      rw [htarget]
      cases hq : p.target with
      | none =>
        rw [hq] at h
        cases h
      | some q => nofun

theorem rejectDrag_drag (s : State) :
    s.rejectDrag.drag.dropPending = false ∧ s.rejectDrag.drag.target = none ∧
      s.rejectDrag.drag.positionPending = s.drag.positionPending := by
  unfold State.rejectDrag
  simp

/-- `dropDrag` waits, sends the drop or refuses it; it gets stuck only when it asks again and finds no target. -/
theorem waits_dropDrag (hdata : s.dragDataPending → data) (hpos : s.drag.positionPending = true → s.drag.target ≠ none)
    (hok : ¬(s.Renegotiates ∧ a.Lost)) : Waits (s.dropDrag a).drag data := by
  unfold State.dropDrag
  split
  · rename_i hp
    constructor
    · simpa using hpos
    · intro _
      exact ⟨hpos hp, .inl hp⟩
  · rename_i hp
    have hp : s.drag.positionPending = false := by simpa using hp
    split
    · rename_i hwait
      constructor
      · simp [hp]
      · intro _
        exact ⟨by simpa [Option.isSome_iff_ne_none] using hwait.1, .inr (hdata hwait.2.2)⟩
    · rename_i hwait
      split
      · -- the target is asked again
        rename_i hask
        have htarget : s.drag.target ≠ none := by simpa [Option.isSome_iff_ne_none] using hask.1
        have hnodata : ¬s.dragDataPending := fun hd => hwait ⟨hask.1, hask.2.1, hd⟩
        have hfound : ¬a.Lost := fun hl => hok ⟨⟨hp, htarget, hask.2.1, hnodata, hask.2.2⟩, hl⟩
        obtain ⟨p, hpt, q, hq⟩ : ∃ p, a.point = some p ∧ ∃ q, p.target = some q := by
          unfold Answers.Lost at hfound
          push Not at hfound
          obtain ⟨p, hpt, hne⟩ := hfound
          exact ⟨p, hpt, Option.ne_none_iff_exists'.1 hne⟩
        have hask' : (s.withDrag fun d => { d with dropPending := true }).drag.positionPending = false := hp
        obtain ⟨ht, -, hpp⟩ := moveDrag_some (e := s.drag.move) hask' hpt
        rw [hq] at ht hpp
        constructor
        · intro _
          rw [ht]
          nofun
        · intro _
          rw [ht]
          exact ⟨nofun, .inl hpp⟩
      · split
        · exact .idle (by simpa using hp) (by simp)
        · obtain ⟨hdrop, -, hpp⟩ := rejectDrag_drag (s.withDrag fun d => { d with dropPending := false })
          exact .idle (hpp.trans hp) hdrop

end Drag

/-! ## Transfers to the target -/

/-- A transfer that the drop waits for -/
def State.Current (s : State) (i : Fin maxPending) : Prop := (s.transfers i).drags = some (s.offers .drag).generation

theorem dragDataPending_iff (s : State) : s.dragDataPending ↔ ∃ i, s.Current i := by
  unfold State.dragDataPending State.Current Transfer.drags
  refine exists_congr fun i => ?_
  split
  · rename_i h
    simp [h]
  · rename_i h
    simp only [reduceCtorEq, iff_false]
    rintro ⟨hu, hin, hc, -⟩
    exact h ⟨hu, hin, hc⟩

/-- Transfers to targets of a drag go with a local offer, whose selection is the bridge's or nobody's. -/
structure Offered (s : State) : Prop where
  drags : ∀ i, (s.transfers i).drags ≠ none → (s.offers .drag).isLocal = true
  owner : (s.offers .drag).isLocal = true → s.enabled = true ∧ s.bridge ≠ none ∧
    ((s.selections .drag).window = s.bridge ∨ ((s.selections .drag).window = none ∧ (s.selections .drag).client = none))

/-- The drag and its transfers stay as they are. -/
structure Rests (s t : State) : Prop where
  drag : t.drag = s.drag
  drags : ∀ i, (t.transfers i).drags = (s.transfers i).drags
  generation : (t.offers .drag).generation = (s.offers .drag).generation ∨ ∀ i, (t.transfers i).drags = none

/-- What does not concern the drag -/
def Rights.resting : Rights := ⟨fun _ => True, False, False, True⟩

section Rest

variable {s t u : State} {i : Fin maxPending}

theorem drags_some {x : Transfer} (hu : x.used = true) (hin : x.incoming = false) (hc : x.channel = .drag) :
    x.drags = some x.generation := by
  simp [Transfer.drags, hu, hin, hc]

theorem drags_unused {x : Transfer} (hu : x.used = false) : x.drags = none := by
  simp [Transfer.drags, hu]

theorem drags_other {x : Transfer} (h : x.incoming = false → x.channel ≠ .drag) : x.drags = none := by
  unfold Transfer.drags
  split
  · rename_i hx
    exact absurd hx.2.2 (h hx.2.1)
  · rfl

theorem Rests.refl (s : State) : Rests s s := ⟨rfl, fun _ => rfl, .inl rfl⟩

theorem Rests.trans (h : Rests s t) (h' : Rests t u) : Rests s u where
  drag := h'.drag.trans h.drag
  drags := fun i => (h'.drags i).trans (h.drags i)
  generation := by
    rcases h'.generation with hg' | hn'
    · rcases h.generation with hg | hn
      · exact .inl (hg'.trans hg)
      · exact .inr fun i => (h'.drags i).trans (hn i)
    · exact .inr hn'

/-- What the drop waits for stays. -/
theorem Rests.pending (h : Rests s t) : t.dragDataPending ↔ s.dragDataPending := by
  rw [dragDataPending_iff, dragDataPending_iff]
  rcases h.generation with hg | hn
  · simp only [State.Current, hg, h.drags]
  · have hs : ∀ i, (s.transfers i).drags = none := fun i => (h.drags i).symm.trans (hn i)
    simp [State.Current, hn, hs]

theorem Rests.waits (h : Rests s t) (hs : Waits s.drag s.dragDataPending) : Waits t.drag t.dragDataPending := by
  rw [h.drag]
  exact hs.mono h.pending.2

theorem Offered.guarded (h : Offered s) : Guarded .resting s where
  fresh := fun _ _ => trivial
  requestor := fun _ _ _ _ _ => trivial
  catcher := fun _ _ => trivial
  drag := by
    refine .inr fun i hu hin hc => (h.owner (h.drags i ?_)).2.2
    rw [drags_some hu hin hc]
    nofun

/-- A piece that keeps the offer and the selection of the drag -/
theorem Offered.keep (h : Offered s) (hd : ∀ i, (t.transfers i).drags ≠ none → (s.transfers i).drags ≠ none)
    (hl : (t.offers .drag).isLocal = (s.offers .drag).isLocal) (he : t.enabled = s.enabled) (hb : t.bridge = s.bridge)
    (hs : t.selections .drag = s.selections .drag) : Offered t where
  drags := by
    intro i hi
    rw [hl]
    exact h.drags i (hd i hi)
  owner := by
    rw [hl, he, hb, hs]
    exact h.owner

theorem drag_selectionFinished {x : Transfer} (hx : x.incoming = false → x.channel ≠ .drag) (success : Bool) (a : Answers) :
    s.selectionFinished x success a = s := by
  unfold State.selectionFinished
  apply if_pos
  cases hin : x.incoming with
  | true => exact .inl rfl
  | false => exact .inr (.inl (hx hin))

theorem drag_refuse (s : State) (x : Transfer) : (s.refuse x).drag = s.drag := by
  unfold State.refuse
  repeat' split
  all_goals rfl

theorem offers_of_beside (h : t.beside = s.beside) : t.offers = s.offers := congrArg (fun x => x.2.2.2.2) h

theorem enabled_of_fixed (h : t.fixed = s.fixed) : t.enabled = s.enabled := by
  have : t.fixed.enabled = s.fixed.enabled := by rw [h]
  exact this

theorem bridge_of_fixed (h : t.fixed = s.fixed) : t.bridge = s.bridge := by
  have : t.fixed.bridge = s.fixed.bridge := by rw [h]
  exact this

/-- `FreeResource` leaves a drag alone: what it fails are other transfers. -/
theorem rests_frees (h : Frees .resting s t) (hs : Offered s) : Rests s t ∧ Offered t := by
  induction h with
  | refl s => exact ⟨.refl s, hs⟩
  | trans _ _ ih ih' =>
    obtain ⟨hr, ho⟩ := ih hs
    obtain ⟨hr', ho'⟩ := ih' ho
    exact ⟨hr.trans hr', ho'⟩
  | erase s _ => exact ⟨⟨rfl, fun _ => rfl, .inl rfl⟩, hs.keep (fun _ h => h) rfl rfl rfl rfl⟩
  | @lose s c _ =>
    refine ⟨⟨rfl, fun _ => rfl, .inl rfl⟩, hs.drags, fun hl => ?_⟩
    cases c with
    | clipboard =>
      have hsame : (s.setSelection .clipboard { s.selections .clipboard with window := none, client := none }).selections
          .drag = s.selections .drag := by simp [State.setSelection]
      rw [hsame]
      exact hs.owner hl
    | drag =>
      obtain ⟨he, hb, -⟩ := hs.owner hl
      exact ⟨he, hb, .inr (by simp [State.setSelection])⟩
  | @incoming s i hu hin =>
    have hb : (State.releaseSlot (s.refuse (s.transfers i)) i).beside = s.beside :=
      (beside_releaseSlot _ i).trans (beside_refuse s _)
    have hf : (State.releaseSlot (s.refuse (s.transfers i)) i).fixed = s.fixed := by rw [fixed_releaseSlot, fixed_refuse]
    have hdrags : ∀ j, ((State.releaseSlot (s.refuse (s.transfers i)) i).transfers j).drags = (s.transfers j).drags := by
      intro j
      by_cases hj : j = i
      · subst hj
        rw [transfers_releaseSlot_self]
        simp [Transfer.drags, hin]
      · rw [transfers_releaseSlot_ne _ hj, transfers_refuse]
    refine ⟨⟨drag_refuse s _, hdrags, .inl ?_⟩, hs.keep ?_ ?_ (enabled_of_fixed hf) (bridge_of_fixed hf) ?_⟩
    · rw [offers_of_beside hb]
    · intro j
      rw [hdrags]
      exact id
    · rw [offers_of_beside hb]
    · rw [selections_of_beside hb]
  | @clearFd s i hu =>
    have hdrags : ∀ j, ((s.clearFd i).transfers j).drags = (s.transfers j).drags := by
      intro j
      by_cases hj : j = i
      · subst hj
        rw [drags_unused ((used_clearFd s j).trans hu), drags_unused hu]
      · rw [transfers_clearFd_ne _ hj]
    refine ⟨⟨rfl, hdrags, .inl rfl⟩, hs.keep (fun j => ?_) rfl rfl rfl rfl⟩
    rw [hdrags]
    exact id
  | @outgoing s i hu hin hd =>
    have hb := beside_failOutgoing s i
    have hf := fixed_failOutgoing s i
    have hother : (s.transfers i).incoming = false → (s.transfers i).channel ≠ .drag := fun _ hc => hd hc
    have hdrags : ∀ j, ((s.failOutgoing i).transfers j).drags = (s.transfers j).drags := by
      intro j
      by_cases hj : j = i
      · subst hj
        rw [drags_unused (used_failOutgoing_self s j), drags_other hother]
      · rw [transfers_failOutgoing_ne s hj]
    have hdrag : (s.failOutgoing i).drag = s.drag := by
      unfold State.failOutgoing
      rw [drag_selectionFinished hother]
      exact drag_refuse s _
    refine ⟨⟨hdrag, hdrags, .inl ?_⟩, hs.keep ?_ ?_ (enabled_of_fixed hf) (bridge_of_fixed hf) ?_⟩
    · rw [offers_of_beside hb]
    · intro j
      rw [hdrags]
      exact id
    · rw [offers_of_beside hb]
    · rw [selections_of_beside hb]
  | @renew s c hc =>
    cases c with
    | clipboard =>
      have hsame : (s.renewOffer .clipboard).offers .drag = s.offers .drag := by simp [State.renewOffer]
      refine ⟨⟨rfl, fun _ => rfl, .inl ?_⟩, hs.keep (fun _ h => h) ?_ rfl rfl rfl⟩
      · rw [hsame]
      · rw [hsame]
    | drag =>
      -- the offer changes when no transfer waits with it
      have hnone : ∀ i, (s.transfers i).drags = none := by
        intro i
        unfold Transfer.drags
        split
        · rename_i hi
          exact absurd hi.2.2 (hc i hi.1)
        · rfl
      refine ⟨⟨rfl, fun _ => rfl, .inr hnone⟩, fun i hi => absurd (hnone i) hi, fun hl => ?_⟩
      simp [State.renewOffer] at hl
  | cancel s => exact ⟨⟨rfl, fun _ => rfl, .inl rfl⟩, hs.keep (fun _ h => h) rfl rfl rfl rfl⟩
  | @endExport s t _ _ ih =>
    have hstep : ∀ {s t : State}, ExportStep s t → Rests s t ∧ (Offered s → Offered t) := by
      rintro s _ ⟨x, e, l, p, -, rfl⟩
      exact ⟨⟨rfl, fun _ => rfl, .inl rfl⟩, fun h => h.keep (fun _ h => h) rfl rfl rfl rfl⟩
    obtain ⟨hr, ho⟩ := ih ((hstep (.finishExport s)).2 hs)
    have hleave := hstep (.leaveExport t)
    exact ⟨((hstep (.finishExport s)).1.trans hr).trans hleave.1, hleave.2 ho⟩

theorem rests_works (h : Works .resting s t) (hs : Offered s) : Rests s t ∧ Offered t := by
  induction h with
  | refl s => exact ⟨.refl s, hs⟩
  | trans _ _ ih ih' =>
    obtain ⟨hr, ho⟩ := ih hs
    obtain ⟨hr', ho'⟩ := ih' ho
    exact ⟨hr.trans hr', ho'⟩
  | here h =>
    rcases h.drag with hd | ⟨hdrag, hdrags, hgen, hloc⟩
    · exact hd.elim
    · rcases h.owner with hown | hown
      · exact hown.elim
      · refine ⟨⟨hdrag, hdrags, .inl hgen⟩, hs.keep (fun i => ?_) hloc h.enabled h.bridge hown⟩
        rw [hdrags]
        exact id
  | frees h => exact rests_frees h hs

end Rest

end Lorie.DataExchange
