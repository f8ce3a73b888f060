import Lorie.DataExchange.Service
import Lorie.Lib.Transition

/-!
# Every export is finished once

An export begins with `LORIE_DATA_BEGIN` and ends with the drop of its source and the report of the host, by its deadline,
with the selection, or by a reset. Its history is a `Record`.

- `Record.Matches`, `Record.Closed`: the record of an export that runs, and of one that ended;
- `Exports`: the variables of the export and the records between operations;
- `Ending`: the same inside `endExport`, where windows are freed;
- `exports_finished_once`: `Exports` in every state reached, and what the records say.
-/

namespace Lorie.DataExchange

open Lorie.Lib State

/-! ## Records -/

/-- `XdndFinished` to a source -/
def Output.isFinished : Output → Bool
  | .message _ _ (.finished ..) => true
  | _ => false

/-- The output and the window of a released button -/
def Output.released : Output → Option (Nat × Option Window)
  | .releaseButton output window => some (output, window)
  | _ => none

namespace Record

/-- The message that ends an export: the source dropped and the last report of the host is a success. -/
def finish (r : Record) : Output :=
  .message r.source (some r.source) (.finished (some r.catcher) (r.dropped && r.reports.getLast? = some true))

/-- An export that ended: the button was released once, and a source that exists was told once. -/
structure Closed (r : Record) : Prop where
  releases : r.releases = [(r.output, r.window)]
  ended : ∃ b, r.ended = some b ∧ r.finishes = if b then [r.finish] else []

/-- The lease of the pointer: held, or released once. -/
def Lease (r : Record) (x : Export) : Prop :=
  (r.releases = [] ∧ x.output = r.output ∧ x.window = r.window) ∨
    (r.releases = [(r.output, r.window)] ∧ x.output = 0 ∧ x.window = none)

/-- An export that runs. -/
structure Matches (r : Record) (x : Export) : Prop where
  source : x.source = some r.source
  catcher : x.catcher = some r.catcher
  dropped : x.dropped = r.dropped
  completed : x.completed = !r.reports.isEmpty
  success : x.success = decide (r.reports.getLast? = some true)
  ended : r.ended = none
  finishes : r.finishes = []
  output : r.output ≠ 0
  lease : r.Lease x

end Record

/-! ## States -/

/-- The records hold everything that went out of exports. -/
structure Ties (s : State) : Prop where
  finishes : s.log.filter Output.isFinished = s.exports.reverse.flatMap Record.finishes
  releases : s.log.filterMap Output.released = s.exports.reverse.flatMap Record.releases

/-- Nothing of an export is left. -/
structure Cleared (x : Export) : Prop where
  source : x.source = none
  catcher : x.catcher = none
  timer : x.timer = false
  output : x.output = 0
  window : x.window = none

/-- Between operations: the last export runs, or all have ended. -/
structure Exports (s : State) : Prop where
  ties : Ties s
  pointer : s.pointerDown = true → s.pointerOutput ≠ 0
  state : (Cleared s.exported ∧ ∀ r ∈ s.exports, r.Closed) ∨
    ∃ r rs, s.exports = r :: rs ∧ r.Matches s.exported ∧ (r.dropped = true → r.reports = []) ∧ ∀ r' ∈ rs, r'.Closed

/-- Inside `endExport`: the source was told, the button may still be held. -/
structure Ending (s : State) : Prop where
  ties : Ties s
  pointer : s.pointerDown = true → s.pointerOutput ≠ 0
  source : s.exported.source = none
  timer : s.exported.timer = false
  state : ∃ r rs, s.exports = r :: rs ∧ r.output ≠ 0 ∧ r.Lease s.exported ∧
    (∃ b, r.ended = some b ∧ r.finishes = if b then [r.finish] else []) ∧ ∀ r' ∈ rs, r'.Closed

/-- The export, its history and the pointer stay, and what goes out is of no export. -/
structure Aside (s t : State) : Prop where
  exported : t.exported = s.exported
  exports : t.exports = s.exports
  pointerDown : t.pointerDown = s.pointerDown
  pointerOutput : t.pointerOutput = s.pointerOutput
  log : ∃ l, Apart l ∧ t.log = s.log ++ l

theorem finished_apart {l : List Output} (h : Apart l) : l.filter Output.isFinished = [] := by
  apply List.filter_eq_nil_iff.2
  intro o ho
  have := h o ho
  cases o with
  | message w v m => cases m <;> simp_all [Output.isFinished, Output.ofExport]
  | _ => simp [Output.isFinished]

theorem released_apart {l : List Output} (h : Apart l) : l.filterMap Output.released = [] := by
  apply List.filterMap_eq_nil_iff.2
  intro o ho
  have := h o ho
  cases o with
  | releaseButton => simp [Output.ofExport] at this
  | _ => rfl

namespace Aside

variable {R : Rights} {s t u : State} {i : Fin maxPending}

theorem refl (s : State) : Aside s s := ⟨rfl, rfl, rfl, rfl, [], .nil, (List.append_nil _).symm⟩

theorem trans (h : Aside s t) (h' : Aside t u) : Aside s u := by
  obtain ⟨l, hl, heq⟩ := h.log
  obtain ⟨l', hl', heq'⟩ := h'.log
  constructor
  · exact h'.exported.trans h.exported
  · exact h'.exports.trans h.exports
  · exact h'.pointerDown.trans h.pointerDown
  · exact h'.pointerOutput.trans h.pointerOutput
  · exact ⟨l ++ l', hl.append hl', by rw [heq', heq, List.append_assoc]⟩

theorem here (hR : ¬R.exports) (h : Local R s t) : Aside s t := by
  rcases h.exports with hx | ⟨hx, hxs, hp, hpo, hl⟩
  · exact absurd hx hR
  · exact ⟨hx, hxs, hp, hpo, hl⟩

theorem refuse (s : State) (x : Transfer) : Aside s (s.refuse x) := by
  unfold State.refuse
  split
  · split
    · exact refl s
    · exact ⟨rfl, rfl, rfl, rfl, _, .singleton rfl, rfl⟩
  · split
    · exact refl s
    · refine ⟨rfl, rfl, rfl, rfl, _, ?_, rfl⟩
      unfold State.notified
      split
      · split
        · exact .singleton rfl
        · exact .nil
      · exact .nil

theorem dragStep (h : DragStep s t) : Aside s t := by
  obtain ⟨d, l, -, hl, rfl⟩ := h
  exact ⟨rfl, rfl, rfl, rfl, l, hl, rfl⟩

theorem releaseSlot (s : State) (i : Fin maxPending) : Aside s (s.releaseSlot i) :=
  ⟨rfl, rfl, rfl, rfl, [], .nil, (List.append_nil _).symm⟩

theorem clearFd (s : State) (i : Fin maxPending) : Aside s (s.clearFd i) :=
  ⟨rfl, rfl, rfl, rfl, [], .nil, (List.append_nil _).symm⟩

theorem failOutgoing (s : State) (i : Fin maxPending) : Aside s (s.failOutgoing i) := by
  unfold State.failOutgoing
  exact (((refuse s _).trans (releaseSlot _ i)).trans (clearFd _ i)).trans
    (dragStep ((DragStep.refl _).selectionFinished _ _ _))

/-- Without an export, what `FreeResource` does concerns none. -/
theorem frees (h : Frees R s t) (hs : s.exported.source = none) : Aside s t := by
  induction h with
  | refl s => exact refl s
  | trans _ _ ih ih' =>
    have hfirst := ih hs
    refine hfirst.trans (ih' ?_)
    rw [hfirst.exported]
    exact hs
  | erase s _ => exact ⟨rfl, rfl, rfl, rfl, [], .nil, (List.append_nil _).symm⟩
  | lose _ => exact ⟨rfl, rfl, rfl, rfl, [], .nil, (List.append_nil _).symm⟩
  | @incoming s i _ _ => exact (refuse s _).trans (releaseSlot _ i)
  | clearFd _ => exact clearFd _ _
  | @outgoing s i _ _ _ => exact failOutgoing s i
  | renew _ => exact ⟨rfl, rfl, rfl, rfl, [], .nil, (List.append_nil _).symm⟩
  | cancel s => exact ⟨rfl, rfl, rfl, rfl, _, .singleton rfl, rfl⟩
  | endExport h _ _ =>
    rw [hs] at h
    cases h

/-- Without an export, what serves transfers concerns none. -/
theorem works (hR : ¬R.exports) (h : Works R s t) (hs : s.exported.source = none) : Aside s t := by
  induction h with
  | refl s => exact refl s
  | trans _ _ ih ih' =>
    have hfirst := ih hs
    refine hfirst.trans (ih' ?_)
    rw [hfirst.exported]
    exact hs
  | here h => exact here hR h
  | frees h => exact frees h hs

end Aside

theorem Ties.congr {s t : State} (h : Ties s) (hl : t.log = s.log) (hx : t.exports = s.exports) : Ties t := by
  constructor
  · rw [hl, hx]
    exact h.finishes
  · rw [hl, hx]
    exact h.releases

theorem Ties.aside {s t : State} (h : Ties s) (ha : Aside s t) : Ties t := by
  obtain ⟨l, hl, heq⟩ := ha.log
  constructor
  · rw [heq, ha.exports, List.filter_append, finished_apart hl, List.append_nil]
    exact h.finishes
  · rw [heq, ha.exports, List.filterMap_append, released_apart hl, List.append_nil]
    exact h.releases

theorem Exports.aside {s t : State} (h : Exports s) (ha : Aside s t) : Exports t where
  ties := h.ties.aside ha
  pointer := by
    rw [ha.pointerDown, ha.pointerOutput]
    exact h.pointer
  state := by
    rw [ha.exported, ha.exports]
    exact h.state

theorem Ending.aside {s t : State} (h : Ending s) (ha : Aside s t) : Ending t where
  ties := h.ties.aside ha
  pointer := by
    rw [ha.pointerDown, ha.pointerOutput]
    exact h.pointer
  source := by
    rw [ha.exported]
    exact h.source
  timer := by
    rw [ha.exported]
    exact h.timer
  state := by
    rw [ha.exported, ha.exports]
    exact h.state

/-! ## The end of an export -/

/-- The last record changes, and what goes out with it is what it gains. -/
theorem Ties.record {s : State} {r r' : Record} {rs : List Record} {l : List Output} (h : Ties s) (hs : s.exports = r :: rs)
    (hf : r'.finishes = r.finishes ++ l.filter Output.isFinished)
    (hr : r'.releases = r.releases ++ l.filterMap Output.released) {t : State} (ht : t.exports = r' :: rs)
    (hl : t.log = s.log ++ l) : Ties t := by
  have hfin := h.finishes
  have hrel := h.releases
  rw [hs] at hfin hrel
  simp only [List.reverse_cons, List.flatMap_append, List.flatMap_cons, List.flatMap_nil, List.append_nil] at hfin hrel
  constructor
  · rw [hl, ht, List.filter_append, hfin]
    simp [hf]
  · rw [hl, ht, List.filterMap_append, hrel]
    simp [hr]

/-- What `XdndFinished` at the end of an export is -/
theorem finish_delivered (s : State) (w : Window) (c : Option Window) (b : Bool) :
    (s.delivered (some w) (some w) (.finished c b)).filter Output.isFinished =
        s.delivered (some w) (some w) (.finished c b) ∧
      (s.delivered (some w) (some w) (.finished c b)).filterMap Output.released = [] := by
  unfold State.delivered
  dsimp only
  split
  · exact ⟨rfl, rfl⟩
  · exact ⟨rfl, rfl⟩

/-- An export that can end: the variables say what the record says. -/
structure Record.Ends (r : Record) (x : Export) : Prop where
  source : x.source = some r.source
  catcher : x.catcher = some r.catcher
  success : (x.dropped && x.completed && x.success) = (r.dropped && r.reports.getLast? = some true)
  finishes : r.finishes = []
  output : r.output ≠ 0
  lease : r.Lease x

theorem Record.Matches.ends {r : Record} {x : Export} (h : r.Matches x) : r.Ends x where
  source := h.source
  catcher := h.catcher
  success := by
    rw [h.dropped, h.completed, h.success]
    cases hr : r.reports with
    | nil => simp
    | cons b l => simp
  finishes := h.finishes
  output := h.output
  lease := h.lease

/-- `endExport` of the last export, up to `FreeResource` -/
theorem finishExport_eq {s : State} {w : Window} {r : Record} {rs : List Record} (hw : s.exported.source = some w)
    (hs : s.exports = r :: rs) :
    s.finishExport =
      { s with
        log := s.log ++ s.delivered (some w) (some w)
          (.finished s.exported.catcher (s.exported.dropped && s.exported.completed && s.exported.success))
        exports := { r with
          ended := some (w ∈ s.windows ∧ w.clientOwned)
          finishes := r.finishes ++ s.delivered (some w) (some w)
            (.finished s.exported.catcher (s.exported.dropped && s.exported.completed && s.exported.success)) } :: rs
        exported := { s.exported with timer := false, source := none } } := by
  unfold State.finishExport State.record State.message
  simp only [hw, hs]
  rfl

/-- The source is told. -/
theorem ending_finishExport {s : State} {r : Record} {rs : List Record} (ht : Ties s)
    (hp : s.pointerDown = true → s.pointerOutput ≠ 0) (hs : s.exports = r :: rs) (hr : r.Ends s.exported)
    (hrs : ∀ r' ∈ rs, r'.Closed) : Ending s.finishExport := by
  obtain ⟨hfin, hrel⟩ := finish_delivered s r.source s.exported.catcher
    (s.exported.dropped && s.exported.completed && s.exported.success)
  rw [finishExport_eq hr.source hs]
  constructor
  · refine ht.record hs ?_ ?_ rfl rfl
    · rw [hfin]
    · rw [hrel, List.append_nil]
  · exact hp
  · rfl
  · rfl
  · refine ⟨_, rs, rfl, hr.output, hr.lease, ⟨_, rfl, ?_⟩, hrs⟩
    dsimp only
    rw [hr.finishes, List.nil_append, hr.success, hr.catcher]
    unfold State.delivered Record.finish
    by_cases hw : r.source ∈ s.windows ∧ r.source.clientOwned = true
    · simp [hw]
    · simp [hw]

/-- The button of the last export is released. -/
theorem releaseExportPointer_eq {s : State} {r : Record} {rs : List Record} (ho : s.exported.output ≠ 0)
    (hs : s.exports = r :: rs) :
    s.releaseExportPointer =
      { s with
        log := s.log ++ [.releaseButton s.exported.output s.exported.window]
        exports := { r with releases := r.releases ++ [(s.exported.output, s.exported.window)] } :: rs
        pointerDown := if s.pointerOutput = s.exported.output ∧ s.pointerWindow = s.exported.window then false
          else s.pointerDown
        exported := { s.exported with output := 0, window := none } } := by
  unfold State.releaseExportPointer State.record
  simp only [ho, if_false, hs]
  rfl

theorem exports_leaveExport {s : State} (h : Ending s) : Exports s.leaveExport := by
  obtain ⟨r, rs, hs, hout, hlease, hended, hrs⟩ := h.state
  have hcatcher : Ending (s.withExport fun x => { x with catcher := none }) :=
    ⟨h.ties.congr rfl rfl, h.pointer, h.source, h.timer, r, rs, hs, hout, hlease, hended, hrs⟩
  unfold State.leaveExport
  rcases hlease with ⟨hnone, ho, hw⟩ | ⟨hone, ho, hw⟩
  · -- the button is still held
    have hne : (s.withExport fun x => { x with catcher := none }).exported.output ≠ 0 := by
      show s.exported.output ≠ 0
      rw [ho]
      exact hout
    rw [releaseExportPointer_eq hne hs]
    constructor
    · refine hcatcher.ties.record hs ?_ ?_ rfl rfl
      · simp [Output.isFinished]
      · simp [Output.released]
    · intro hp
      apply h.pointer
      dsimp only at hp
      split at hp
      · cases hp
      · exact hp
    · left
      refine ⟨⟨h.source, rfl, h.timer, rfl, rfl⟩, fun r' hr' => ?_⟩
      rcases List.mem_cons.1 hr' with rfl | hr'
      · constructor
        · show r.releases ++ [(s.exported.output, s.exported.window)] = [(r.output, r.window)]
          rw [hnone, ho, hw]
          rfl
        · exact hended
      · exact hrs r' hr'
  · have hzero : (s.withExport fun x => { x with catcher := none }).releaseExportPointer =
        s.withExport fun x => { x with catcher := none } := by
      unfold State.releaseExportPointer
      exact if_pos ho
    rw [hzero]
    constructor
    · exact h.ties.congr rfl rfl
    · exact h.pointer
    · left
      refine ⟨⟨h.source, rfl, h.timer, ho, hw⟩, fun r' hr' => ?_⟩
      rw [show (s.withExport fun x => { x with catcher := none }).exports = r :: rs from hs] at hr'
      rcases List.mem_cons.1 hr' with rfl | hr'
      · exact ⟨hone, hended⟩
      · exact hrs r' hr'

namespace Exports

variable {R : Rights} {s t u : State} {i : Fin maxPending}

/-- An export that runs can end. -/
theorem ends (h : Exports s) (hs : s.exported.source.isSome = true) :
    ∃ r rs, s.exports = r :: rs ∧ r.Matches s.exported ∧ (r.dropped = true → r.reports = []) ∧ ∀ r' ∈ rs, r'.Closed := by
  rcases h.state with ⟨hclear, -⟩ | hrun
  · rw [hclear.source] at hs
    cases hs
  · exact hrun

/-- `endExport` with the windows that are freed inside -/
theorem leaves {r : Record} {rs : List Record} (ht : Ties s) (hp : s.pointerDown = true → s.pointerOutput ≠ 0)
    (hs : s.exports = r :: rs) (hr : r.Ends s.exported) (hrs : ∀ r' ∈ rs, r'.Closed) (hfree : Frees R s.finishExport t) :
    Exports t.leaveExport := by
  have hending := ending_finishExport ht hp hs hr hrs
  exact exports_leaveExport (hending.aside (.frees hfree hending.source))

theorem frees (h : Frees R s t) (hs : Exports s) : Exports t := by
  induction h with
  | refl s => exact hs
  | trans _ _ ih ih' => exact ih' (ih hs)
  | erase s _ => exact hs.aside ⟨rfl, rfl, rfl, rfl, [], .nil, (List.append_nil _).symm⟩
  | lose _ => exact hs.aside ⟨rfl, rfl, rfl, rfl, [], .nil, (List.append_nil _).symm⟩
  | @incoming s i _ _ => exact hs.aside ((Aside.refuse s _).trans (.releaseSlot _ i))
  | clearFd _ => exact hs.aside (.clearFd _ _)
  | @outgoing s i _ _ _ => exact hs.aside (.failOutgoing s i)
  | renew _ => exact hs.aside ⟨rfl, rfl, rfl, rfl, [], .nil, (List.append_nil _).symm⟩
  | cancel s => exact hs.aside ⟨rfl, rfl, rfl, rfl, _, .singleton rfl, rfl⟩
  | @endExport s t h hfree _ =>
    obtain ⟨r, rs, hexports, hr, -, hrs⟩ := hs.ends h
    exact leaves hs.ties hs.pointer hexports hr.ends hrs hfree

theorem works (hR : ¬R.exports) (h : Works R s t) (hs : Exports s) : Exports t := by
  induction h with
  | refl s => exact hs
  | trans _ _ ih ih' => exact ih' (ih hs)
  | here h => exact hs.aside (.here hR h)
  | frees h => exact frees h hs

/-- What serves transfers, drags and selections -/
def serving : Rights := ⟨fun _ => True, True, True, False⟩

theorem guarded (s : State) : Guarded serving s :=
  ⟨fun _ _ => trivial, fun _ _ _ _ _ => trivial, fun _ _ => trivial, .inl trivial⟩

theorem serves (h : Serves serving s t) (hs : Exports s) : Exports t := works id (h.works (guarded s)) hs

/-- `endExport` of an export that can end -/
theorem endExport {r : Record} {rs : List Record} (ht : Ties s) (hp : s.pointerDown = true → s.pointerOutput ≠ 0)
    (hs : s.exports = r :: rs) (hr : r.Ends s.exported) (hrs : ∀ r' ∈ rs, r'.Closed) :
    Exports (s.endExport freeResource) := by
  unfold State.endExport
  dsimp only
  split
  · exact leaves ht hp hs hr hrs (freeResource_frees _ _)
  · exact leaves (R := .all) ht hp hs hr hrs (.refl _)

/-- `endExport` between operations -/
theorem endExport_any (h : Exports s) : Exports (s.endExport freeResource) := by
  rcases h.state with ⟨hclear, hrs⟩ | ⟨r, rs, hs, hr, -, hrs⟩
  · -- nothing is left to do
    have hfinish : s.finishExport = s.withExport fun x => { x with timer := false } := by
      unfold State.finishExport
      simp only [hclear.source]
    have hcatcher : s.finishExport.exported.catcher = none := by rw [catcher_finishExport, hclear.catcher]
    have hout : (s.finishExport.withExport fun x => { x with catcher := none }).exported.output = 0 := by
      rw [hfinish]
      exact hclear.output
    unfold State.endExport
    dsimp only
    rw [hcatcher]
    dsimp only
    unfold State.leaveExport State.releaseExportPointer
    dsimp only
    rw [if_pos hout, hfinish]
    constructor
    · exact h.ties.congr rfl rfl
    · exact h.pointer
    · exact .inl ⟨⟨hclear.source, rfl, rfl, hclear.output, hclear.window⟩, hrs⟩
  · exact endExport h.ties h.pointer hs hr.ends hrs

/-- Its deadline ends an export; it fails, because a source that dropped waits for the first report. -/
theorem exportExpired (h : Exports s) : Exports (s.exportExpired freeResource) := by
  unfold State.exportExpired
  rcases h.state with ⟨hclear, hrs⟩ | ⟨r, rs, hs, hr, hwait, hrs⟩
  · have hidle : Exports (s.withExport fun x => { x with timer := false, success := false }) := by
      constructor
      · exact h.ties.congr rfl rfl
      · exact h.pointer
      · exact .inl ⟨⟨hclear.source, hclear.catcher, rfl, hclear.output, hclear.window⟩, hrs⟩
    exact hidle.endExport_any
  · refine endExport (h.ties.congr rfl rfl) h.pointer hs ?_ hrs
    constructor
    · exact hr.source
    · exact hr.catcher
    · show (s.exported.dropped && s.exported.completed && false) = _
      cases hd : r.dropped with
      | false => simp
      | true => simp [hwait hd]
    · exact hr.finishes
    · exact hr.output
    · exact hr.lease

/-! ## Operations -/

/-- The button of an export that runs is released. -/
theorem releaseExportPointer {r : Record} {rs : List Record} (ht : Ties s)
    (hp : s.pointerDown = true → s.pointerOutput ≠ 0) (hs : s.exports = r :: rs) (hr : r.Matches s.exported) :
    Ties s.releaseExportPointer ∧
      (s.releaseExportPointer.pointerDown = true → s.releaseExportPointer.pointerOutput ≠ 0) ∧
      ∃ r', s.releaseExportPointer.exports = r' :: rs ∧ r'.Matches s.releaseExportPointer.exported ∧
        r'.dropped = r.dropped := by
  rcases hr.lease with ⟨hnone, ho, hw⟩ | ⟨hone, ho, hw⟩
  · have hne : s.exported.output ≠ 0 := by
      rw [ho]
      exact hr.output
    rw [releaseExportPointer_eq hne hs]
    refine ⟨ht.record hs ?_ ?_ rfl rfl, ?_, _, rfl, ?_, rfl⟩
    · simp [Output.isFinished]
    · simp [Output.released]
    · intro hdown
      apply hp
      dsimp only at hdown
      split at hdown
      · cases hdown
      · exact hdown
    · refine ⟨hr.source, hr.catcher, hr.dropped, hr.completed, hr.success, hr.ended, hr.finishes, hr.output, .inr ?_⟩
      refine ⟨?_, rfl, rfl⟩
      show r.releases ++ [(s.exported.output, s.exported.window)] = [(r.output, r.window)]
      rw [hnone, ho, hw]
      rfl
  · have hsame : s.releaseExportPointer = s := by
      unfold State.releaseExportPointer
      exact if_pos ho
    rw [hsame]
    exact ⟨ht, hp, r, hs, hr, rfl⟩

/-- The source drops. -/
theorem exportDrop (h : Exports s) (hs : s.exported.source.isSome = true) : Exports s.exportDrop := by
  obtain ⟨r, rs, hx, hr, hwait, hrs⟩ := h.ends hs
  obtain ⟨t, htdef⟩ : ∃ t, t = (s.withExport fun x => { x with dropped := true }).record fun r => { r with dropped := true } :=
    ⟨_, rfl⟩
  have heq : t = { s with exported := { s.exported with dropped := true }, exports := { r with dropped := true } :: rs } := by
    rw [htdef]
    unfold State.record
    rw [show (s.withExport fun x => { x with dropped := true }).exports = r :: rs from hx]
    rfl
  have ht : Ties t := by
    rw [heq]
    refine h.ties.record (l := []) hx ?_ ?_ rfl (List.append_nil _).symm
    · simp
    · simp
  have hp : t.pointerDown = true → t.pointerOutput ≠ 0 := by
    rw [heq]
    exact h.pointer
  have hxt : t.exports = { r with dropped := true } :: rs := by rw [heq]
  have hmatch : Record.Matches { r with dropped := true } t.exported := by
    rw [heq]
    exact ⟨hr.source, hr.catcher, rfl, hr.completed, hr.success, hr.ended, hr.finishes, hr.output, hr.lease⟩
  unfold State.exportDrop
  dsimp only
  rw [← htdef]
  split
  · exact endExport ht hp hxt hmatch.ends hrs
  · rename_i hc
    refine ⟨ht, hp, .inr ⟨_, rs, hxt, hmatch, fun _ => ?_, hrs⟩⟩
    rw [heq] at hc
    have hcomp := hr.completed
    simp only at hc
    cases hrep : r.reports with
    | nil => rfl
    | cons b l =>
      rw [hrep] at hcomp
      exact absurd hcomp hc

/-- The host reports. -/
theorem report (h : Exports s) (hs : s.exported.source.isSome = true) (success : Bool) : Exports (s.report success) := by
  obtain ⟨r, rs, hx, hr, hwait, hrs⟩ := h.ends hs
  obtain ⟨t, htdef⟩ : ∃ t, t = (s.withExport fun x => { x with completed := true, success := success }).record fun r =>
      { r with reports := r.reports ++ [success] } := ⟨_, rfl⟩
  have heq : t = { s with exported := { s.exported with completed := true, success := success }
                          exports := { r with reports := r.reports ++ [success] } :: rs } := by
    rw [htdef]
    unfold State.record
    rw [show (s.withExport fun x => { x with completed := true, success := success }).exports = r :: rs from hx]
    rfl
  have ht : Ties t := by
    rw [heq]
    refine h.ties.record (l := []) hx ?_ ?_ rfl (List.append_nil _).symm
    · simp
    · simp
  have hp : t.pointerDown = true → t.pointerOutput ≠ 0 := by
    rw [heq]
    exact h.pointer
  have hxt : t.exports = { r with reports := r.reports ++ [success] } :: rs := by rw [heq]
  have hmatch : Record.Matches { r with reports := r.reports ++ [success] } t.exported := by
    rw [heq]
    refine ⟨hr.source, hr.catcher, hr.dropped, ?_, ?_, hr.ended, hr.finishes, hr.output, hr.lease⟩
    · simp
    · simp
  obtain ⟨ht', hp', r', hx', hmatch', hdrop⟩ := releaseExportPointer ht hp hxt hmatch
  unfold State.report
  dsimp only
  rw [← htdef]
  split
  · exact endExport ht' hp' hx' hmatch'.ends hrs
  · rename_i hd
    refine ⟨ht', hp', .inr ⟨r', rs, hx', hmatch', fun hdr => ?_, hrs⟩⟩
    rw [hmatch'.dropped] at hd
    exact absurd hdr hd

theorem complete (h : Exports s) (success : Bool) : Exports (s.complete success) := by
  unfold State.complete
  refine Exports.aside ?_ (.dragStep (DragStep.refl _).forgetDrag)
  split
  · rename_i hs
    exact report h hs success
  · exact h

/-- An export begins, with a record of its own. -/
theorem beginExport (h : Exports s) (a : Answers) : Exports (s.beginExport a) := by
  have hwin := Aside.here (R := serving) id (.newWindow s a)
  unfold State.beginExport
  dsimp only
  split
  · rename_i w hsource howner
    have hidle : Cleared s.exported ∧ ∀ r ∈ s.exports, r.Closed := by
      rcases h.state with hidle | ⟨r, rs, -, hr, -⟩
      · exact hidle
      · rw [hr.source] at hsource
        cases hsource
    split
    · exact h
    · rename_i hgo
      have hdown : s.pointerDown = true := by
        rw [not_or] at hgo
        simpa using hgo.2
      cases hw : s.newWindow a with
      | mk c t =>
        rw [hw] at hwin
        have ht := h.aside hwin
        dsimp only at ht hwin
        cases c with
        | none =>
          dsimp only
          have hclear := hidle.1
          rw [← hwin.exported] at hclear
          have hrs := hidle.2
          rw [← hwin.exports] at hrs
          constructor
          · exact ht.ties.congr rfl rfl
          · exact ht.pointer
          · exact .inl ⟨⟨hclear.source, rfl, hclear.timer, hclear.output, hclear.window⟩, hrs⟩
        | some c =>
          dsimp only
          have hrs := hidle.2
          rw [← hwin.exports] at hrs
          have hout : t.pointerOutput ≠ 0 := by
            rw [hwin.pointerOutput]
            exact h.pointer hdown
          constructor
          · constructor
            · rw [List.reverse_cons, List.flatMap_append]
              simpa using ht.ties.finishes
            · rw [List.reverse_cons, List.flatMap_append]
              simpa using ht.ties.releases
          · exact ht.pointer
          · refine .inr ⟨_, t.exports, rfl, ?_, nofun, hrs⟩
            exact ⟨rfl, rfl, rfl, rfl, rfl, rfl, rfl, hout, .inl ⟨rfl, rfl, rfl⟩⟩
  · exact h

theorem clientMessage (h : Exports s) (window : Option Window) (type : MessageType) (first : Option Window)
    (bit copy : Bool) (a : Answers) : Exports (s.clientMessage window type first bit copy a) := by
  unfold State.clientMessage
  dsimp only
  repeat' split
  · exact h
  · exact h.aside (.dragStep ((DragStep.refl s).message _ _ fun _ => rfl))
  · exact h
  · rename_i hx
    exact exportDrop h hx.1
  · exact h.aside (.dragStep ((DragStep.refl s).dragStatus _ a))
  · exact h.aside (.dragStep ((DragStep.refl s).dragFinished bit))
  · exact h

theorem operate (h : Exports s) (c : Channel) (e : Event) (fd : Option Nat) (a : Answers) :
    Exports (s.operate c e fd a) := by
  have hclose : ∀ t : State, Exports t → Exports (t.close fd) := fun t ht =>
    ht.aside ⟨rfl, rfl, rfl, rfl, [], .nil, (List.append_nil _).symm⟩
  by_cases hf : e.operation = .finish
  · unfold State.operate
    rw [hf]
    exact hclose _ (h.complete _)
  · by_cases hc : e.operation = .cancel
    · unfold State.operate
      rw [hc]
      exact hclose _ (h.complete false)
    · by_cases hb : e.operation = .begin
      · unfold State.operate
        rw [hb]
        exact hclose _ (h.beginExport a)
      · exact serves (.operate trivial (fun _ _ => trivial) hf hc hb s fd a) h

theorem enable (h : Exports s) (e : Event) (a : Answers) : Exports (s.enable e a) := by
  have hon : Exports { s with enabled := true, clipboardActive := e.x ≠ 0 } :=
    h.aside ⟨rfl, rfl, rfl, rfl, [], .nil, (List.append_nil _).symm⟩
  unfold State.enable
  dsimp only
  split
  · exact hon
  · have hwin := hon.aside (Aside.here (R := serving) id (.newWindow _ a))
    exact hwin.aside ⟨rfl, rfl, rfl, rfl, [], .nil, (List.append_nil _).symm⟩

theorem command (h : Exports s) (e : Event) (fd : Option Nat) (a : Answers) : Exports (s.command e fd a) := by
  have hclose : ∀ t : State, Exports t → Exports (t.close fd) := fun t ht =>
    ht.aside ⟨rfl, rfl, rfl, rfl, [], .nil, (List.append_nil _).symm⟩
  unfold State.command
  split
  · exact hclose _ h
  · split
    · exact hclose _ (h.enable e a)
    · split
      · exact hclose _ h
      · exact h.operate _ e fd a

theorem lorieDataCommand (h : Exports s) (e : Event) (fd : Bool) (a : Answers) : Exports (s.lorieDataCommand e fd a) := by
  unfold State.lorieDataCommand
  cases fd with
  | false =>
    have hasked : Exports (s.ask e) := h.aside ⟨rfl, rfl, rfl, rfl, [], .nil, (List.append_nil _).symm⟩
    exact hasked.command e none a
  | true =>
    have hnew : Exports (s.ask e).newFd.2 := h.aside ⟨rfl, rfl, rfl, rfl, [], .nil, (List.append_nil _).symm⟩
    exact hnew.command e _ a

theorem lorieDataPointer (h : Exports s) (output : Nat) (window : Option Window) (button : Nat) (down : Bool)
    (hout : output ≠ 0) : Exports (s.lorieDataPointer output window button down) := by
  unfold State.lorieDataPointer
  split
  · exact h
  · constructor
    · exact h.ties.congr rfl rfl
    · exact fun _ => hout
    · exact h.state

theorem releaseAll (h : Exports s) : Exports s.releaseAll := by
  have hloop : ∀ (l : List (Fin maxPending)) (t : State), Exports t →
      Exports (l.foldl (fun s i => s.release freeResource i) t) := by
    intro l
    induction l with
    | nil => exact fun t ht => ht
    | cons i l ih => exact fun t ht => ih _ (serves (.release fun _ _ => trivial) ht)
  exact hloop _ _ (h.aside ⟨rfl, rfl, rfl, rfl, [], .nil, (List.append_nil _).symm⟩)

theorem lorieDataReset (h : Exports s) : Exports s.lorieDataReset := by
  have hfree := frees (frees_freeBridge _) h.endExport_any.releaseAll
  unfold State.lorieDataReset
  generalize (s.endExport freeResource).releaseAll.freeBridge = r at hfree ⊢
  constructor
  · exact hfree.ties.congr rfl rfl
  · nofun
  · exact hfree.state

/-- **One operation** keeps the export and its history. -/
theorem step {a : Action} (h : Exports s) (hs : step s a = some t) : Exports t := by
  cases a with
  | createWindow c n =>
    simp only [DataExchange.step] at hs
    split at hs
    · cases hs
    · cases hs
      exact h.aside ⟨rfl, rfl, rfl, rfl, [], .nil, (List.append_nil _).symm⟩
  | destroyWindow w =>
    simp only [DataExchange.step] at hs
    split at hs
    · cases hs
      exact frees (freeResource_frees s w) h
    · cases hs
  | setSelectionOwner c window client time a =>
    simp only [DataExchange.step] at hs
    split at hs
    · cases hs
      refine serves (Serves.trans ?_ (.selectionChanged .setOwner a fun _ _ => .inl trivial)) h
      exact .setSelection (fun _ => trivial) (fun _ => trivial) _ _
    · cases hs
  | closeClient client =>
    simp only [DataExchange.step] at hs
    split at hs
    · cases hs
      exact frees (frees_closeClient client (guarded_all s) fun _ => .inl trivial) h
    · cases hs
  | convert c requestor target property time a =>
    cases hs
    exact serves (.convert s (fun _ => trivial) requestor target property time a) h
  | selectionNotify c requestor target property a =>
    cases hs
    exact serves (.selectionNotify s c requestor target property a) h
  | clientMessage window type first bit copy a =>
    cases hs
    exact h.clientMessage window type first bit copy a
  | propertyChanged i a =>
    cases hs
    unfold State.propertyChanged
    dsimp only
    split
    · exact h.aside ⟨rfl, rfl, rfl, rfl, [], .nil, (List.append_nil _).symm⟩
    · exact h
  | propertyWork a =>
    simp only [DataExchange.step] at hs
    split at hs
    · rename_i i ticket rest _
      cases hs
      have hrest : Exports { s with work := rest } := h.aside ⟨rfl, rfl, rfl, rfl, [], .nil, (List.append_nil _).symm⟩
      exact serves (.propertyWork _ i (fun _ _ => trivial) ticket a) hrest
    · cases hs
  | expired i =>
    simp only [DataExchange.step] at hs
    split at hs
    · rename_i hi
      cases hs
      have hset : Exports (s.setTransfer i { s.transfers i with timer := false }) :=
        h.aside ⟨rfl, rfl, rfl, rfl, [], .nil, (List.append_nil _).symm⟩
      refine serves (.fail ?_ fun _ _ => trivial) hset
      rw [transfers_setTransfer_self]
      exact hi.1
    · cases hs
  | exportExpired =>
    simp only [DataExchange.step] at hs
    split at hs
    · cases hs
      exact h.exportExpired
    · cases hs
  | dataPointer output window button down =>
    simp only [DataExchange.step] at hs
    split at hs
    · rename_i hout
      cases hs
      exact h.lorieDataPointer output window button down hout
    · cases hs
  | dataCommand e fd a =>
    cases hs
    exact h.lorieDataCommand e fd a
  | dataReset =>
    cases hs
    exact h.lorieDataReset

end Exports

/-! ## Whole runs -/

/-- **Exports are finished once.** Between operations there is a catcher exactly while there is a source.

- While an export runs, its source has not been told, and the button is held or was released once, for the output and the
  window of its beginning.
- When none runs, nothing of the last one is left. An export that ended released the button once; its source was told
  once, when it was a window of a client that existed, with the bit that says that it dropped and that the last report of
  the host is a success.
- No other `XdndFinished` and no other release went out. -/
theorem exports_finished_once {dragFirst : Bool} {s : State} (h : Reach step Free (.init dragFirst) s) :
    (s.exported.catcher.isSome = true ↔ s.exported.source.isSome = true) ∧
      (s.exported.source = none → Cleared s.exported ∧ ∀ r ∈ s.exports, r.Closed) ∧
      (∀ w, s.exported.source = some w →
        ∃ r rs, s.exports = r :: rs ∧ r.source = w ∧ r.Matches s.exported ∧ ∀ r' ∈ rs, r'.Closed) ∧
      s.log.filter Output.isFinished = s.exports.reverse.flatMap Record.finishes ∧
      s.log.filterMap Output.released = s.exports.reverse.flatMap Record.releases := by
  have hinit : Exports (.init dragFirst) := ⟨⟨rfl, rfl⟩, nofun, .inl ⟨⟨rfl, rfl, rfl, rfl, rfl⟩, nofun⟩⟩
  have hinv : Exports s := h.invariant (I := Exports) hinit fun _ _ _ hi _ hs => hi.step hs
  refine ⟨?_, ?_, ?_, hinv.ties.finishes, hinv.ties.releases⟩
  · rcases hinv.state with ⟨hclear, -⟩ | ⟨r, rs, -, hr, -, -⟩
    · rw [hclear.catcher, hclear.source]
    · rw [hr.catcher, hr.source]
      simp
  · intro hnone
    rcases hinv.state with hidle | ⟨r, rs, -, hr, -, -⟩
    · exact hidle
    · rw [hr.source] at hnone
      cases hnone
  · intro w hw
    rcases hinv.state with ⟨hclear, -⟩ | ⟨r, rs, hx, hr, -, hrs⟩
    · rw [hclear.source] at hw
      cases hw
    · refine ⟨r, rs, hx, ?_, hr, hrs⟩
      rw [hr.source] at hw
      exact Option.some.inj hw

/-- A client exports a drag; it drops, and then the host reports a success. -/
def exportedDrop : List Action :=
  [.createWindow 1 1, .dataCommand { operation := .enable, channel := 0 } false { newWindow := some 0 },
    .dataPointer 3 none 1 true, .setSelectionOwner .drag (some (.client 1 1)) 1 0 { newWindow := some 1 },
    .dataCommand { operation := .begin, channel := 1 } false { newWindow := some 2 },
    .clientMessage (some (.server 2)) .drop (some (.client 1 1)) false false {},
    .dataCommand { operation := .finish, channel := 1, x := 1 } false {}]

theorem exports_finished_once_drop :
    ∃ s, Reach step Free (.init false) s ∧ s.exports.map Record.finishes =
        [[.message (.client 1 1) (some (.client 1 1)) (.finished (some (.server 2)) true)]] ∧
      s.exports.map Record.releases = [[(3, none)]] ∧ Cleared s.exported ∧ ∀ r ∈ s.exports, r.Closed := by
  have hrun : (exec step (.init false) exportedDrop).map (fun s => decide (s.exported.source = none ∧
      s.exports.map Record.finishes =
        [[.message (.client 1 1) (some (.client 1 1)) (.finished (some (.server 2)) true)]] ∧
      s.exports.map Record.releases = [[(3, none)]])) = some true := by decide +kernel
  obtain ⟨s, hs, hdone⟩ := Option.map_eq_some_iff.1 hrun
  obtain ⟨hsource, hfinishes, hreleases⟩ := of_decide_eq_true hdone
  have hreach := Reach.of_exec exportedDrop hs
  exact ⟨s, hreach, hfinishes, hreleases, (exports_finished_once hreach).2.1 hsource⟩

end Lorie.DataExchange
