import Lorie.DataExchange.Exports

/-!
# An export and the selection of its source

While an export runs, its source owns `XdndSelection` and exists. Every change of the selection reaches
`selectionChanged`, which ends the export when the selection names another window. It does so while the selection still
names the window that goes, so the end of the source itself is missed; so are the changes that the callback skips because
the bridge is the new owner, and an offer whose owner is gone.

- `Held w s`: no export runs, or the one of `w`, and nothing that is freed on the way is `w`;
- `Disowns`: the steps that part an export from its selection;
- `source_owns_selection`: without these steps, the source owns the selection and exists.
-/

namespace Lorie.DataExchange

open Lorie.Lib State

/-- Everything but the source `w`, its selection and the export may be touched. -/
def Rights.keeping (w : Window) : Rights := ⟨fun v => v ≠ w, True, False, False⟩

/-- No export runs, or that of `w`, which owns the selection. -/
def Held (w : Window) (s : State) : Prop :=
  s.exported.source = none ∨
    (s.exported.source = some w ∧ (s.selections .drag).window = some w ∧ s.enabled = true ∧ Guarded (.keeping w) s)

section Source

variable {R : Rights} {s t : State}

theorem source_finishExport (s : State) : s.finishExport.exported.source = none := by
  unfold State.finishExport
  dsimp only
  split
  · rfl
  · rename_i hnone
    exact hnone

theorem source_record (s : State) (f : Record → Record) : (s.record f).exported = s.exported := by
  unfold State.record
  split <;> rfl

theorem source_releaseExportPointer (s : State) : s.releaseExportPointer.exported.source = s.exported.source := by
  unfold State.releaseExportPointer
  dsimp only
  split
  · rfl
  · show (State.record _ _).exported.source = _
    rw [source_record]

theorem source_leaveExport (s : State) : s.leaveExport.exported.source = s.exported.source := by
  unfold State.leaveExport
  rw [source_releaseExportPointer]
  rfl

/-- After `endExport` no export runs. -/
theorem source_endExport (s : State) : (s.endExport freeResource).exported.source = none := by
  unfold State.endExport
  dsimp only
  split
  · rw [source_leaveExport, (Aside.frees (freeResource_frees _ _) (source_finishExport s)).exported]
    exact source_finishExport s
  · rw [source_leaveExport]
    exact source_finishExport s

theorem source_frees (h : Frees R s t) (hs : s.exported.source = none) : t.exported.source = none := by
  rw [(Aside.frees h hs).exported]
  exact hs

theorem source_works (hR : ¬R.exports) (h : Works R s t) (hs : s.exported.source = none) : t.exported.source = none := by
  rw [(Aside.works hR h hs).exported]
  exact hs

/-- The drag selection changes to a window that is not the source: the export ends. -/
theorem source_forgetOwner (h : (s.selections .drag).window ≠ s.exported.source) :
    (s.forgetOwner freeResource .drag).exported.source = none := by
  unfold State.forgetOwner
  have hend : (if Channel.drag = .drag ∧ s.exported.source.isSome ∧ (s.selections .drag).window ≠ s.exported.source then
      s.endExport freeResource else s).exported.source = none := by
    split
    · exact source_endExport s
    · rename_i hn
      cases hs : s.exported.source with
      | none => rfl
      | some w =>
        rw [hs] at hn h
        exact absurd ⟨rfl, rfl, h⟩ hn
  generalize (if Channel.drag = .drag ∧ s.exported.source.isSome ∧ (s.selections .drag).window ≠ s.exported.source then
    s.endExport freeResource else s) = r at hend
  have hall : Frees .all r (r.failAll freeResource .drag) :=
    frees_failAll freeing_freeResource (guarded_all r) fun _ => .inl trivial
  have hnone := source_frees hall hend
  exact hnone

theorem source_selectionChanged (kind : Kind) (a : Answers) (he : s.enabled = true)
    (hb : (s.selections .drag).window ≠ s.bridge) (h : (s.selections .drag).window ≠ s.exported.source) :
    (s.selectionChanged freeResource .drag kind a).exported.source = none := by
  have hforget := source_forgetOwner h
  unfold State.selectionChanged
  have hskip : ¬(s.enabled = false ∨ (s.selections .drag).window = s.bridge) := by
    rw [he]
    simpa using hb
  rw [if_neg hskip]
  dsimp only
  generalize s.forgetOwner freeResource .drag = r at hforget
  simp only [↓reduceIte]
  split
  · exact hforget
  · split
    · have hrequest : Serves Exports.serving r
          (r.request freeResource .drag 0 (r.offers .drag).generation .targets true a) := .request _ _ _ _ _ _ a
      exact source_works id (hrequest.works (Exports.guarded r)) hforget
    · exact hforget

end Source

namespace Held

variable {w : Window} {s t u : State} {i : Fin maxPending}

/-- The export, its selection and the guard stay. -/
theorem keep (hs : Held w s) (hx : t.exported = s.exported)
    (hw : (s.selections .drag).window = some w → (t.selections .drag).window = some w) (he : t.enabled = s.enabled)
    (hg : Guarded (.keeping w) s → Guarded (.keeping w) t) : Held w t := by
  rcases hs with hnone | ⟨hsource, howner, hon, hguard⟩
  · left
    rw [hx]
    exact hnone
  · right
    rw [hx, he]
    exact ⟨hsource, hw howner, hon, hg hguard⟩

/-- A piece that leaves the export alone, by the frame of the transfers -/
theorem of_beside (hs : Held w s) (hb : t.beside = s.beside) (hf : t.fixed = s.fixed)
    (hg : Guarded (.keeping w) s → Guarded (.keeping w) t) : Held w t := by
  have he : t.fixed.enabled = s.fixed.enabled := by rw [hf]
  exact hs.keep (exported_of_beside hb) (fun h => by rw [selections_of_beside hb]; exact h) he hg

/-- What an operation frees is not the source. -/
theorem frees (h : Frees (.keeping w) s t) (hs : Held w s) : Held w t := by
  induction h with
  | refl s => exact hs
  | trans _ _ ih ih' => exact ih' (ih hs)
  | erase s hv => exact hs.keep rfl id rfl fun hg => hg.frees (.erase s hv)
  | @lose s c hlose =>
    refine hs.keep rfl (fun hw => ?_) rfl fun hg => hg.frees (.lose hlose)
    cases c with
    | clipboard =>
      rw [← hw]
      simp [State.setSelection]
    | drag =>
      -- the selection that is cleared names a window that may be freed
      rcases hlose rfl with ho | ho
      · exact ho.elim
      · exact absurd rfl (ho w hw)
  | @incoming s i hu hin =>
    refine hs.of_beside ((beside_releaseSlot _ i).trans (beside_refuse s _)) ?_ fun hg => hg.frees (.incoming hu hin)
    rw [fixed_releaseSlot, fixed_refuse]
  | clearFd hu => exact hs.of_beside (beside_clearFd _ _) (fixed_clearFd _ _) fun hg => hg.frees (.clearFd hu)
  | @outgoing s i hu hin hd =>
    exact hs.of_beside (beside_failOutgoing s i) (fixed_failOutgoing s i) fun hg => hg.frees (.outgoing hu hin hd)
  | renew hc => exact hs.keep rfl id rfl fun hg => hg.frees (.renew hc)
  | cancel s => exact hs.keep rfl id rfl fun hg => hg.frees (.cancel s)
  | endExport _ hfree _ =>
    left
    rw [source_leaveExport]
    exact source_frees hfree (source_finishExport _)

theorem works (h : Works (.keeping w) s t) (hs : Held w s) : Held w t := by
  induction h with
  | refl s => exact hs
  | trans _ _ ih ih' => exact ih' (ih hs)
  | here h =>
    have hexported := (Aside.here id h).exported
    refine hs.keep hexported (fun hw => ?_) h.enabled h.guard
    rcases h.owner with ho | ho
    · exact ho.elim
    · rw [ho]
      exact hw
  | frees h => exact frees h hs

/-- What serves transfers and does not touch the drag selection -/
theorem serves (hs : Held w s) (h : ∀ R : Rights, R.drag → Serves R s t) : Held w t := by
  rcases hs with hnone | hrun
  · exact .inl (source_works id ((h Exports.serving trivial).works (Exports.guarded s)) hnone)
  · exact works ((h (.keeping w) trivial).works hrun.2.2.2) (.inr hrun)

/-- The source is a window that exists. -/
theorem exists_source (hs : Held w s) (h : s.exported.source = some w) : w ∈ s.windows := by
  rcases hs with hnone | ⟨-, -, -, hg⟩
  · rw [hnone] at h
    cases h
  · by_contra hw
    exact hg.fresh w hw rfl

/-- A function of the export that keeps its source and its catcher -/
theorem exportStep (hs : Held w s) (h : ExportStep s t) (hx : t.exported.source = s.exported.source)
    (hc : t.exported.catcher = s.exported.catcher) : Held w t := by
  obtain ⟨x, e, l, p, -, rfl⟩ := h
  rcases hs with hnone | ⟨hsource, howner, hon, hg⟩
  · left
    rw [hx]
    exact hnone
  · right
    refine ⟨hx.trans hsource, howner, hon, hg.fresh, hg.requestor, fun v hv => hg.catcher v ?_, .inl trivial⟩
    rw [← hc]
    exact hv

theorem exportDrop (hs : Held w s) : Held w s.exportDrop := by
  have hdrop : ExportStep s ((s.withExport fun x => { x with dropped := true }).record fun r => { r with dropped := true }) :=
    ((ExportStep.refl s).withExport _).record _
  have hsource := source_record (s.withExport fun x => { x with dropped := true }) fun r => { r with dropped := true }
  unfold State.exportDrop
  dsimp only
  split
  · exact .inl (source_endExport _)
  · refine hs.exportStep hdrop ?_ ?_
    · rw [hsource]
      rfl
    · rw [hsource]
      rfl

theorem catcher_releaseExportPointer (s : State) :
    s.releaseExportPointer.exported.catcher = s.exported.catcher := by
  unfold State.releaseExportPointer
  dsimp only
  split
  · rfl
  · show (State.record _ _).exported.catcher = _
    rw [source_record]

theorem complete (hs : Held w s) (success : Bool) : Held w (s.complete success) := by
  have hreport : Held w (s.report success) := by
    have hstep : ExportStep s (State.releaseExportPointer
        ((s.withExport fun x => { x with completed := true, success := success }).record fun r =>
          { r with reports := r.reports ++ [success] })) :=
      (((ExportStep.refl s).withExport _).record _).releaseExportPointer
    have hsource := source_record (s.withExport fun x => { x with completed := true, success := success }) fun r =>
      { r with reports := r.reports ++ [success] }
    unfold State.report
    dsimp only
    split
    · exact .inl (source_endExport _)
    · refine hs.exportStep hstep ?_ ?_
      · rw [source_releaseExportPointer, hsource]
        rfl
      · rw [catcher_releaseExportPointer, hsource]
        rfl
  have hforget : ∀ r, Held w r → Held w r.forgetDrag := fun r hr => hr.keep rfl id rfl fun hg =>
    ⟨hg.fresh, hg.requestor, hg.catcher, .inl trivial⟩
  unfold State.complete
  apply hforget
  split
  · exact hreport
  · exact hs

theorem close (hs : Held w s) (fd : Option Nat) : Held w (s.close fd) := hs.serves fun _ _ => .close s fd

/-- A selection that gets the source as its owner again -/
theorem setSelection (hs : Held w s) {x : Selection} (hx : x.window = some w) : Held w (s.setSelection .drag x) := by
  refine hs.keep rfl (fun _ => ?_) rfl fun hg => ⟨hg.fresh, hg.requestor, hg.catcher, .inl trivial⟩
  simp [State.setSelection, hx]

/-- An offer of the host, but for one that takes the drag selection from the source -/
theorem takeOffer (hs : Held w s) (c : Channel) (e : Event) (fd : Option Nat) (a : Answers)
    (hok : c = .drag → fd ≠ none → a.names ≠ none → a.own = true → s.exported.source = none ∨ s.exported.source = s.bridge) :
    Held w (s.takeOffer c e fd a) := by
  cases c with
  | clipboard => exact hs.serves fun R _ => Serves.takeOffer (c := .clipboard) nofun nofun s e fd a
  | drag =>
    rcases hs with hnone | hrun
    · left
      have hoffer : Serves Exports.serving s (s.takeOffer .drag e fd a) :=
        .takeOffer (fun _ => trivial) (fun _ => trivial) s e fd a
      exact source_works id (hoffer.works (Exports.guarded s)) hnone
    · unfold State.takeOffer
      split
      · rename_i _ names hnames
        obtain ⟨r, hr⟩ : ∃ r, r = s.setOffer .drag { generation := e.offer, owner := s.bridge, time := a.now, targets := names,
                                                     isLocal := true } := ⟨_, rfl⟩
        have hheld : Held w r := by
          rw [hr]
          exact Held.keep (.inr hrun) rfl id rfl fun hg => ⟨hg.fresh, hg.requestor, hg.catcher, .inl trivial⟩
        have hbridge : r.bridge = s.bridge := by rw [hr]; rfl
        rw [← hr]
        unfold State.own
        split
        · rename_i hown
          rcases hok rfl nofun (by rw [hnames]; nofun) hown with hnone | heq
          · rw [hrun.1] at hnone
            cases hnone
          · -- the bridge is the source itself, and its callback is skipped
            rw [hrun.1] at heq
            have hset : Held w (r.setSelection .drag { window := r.bridge, client := some 0, time := a.now }) :=
              hheld.setSelection (hbridge.trans heq.symm)
            have hsame : ∀ t : State, (t.selections .drag).window = t.bridge →
                t.selectionChanged freeResource .drag .setOwner a = t := by
              intro t ht
              unfold State.selectionChanged
              exact if_pos (.inr ht)
            rw [hsame]
            · exact hset
            · simp [State.setSelection]
        · exact hheld
      · exact .inr hrun

theorem setSelectionOwner (hs : Held w s) (c : Channel) (x : Selection) (a : Answers)
    (hok : c = .drag → s.exported.source ≠ none → x.window = s.bridge → x.window = s.exported.source) :
    Held w ((s.setSelection c x).selectionChanged freeResource c .setOwner a) := by
  cases c with
  | clipboard =>
    have hother : ∀ P : Prop, Channel.clipboard = .drag → P := fun _ hc => by cases hc
    exact hs.serves fun R hR => (Serves.setSelection (hother _) (hother _) s x).trans
      (.selectionChanged .setOwner a fun _ _ => .inl hR)
  | drag =>
    rcases hs with hnone | hrun
    · left
      have hchange : Serves Exports.serving s ((s.setSelection .drag x).selectionChanged freeResource .drag .setOwner a) :=
        (Serves.setSelection (fun _ => trivial) (fun _ => trivial) s x).trans
          (.selectionChanged .setOwner a fun _ _ => .inl trivial)
      exact source_works id (hchange.works (Exports.guarded s)) hnone
    · by_cases hx : x.window = some w
      · have hset : Held w (s.setSelection .drag x) := Held.setSelection (.inr hrun) hx
        exact hset.serves fun R hR => .selectionChanged .setOwner a fun _ _ => .inl hR
      · left
        have hself : ((s.setSelection .drag x).selections .drag).window = x.window := by simp [State.setSelection]
        apply source_selectionChanged .setOwner a
        · exact hrun.2.2.1
        · rw [hself]
          intro hb
          have hne : s.exported.source ≠ none := by
            rw [hrun.1]
            exact Option.some_ne_none w
          have := hok rfl hne hb
          rw [hrun.1] at this
          exact hx this
        · rw [hself]
          intro heq
          exact hx (heq.trans hrun.1)

theorem closeClient (hs : Held w s) (client : Nat)
    (hok : s.exported.source = none ∨ (s.selections .drag).client ≠ some client) :
    Held w (s.channels.foldl
      (fun s c => if (s.selections c).client = some client then State.loseOwner freeResource .clientClose s c else s) s) := by
  rcases hs with hnone | hrun
  · exact .inl (source_frees (frees_closeClient client (guarded_all s) fun _ => .inl trivial) hnone)
  · have hfree := frees_closeClient client hrun.2.2.2 fun hcl => by
      rcases hok with hnone | hne
      · rw [hrun.1] at hnone
        cases hnone
      · exact absurd hcl hne
    exact frees hfree (.inr hrun)

theorem destroyWindow (hs : Held w s) {v : Window} (hv : s.exported.source ≠ some v) : Held w (freeResource s v) := by
  rcases hs with hnone | hrun
  · exact .inl (source_frees (freeResource_frees s v) hnone)
  · have hne : v ≠ w := by
      rintro rfl
      exact hv hrun.1
    exact frees (freeing_freeResource (.keeping w) s v hne hrun.2.2.2) (.inr hrun)

theorem enable (hs : Held w s) (e : Event) (a : Answers) : Held w (s.enable e a) := by
  have hon : Held w { s with enabled := true, clipboardActive := e.x ≠ 0 } := by
    rcases hs with hnone | ⟨hsource, howner, -, hg⟩
    · exact .inl hnone
    · exact .inr ⟨hsource, howner, rfl, hg.fresh, hg.requestor, hg.catcher, .inl trivial⟩
  unfold State.enable
  dsimp only
  split
  · exact hon
  · have hwin := hon.serves fun R _ => Serves.here (.newWindow _ a)
    exact hwin.keep rfl id rfl fun hg => ⟨hg.fresh, hg.requestor, hg.catcher, .inl trivial⟩

end Held

/-! ## The steps that part them -/

/-- An owner that can be the source: it owns the selection, exists, and no transfer frees it. -/
def State.CanExport (s : State) (w : Window) : Prop :=
  (s.selections .drag).window = some w ∧ w ∈ s.windows ∧
    ∀ i, (s.transfers i).used = true → (s.transfers i).incoming = true → (s.transfers i).requestor ≠ some w

/-- `LORIE_DATA_BEGIN` begins an export. -/
def State.Begins (s : State) (a : Answers) : Prop :=
  s.exported.source = none ∧ (s.offers .drag).isLocal = false ∧ s.pointerDown = true ∧
    ∃ n ∈ a.newWindow, .server n ∉ s.windows

/-- The commands that part an export from its selection: an offer of the host while a client exports, and the beginning
of an export whose offer is not the owner's. -/
def State.Detaches (s : State) (e : Event) (fd : Bool) (a : Answers) : Prop :=
  e.channel ≤ 1 ∧ s.enabled = true ∧ s.bridge ≠ none ∧
    ((e.operation = .offer ∧ e.selected = .drag ∧ fd = true ∧ a.names ≠ none ∧ a.own = true ∧
        s.exported.source ≠ none ∧ s.exported.source ≠ s.bridge) ∨
      (e.operation = .begin ∧ s.Begins a ∧ ∃ w ∈ (s.offers .drag).owner, ¬s.CanExport w))

/-- The steps that part an export from its selection: its source is destroyed, the client that set the selection leaves,
the bridge becomes the owner, and `Detaches`. -/
def State.Disowns (s : State) : Action → Prop
  | .destroyWindow w => s.exported.source = some w
  | .closeClient client => s.exported.source ≠ none ∧ (s.selections .drag).client = some client
  | .setSelectionOwner .drag window _ _ _ =>
    s.exported.source ≠ none ∧ window = s.bridge ∧ window ≠ s.exported.source
  | .dataCommand e fd a => s.Detaches e fd a
  | _ => False

/-- The export of some window, or none -/
def Owned (s : State) : Prop := ∃ w, Held w s

namespace Owned

variable {s t : State}

theorem of_none (h : s.exported.source = none) : Owned s := ⟨.server 0, .inl h⟩

/-- A new export -/
theorem beginExport (hs : Owned s) (a : Answers) (he : s.enabled = true)
    (hok : s.Begins a → ∀ w, (s.offers .drag).owner = some w → s.CanExport w) : Owned (s.beginExport a) := by
  have hwin := Local.newWindow (R := Exports.serving) s a
  have hfresh := @Serves.fresh_newWindow s
  have htr := Serves.transfers_newWindow s a
  unfold State.beginExport
  dsimp only
  split
  · rename_i w hsource howner
    split
    · exact hs
    · rename_i hgo
      rw [not_or] at hgo
      cases hw : s.newWindow a with
      | mk c t =>
        rw [hw] at hwin htr
        dsimp only at hwin htr
        cases c with
        | none =>
          apply of_none
          show t.exported.source = none
          rw [(Aside.here id hwin).exported]
          exact hsource
        | some c =>
          have hbegins : s.Begins a := by
            refine ⟨hsource, by simpa using hgo.1, by simpa using hgo.2, ?_⟩
            unfold State.newWindow at hw
            split at hw
            · rename_i n hn
              split at hw
              · cases hw
              · rename_i hnew
                exact ⟨n, hn, hnew⟩
            · cases hw
          obtain ⟨hsel, hmem, hreq⟩ := hok hbegins w howner
          have hselt : t.selections = s.selections := by
            have hsame : (s.newWindow a).2.selections = s.selections := by
              unfold State.newWindow
              split
              · split <;> rfl
              · rfl
            rw [hw] at hsame
            exact hsame
          refine ⟨w, .inr ⟨rfl, ?_, ?_, ?_⟩⟩
          · rw [← hsel, ← hselt]
          · rw [← he, ← hwin.enabled]
          · constructor
            · rintro v hv rfl
              exact hv (hwin.windows v hmem)
            · intro i v hu hin hv hvw
              have htri : t.transfers i = s.transfers i := by rw [htr]
              have hu' : (t.transfers i).used = true := hu
              have hin' : (t.transfers i).incoming = true := hin
              have hv' : (t.transfers i).requestor = some v := hv
              rw [htri] at hu' hin' hv'
              rw [hvw] at hv'
              exact hreq i hu' hin' hv'
            · intro v hv hvw
              cases hv
              rw [hvw] at hw
              exact hfresh (by rw [hw]) hmem
            · exact .inl trivial
  · exact hs

theorem operate (hs : Owned s) (e : Event) (fd : Option Nat) (a : Answers) (he : s.enabled = true) (hb : s.bridge ≠ none)
    (hc : e.channel ≤ 1) (hok : ¬s.Detaches e fd.isSome a) : Owned (s.operate e.selected e fd a) := by
  obtain ⟨w, hw⟩ := hs
  by_cases hf : e.operation = .finish
  · unfold State.operate
    rw [hf]
    exact ⟨w, (hw.complete _).close fd⟩
  · by_cases hcan : e.operation = .cancel
    · unfold State.operate
      rw [hcan]
      exact ⟨w, (hw.complete false).close fd⟩
    · by_cases hbegin : e.operation = .begin
      · unfold State.operate
        rw [hbegin]
        dsimp only
        obtain ⟨v, hv⟩ := beginExport ⟨w, hw⟩ a he fun hgo v hv => by
          by_contra hcannot
          exact hok ⟨hc, he, hb, .inr ⟨hbegin, hgo, v, hv, hcannot⟩⟩
        exact ⟨v, hv.close fd⟩
      · by_cases hoffer : e.operation = .offer
        · unfold State.operate
          rw [hoffer]
          refine ⟨w, Held.close (hw.takeOffer _ e fd a fun hdrag hfd hnames hown => ?_) fd⟩
          by_contra hpart
          rw [not_or] at hpart
          refine hok ⟨hc, he, hb, .inl ⟨hoffer, hdrag, ?_, hnames, hown, hpart⟩⟩
          cases fd with
          | none => exact absurd rfl hfd
          | some d => rfl
        · exact ⟨w, hw.serves fun R hR => .operate hR (fun _ h => absurd h hoffer) hf hcan hbegin s fd a⟩

theorem command (hs : Owned s) (e : Event) (fd : Option Nat) (a : Answers) (hok : ¬s.Detaches e fd.isSome a) :
    Owned (s.command e fd a) := by
  obtain ⟨w, hw⟩ := hs
  unfold State.command
  split
  · exact ⟨w, hw.close fd⟩
  · rename_i hc
    split
    · exact ⟨w, (hw.enable e a).close fd⟩
    · split
      · exact ⟨w, hw.close fd⟩
      · rename_i hlive
        rw [not_or] at hlive
        exact operate ⟨w, hw⟩ e fd a (by simpa using hlive.1) hlive.2 (by omega) hok

theorem lorieDataCommand (hs : Owned s) (e : Event) (fd : Bool) (a : Answers) (hok : ¬s.Detaches e fd a) :
    Owned (s.lorieDataCommand e fd a) := by
  unfold State.lorieDataCommand
  obtain ⟨w, hw⟩ := hs
  cases fd with
  | false =>
    have hasked : Owned (s.ask e) := ⟨w, hw.keep rfl id rfl fun hg => ⟨hg.fresh, hg.requestor, hg.catcher, .inl trivial⟩⟩
    exact hasked.command e none a hok
  | true =>
    have hnew : Owned (s.ask e).newFd.2 :=
      ⟨w, hw.keep rfl id rfl fun hg => ⟨hg.fresh, hg.requestor, hg.catcher, .inl trivial⟩⟩
    exact hnew.command e s.newFd.1 a hok

theorem releaseAll (hs : s.exported.source = none) : s.releaseAll.exported.source = none := by
  have hloop : ∀ (l : List (Fin maxPending)) (t : State), t.exported.source = none →
      (l.foldl (fun s i => s.release freeResource i) t).exported.source = none := by
    intro l
    induction l with
    | nil => exact fun t ht => ht
    | cons i l ih =>
      intro t ht
      have hrelease : Serves Exports.serving t (t.release freeResource i) := .release fun _ _ => trivial
      exact ih _ (source_works id (hrelease.works (Exports.guarded t)) ht)
  exact hloop _ _ hs

theorem lorieDataReset (s : State) : s.lorieDataReset.exported.source = none := by
  have hall := releaseAll (source_endExport s)
  have hfree := source_frees (frees_freeBridge _) hall
  exact hfree

/-- **One operation** that is not among those keeps the source and its selection together. -/
theorem step {a : Action} (hs : Owned s) (hok : ¬s.Disowns a) (h : step s a = some t) : Owned t := by
  obtain ⟨w, hw⟩ := hs
  cases a with
  | createWindow c n =>
    simp only [DataExchange.step] at h
    split at h
    · cases h
    · cases h
      refine ⟨w, hw.keep rfl id rfl fun hg => ⟨fun v hv => hg.fresh v fun hm => hv ?_, hg.requestor, hg.catcher, .inl trivial⟩⟩
      exact List.mem_cons_of_mem _ hm
  | destroyWindow v =>
    simp only [DataExchange.step] at h
    split at h
    · cases h
      exact ⟨w, hw.destroyWindow hok⟩
    · cases h
  | setSelectionOwner c window client time a =>
    simp only [DataExchange.step] at h
    split at h
    · cases h
      refine ⟨w, hw.setSelectionOwner c _ a ?_⟩
      rintro rfl hne hb
      by_contra hpart
      exact hok ⟨hne, hb, hpart⟩
    · cases h
  | closeClient client =>
    simp only [DataExchange.step] at h
    split at h
    · cases h
      refine ⟨w, hw.closeClient client ?_⟩
      by_contra hpart
      rw [not_or, Decidable.not_not] at hpart
      exact hok hpart
    · cases h
  | convert c requestor target property time a =>
    cases h
    exact ⟨w, hw.serves fun R hR => .convert s (fun _ => hR) requestor target property time a⟩
  | selectionNotify c requestor target property a =>
    cases h
    exact ⟨w, hw.serves fun R _ => .selectionNotify s c requestor target property a⟩
  | clientMessage window type first bit copy a =>
    cases h
    unfold State.clientMessage
    dsimp only
    repeat' split
    · exact ⟨w, hw⟩
    · exact ⟨w, hw.serves fun R hR => .dragStep hR ((DragStep.refl s).message _ _ fun _ => rfl)⟩
    · exact ⟨w, hw⟩
    · exact ⟨w, hw.exportDrop⟩
    · exact ⟨w, hw.serves fun R hR => .dragStep hR ((DragStep.refl s).dragStatus _ a)⟩
    · exact ⟨w, hw.serves fun R hR => .dragStep hR ((DragStep.refl s).dragFinished bit)⟩
    · exact ⟨w, hw⟩
  | propertyChanged i a =>
    cases h
    unfold State.propertyChanged
    dsimp only
    split
    · have hset : Held w (s.setTransfer i { s.transfers i with queued := true }) :=
        hw.serves fun R _ => .move rfl rfl rfl rfl rfl
      exact ⟨w, hset.serves fun R _ => .quiet rfl rfl (List.append_nil _).symm .nil⟩
    · exact ⟨w, hw⟩
  | propertyWork a =>
    simp only [DataExchange.step] at h
    split at h
    · rename_i i ticket rest _
      cases h
      have hrest : Held w { s with work := rest } :=
        hw.serves fun R _ => .quiet rfl rfl (List.append_nil _).symm .nil
      exact ⟨w, hrest.serves fun R hR => .propertyWork _ i (fun _ _ => hR) ticket a⟩
    · cases h
  | expired i =>
    simp only [DataExchange.step] at h
    split at h
    · rename_i hi
      cases h
      have hset : Held w (s.setTransfer i { s.transfers i with timer := false }) :=
        hw.serves fun R _ => .move rfl rfl rfl rfl rfl
      refine ⟨w, hset.serves fun R hR => .fail ?_ fun _ _ => hR⟩
      rw [transfers_setTransfer_self]
      exact hi.1
    · cases h
  | exportExpired =>
    simp only [DataExchange.step] at h
    split at h
    · cases h
      exact of_none (source_endExport _)
    · cases h
  | dataPointer output window button down =>
    simp only [DataExchange.step] at h
    split at h
    · cases h
      unfold State.lorieDataPointer
      split
      · exact ⟨w, hw⟩
      · exact ⟨w, hw.keep rfl id rfl fun hg => ⟨hg.fresh, hg.requestor, hg.catcher, .inl trivial⟩⟩
    · cases h
  | dataCommand e fd a =>
    cases h
    exact lorieDataCommand ⟨w, hw⟩ e fd a hok
  | dataReset =>
    cases h
    exact of_none (lorieDataReset s)

end Owned

/-! ## Whole runs -/

/-- **The source of an export owns `XdndSelection`** and exists, in a run without the steps that part them; and when there
is no source, the catcher is gone and the button was released. -/
theorem source_owns_selection {dragFirst : Bool} {s : State}
    (h : Reach step (fun s a => ¬s.Disowns a) (.init dragFirst) s) :
    (∀ w, s.exported.source = some w → (s.selections .drag).window = some w ∧ w ∈ s.windows) ∧
      (s.exported.source = none → s.exported.catcher = none ∧ s.exported.output = 0) := by
  have hinv : Owned s ∧ Exports s := by
    refine h.invariant (I := fun s => Owned s ∧ Exports s) ⟨.of_none rfl, ?_⟩ ?_
    · exact ⟨⟨rfl, rfl⟩, nofun, .inl ⟨⟨rfl, rfl, rfl, rfl, rfl⟩, nofun⟩⟩
    · exact fun _ _ _ hi hok hs => ⟨hi.1.step hok hs, hi.2.step hs⟩
  obtain ⟨⟨v, hv⟩, hexports⟩ := hinv
  constructor
  · intro w hw
    have hvw : w = v := by
      rcases hv with hnone | ⟨hsource, -⟩
      · rw [hnone] at hw
        cases hw
      · rw [hsource] at hw
        exact (Option.some.inj hw).symm
    subst hvw
    refine ⟨?_, hv.exists_source hw⟩
    rcases hv with hnone | ⟨-, howner, -⟩
    · rw [hnone] at hw
      cases hw
    · exact howner
  · intro hnone
    rcases hexports.state with ⟨hclear, -⟩ | ⟨r, rs, -, hr, -⟩
    · exact ⟨hclear.catcher, hclear.output⟩
    · rw [hr.source] at hnone
      cases hnone

instance (s : State) (w : Window) : Decidable (s.CanExport w) :=
  inferInstanceAs (Decidable (_ ∧ _ ∧ ∀ i, (s.transfers i).used = true → (s.transfers i).incoming = true →
    (s.transfers i).requestor ≠ some w))

instance (s : State) (a : Answers) : Decidable (s.Begins a) := inferInstanceAs (Decidable (_ ∧ _ ∧ _ ∧ _))

instance (s : State) (e : Event) (fd : Bool) (a : Answers) : Decidable (s.Detaches e fd a) :=
  inferInstanceAs (Decidable (_ ∧ _ ∧ _ ∧ (_ ∨ _)))

instance (s : State) (a : Action) : Decidable (s.Disowns a) :=
  match a with
  | .destroyWindow w => inferInstanceAs (Decidable (s.exported.source = some w))
  | .closeClient client => inferInstanceAs (Decidable (s.exported.source ≠ none ∧ (s.selections .drag).client = some client))
  | .setSelectionOwner .drag window _ _ _ =>
    inferInstanceAs (Decidable (s.exported.source ≠ none ∧ window = s.bridge ∧ window ≠ s.exported.source))
  | .dataCommand e fd a => inferInstanceAs (Decidable (s.Detaches e fd a))
  | .setSelectionOwner .clipboard .. | .createWindow .. | .convert .. | .selectionNotify .. | .clientMessage ..
  | .propertyChanged .. | .propertyWork .. | .expired .. | .exportExpired | .dataPointer .. | .dataReset =>
    inferInstanceAs (Decidable False)

/-- A client owns the drag selection, and the host begins an export. -/
def exporting : List Action :=
  [.createWindow 1 1, .dataCommand { operation := .enable, channel := 0 } false { newWindow := some 0 },
    .dataPointer 3 none 1 true, .setSelectionOwner .drag (some (.client 1 1)) 1 0 { newWindow := some 1 },
    .dataCommand { operation := .begin, channel := 1 } false { newWindow := some 2 }]

theorem source_owns_selection_exporting :
    ∃ s, Reach step Free (.init false) s ∧ s.exported.source = some (.client 1 1) ∧
      (s.selections .drag).window = some (.client 1 1) ∧ .client 1 1 ∈ s.windows := by
  have hrun : (exec (fun s a => if ¬s.Disowns a then step s a else none) (.init false) exporting).map
      (fun s => s.exported.source) = some (some (.client 1 1)) := by decide +kernel
  obtain ⟨s, hs, hsource⟩ := Option.map_eq_some_iff.1 hrun
  have hreach := Reach.of_exec_guarded exporting hs
  exact ⟨s, hreach.mono fun _ _ _ => trivial, hsource, (source_owns_selection hreach).1 _ hsource⟩

/-- The source is destroyed. -/
def sourceDestroyed : List Action := exporting ++ [.destroyWindow (.client 1 1)]

/-- The export goes on without it. -/
theorem source_outlived :
    ∃ s, Reach step Free (.init false) s ∧
      ¬∀ w, s.exported.source = some w → (s.selections .drag).window = some w ∧ w ∈ s.windows := by
  have hrun : (exec step (.init false) sourceDestroyed).map (fun s =>
      decide (s.exported.source = some (.client 1 1) ∧ (s.selections .drag).window = none)) = some true := by
    decide +kernel
  obtain ⟨s, hs, hout⟩ := Option.map_eq_some_iff.1 hrun
  obtain ⟨hsource, hnone⟩ := of_decide_eq_true hout
  refine ⟨s, .of_exec sourceDestroyed hs, fun h => ?_⟩
  have howner := (h _ hsource).1
  rw [hnone] at howner
  cases howner

end Lorie.DataExchange
