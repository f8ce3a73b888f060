import Lorie.Windows.Catalog
import Mathlib.Data.List.Pairwise

/-!
# The refresh of the catalog

`lorieWindowModelRefresh` takes the records of destroyed windows away, walks over the windows, and takes the records away that
it did not see. The walk is followed window by window.

- `Walked`: what holds during the walk; `Walked.start`, `Walked.publishWindow`, `Walked.finish`: before, during and after it;
- `Current`: what the host knows after a refresh;
- `catalog_current`: the catalog after every refresh of every run.
-/

namespace Lorie.Windows

open Lorie.Lib WindowRecord State

/-! ## The walk -/

/-- The model during the walk: all records are of existing windows, and those of the windows `done` are published. -/
structure Walked (s : State) (done : List Window) : Prop where
  windows : (s.windows.map Window.id).Nodup
  mapped : ∀ w ∈ s.windows, w.realized = true → w.wasRealized = true
  live : ∀ r ∈ s.records, r.destroyed = false
  single : (s.records.map WindowRecord.id).Nodup
  window : ∀ r ∈ s.records, ∃ w ∈ s.windows, w.id = r.id ∧ w.number = r.number ∧ w.wasRealized = true
  keys : ∀ x e, s.catalog x = some e → ∃ r ∈ s.records, r.published = true ∧ r.id = x
  entry : ∀ r ∈ s.records, r.published = true → ∃ info, s.catalog r.id = some (info, r.number) ∧
    (r.changed = false → ∀ w ∈ s.windows, w.id = r.id → info = s.shown r w)
  orderly : Orderly Prod.snd s.events
  seen : ∀ r ∈ s.records, r.seen = true → r.published = true ∧ r.changed = false ∧
    ∃ w ∈ done, w.id = r.id ∧ s.isApplication w = true ∧ s.upToDate r w = true
  all : s.failed = false → ∀ w ∈ done, s.isApplication w = true → w.realized = true →
    ∃ r ∈ s.records, r.id = w.id ∧ r.seen = true

/-- What the walk leaves alone. -/
structure SameWindows (s t : State) : Prop where
  atom : t.atom = s.atom
  root : t.root = s.root
  windows : t.windows = s.windows
  managerWindow : t.managerWindow = s.managerWindow
  observing : t.observing = s.observing
  dirty : t.dirty = s.dirty

namespace SameWindows

variable {s t u : State}

theorem refl (s : State) : SameWindows s s := ⟨rfl, rfl, rfl, rfl, rfl, rfl⟩

theorem trans (h : SameWindows s t) (h' : SameWindows t u) : SameWindows s u :=
  ⟨h'.atom.trans h.atom, h'.root.trans h.root, h'.windows.trans h.windows, h'.managerWindow.trans h.managerWindow,
    h'.observing.trans h.observing, h'.dirty.trans h.dirty⟩

theorem isApplication (h : SameWindows s t) (w : Window) : t.isApplication w = s.isApplication w := by
  rw [State.isApplication, State.isApplication, h.atom, h.root]

theorem upToDate (h : SameWindows s t) (r : WindowRecord) (w : Window) : t.upToDate r w = s.upToDate r w := by
  rw [State.upToDate, State.upToDate, h.atom]

theorem shown (h : SameWindows s t) (r : WindowRecord) (w : Window) : t.shown r w = s.shown r w := by
  simp only [State.shown, windowInfo, h.atom, h.managerWindow]

theorem recordFor (s : State) (w : Window) (calloc : Bool) : SameWindows s (s.recordFor w calloc).2 := by
  have hspec := recordFor_spec s w calloc
  generalize s.recordFor w calloc = x at hspec
  cases hspec with
  | other _ | hidden _ _ | found _ _ _ => exact refl s
  | failed _ _ _ _ | new _ _ _ => exact ⟨rfl, rfl, rfl, rfl, rfl, rfl⟩

theorem publishWindow (s : State) (w : Window) (calloc : Bool) : SameWindows s (s.publishWindow w calloc) := by
  have hrecord := recordFor s w calloc
  unfold State.publishWindow
  rcases hr : s.recordFor w calloc with ⟨_ | r, u⟩ <;> rw [hr] at hrecord
  · exact hrecord
  · dsimp only
    split
    · exact hrecord.trans ⟨rfl, rfl, rfl, rfl, rfl, rfl⟩
    · exact hrecord.trans ⟨rfl, rfl, rfl, rfl, rfl, rfl⟩

end SameWindows

/-! ## Records by their numbers -/

theorem map_id_updateLive {id : Nat} {f : WindowRecord → WindowRecord} (hf : ∀ r, (f r).id = r.id) (rs : List WindowRecord) :
    (updateLive id f rs).map WindowRecord.id = rs.map WindowRecord.id := by
  induction rs with
  | nil => rfl
  | cons r rs ih =>
    simp only [updateLive]
    split
    · rw [List.map_cons, List.map_cons, hf]
    · rw [List.map_cons, List.map_cons, ih]

/-- The record of the window changes, and the others stay. -/
theorem mem_updateLive {id : Nat} {f : WindowRecord → WindowRecord} {rs : List WindowRecord} {r : WindowRecord}
    (hlive : ∀ r ∈ rs, r.destroyed = false) (hsingle : (rs.map WindowRecord.id).Nodup) (hfind : rs.find? (live id) = some r)
    (r' : WindowRecord) : r' ∈ updateLive id f rs ↔ r' = f r ∨ (r' ∈ rs ∧ r'.id ≠ id) := by
  induction rs with
  | nil => cases hfind
  | cons r₀ rs ih =>
    rw [List.map_cons, List.nodup_cons] at hsingle
    cases hr₀ : live id r₀ with
    | true =>
      rw [List.find?_cons_of_pos hr₀] at hfind
      cases hfind
      have hid : r.id = id := (live_iff.1 hr₀).2
      have hothers : ∀ r' ∈ rs, r'.id ≠ id := fun r' hr' heq =>
        hsingle.1 (List.mem_map.2 ⟨r', hr', heq.trans hid.symm⟩)
      simp only [updateLive, hr₀, if_true, List.mem_cons]
      constructor
      · rintro (rfl | hr')
        · exact .inl rfl
        · exact .inr ⟨.inr hr', hothers r' hr'⟩
      · rintro (rfl | ⟨rfl | hr', hne⟩)
        · exact .inl rfl
        · exact absurd hid hne
        · exact .inr hr'
    | false =>
      rw [List.find?_cons_of_neg (by rw [hr₀]; exact Bool.false_ne_true)] at hfind
      have hid : r₀.id ≠ id := by
        intro heq
        rw [live_iff.2 ⟨hlive r₀ List.mem_cons_self, heq⟩] at hr₀
        cases hr₀
      have hrest := ih (fun r hr => hlive r (List.mem_cons_of_mem _ hr)) hsingle.2 hfind
      simp only [updateLive, hr₀, Bool.false_eq_true, if_false, List.mem_cons, hrest]
      constructor
      · rintro (rfl | rfl | ⟨hr', hne⟩)
        · exact .inr ⟨.inl rfl, hid⟩
        · exact .inl rfl
        · exact .inr ⟨.inr hr', hne⟩
      · rintro (rfl | ⟨rfl | hr', hne⟩)
        · exact .inr (.inl rfl)
        · exact .inl rfl
        · exact .inr (.inr ⟨hr', hne⟩)

/-! ## One window -/

/-- An application is not transient. -/
theorem shown_of_application {s : State} {w : Window} (h : s.isApplication w = true) (r : WindowRecord) :
    s.windowInfo r w = s.shown r w := by
  have hparent : reference s.atom w .wmTransientFor = 0 := by
    simp only [State.isApplication, Windows.isApplication] at h
    split at h
    · cases h
    · rename_i hnot
      simp only [not_or, not_not] at hnot
      exact hnot.2.2.2
  simp only [State.shown, windowInfo, hparent]

theorem upToDate_observed (s : State) (r : WindowRecord) (w : Window) : s.upToDate (s.observed r w) w = true := by
  simp only [upToDate, observed, decide_true, Bool.and_self]

namespace Walked

variable {s t : State} {done : List Window} {w : Window}

theorem window_eq (h : Walked s done) {w w' : Window} (hw : w ∈ s.windows) (hw' : w' ∈ s.windows) (hid : w.id = w'.id) :
    w = w' := List.inj_on_of_nodup_map h.windows hw hw' hid

theorem record_eq (h : Walked s done) {r r' : WindowRecord} (hr : r ∈ s.records) (hr' : r' ∈ s.records) (hid : r.id = r'.id) :
    r = r' := List.inj_on_of_nodup_map h.single hr hr' hid

/-- `recordFor` finds the record of a window, or makes one. -/
theorem recordFor (h : Walked s done) (hw : w ∈ s.windows) (calloc : Bool) : Walked (s.recordFor w calloc).2 done := by
  have hspec := recordFor_spec s w calloc
  generalize s.recordFor w calloc = x at hspec
  cases hspec with
  | other _ | hidden _ _ | found _ _ _ => exact h
  | failed _ _ _ _ =>
    exact ⟨h.windows, h.mapped, h.live, h.single, h.window, h.keys, h.entry, h.orderly, h.seen, fun hf => by cases hf⟩
  | new happ hfind hreal =>
    have hnone : ∀ r ∈ s.records, r.id ≠ w.id := by
      intro r hr hid
      have hdestroyed := not_live_of_find hfind r hr hid
      rw [h.live r hr] at hdestroyed
      cases hdestroyed
    refine ⟨h.windows, h.mapped, fun r hr => ?_, ?_, fun r hr => ?_, fun x e he => ?_, fun r hr hp => ?_, h.orderly,
      fun r hr hs => ?_, fun hf w' hw' ha hreal' => ?_⟩
    · rcases List.mem_cons.1 hr with rfl | hr
      · rfl
      · exact h.live r hr
    · refine List.nodup_cons.2 ⟨fun hmem => ?_, h.single⟩
      obtain ⟨r, hr, hid⟩ := List.mem_map.1 hmem
      exact hnone r hr hid
    · rcases List.mem_cons.1 hr with rfl | hr
      · exact ⟨w, hw, rfl, rfl, h.mapped w hw hreal⟩
      · exact h.window r hr
    · obtain ⟨r, hr, hp, hid⟩ := h.keys x e he
      exact ⟨r, List.mem_cons_of_mem _ hr, hp, hid⟩
    · rcases List.mem_cons.1 hr with rfl | hr
      · cases hp
      · exact h.entry r hr hp
    · rcases List.mem_cons.1 hr with rfl | hr
      · cases hs
      · exact h.seen r hr hs
    · obtain ⟨r, hr, hid, hs⟩ := h.all hf w' hw' ha hreal'
      exact ⟨r, List.mem_cons_of_mem _ hr, hid, hs⟩

/-- The record of a window is seen, and maybe sent: it becomes `f r`, and the events in `later` are sent. -/
theorem see (h : Walked s done) (hw : w ∈ s.windows) (happ : s.isApplication w = true) {r : WindowRecord}
    (hfind : s.records.find? (State.live w.id) = some r) {f : WindowRecord → WindowRecord}
    (hf : ∀ r, (f r).id = r.id ∧ (f r).number = r.number ∧ (f r).destroyed = r.destroyed)
    (hseen : (f r).published = true ∧ (f r).changed = false ∧ s.upToDate (f r) w = true ∧ (f r).seen = true)
    (hsame : SameWindows s t) (hrecords : t.records = updateLive w.id f s.records) (hfailed : t.failed = s.failed)
    (hsent : (t.events = s.events ∧ r.published = true ∧ r.changed = false ∧ s.shown (f r) w = s.shown r w) ∨
      t.events = s.events ++ [(w.id, some (s.shown (f r) w, w.number))]) : Walked t (done ++ [w]) := by
  have hr : r ∈ s.records := List.mem_of_find?_eq_some hfind
  have hid : r.id = w.id := (live_iff.1 (List.find?_some hfind)).2
  have hnumber : r.number = w.number := by
    obtain ⟨w', hw', hid', hnumber', -⟩ := h.window r hr
    rw [← hnumber', h.window_eq hw' hw (hid'.trans hid)]
  have hmem := mem_updateLive (f := f) h.live h.single hfind
  have hwindow : ∀ w' ∈ s.windows, w'.id = w.id → w' = w := fun w' hw' heq => h.window_eq hw' hw heq
  have hcatalog : ∀ x, x ≠ w.id → t.catalog x = s.catalog x := by
    intro x hx
    rcases hsent with ⟨heq, -⟩ | heq
    · rw [catalog, catalog, heq]
    · rw [catalog, catalog, heq, replay_snoc, if_neg hx]
  have hentry : t.catalog w.id = some (s.shown (f r) w, w.number) := by
    rcases hsent with ⟨heq, hp, hc, hshown⟩ | heq
    · obtain ⟨info, hinfo, hcurrent⟩ := h.entry r hr hp
      rw [catalog, heq, hshown, ← hcurrent hc w hw hid.symm, ← hnumber, ← hid]
      exact hinfo
    · rw [catalog, heq, replay_snoc, if_pos rfl]
  refine ⟨?_, ?_, ?_, ?_, ?_, ?_, ?_, ?_, ?_, ?_⟩
  · rw [hsame.windows]
    exact h.windows
  · rw [hsame.windows]
    exact h.mapped
  · intro r' hr'
    rw [hrecords, hmem] at hr'
    rcases hr' with rfl | ⟨hr', -⟩
    · exact (hf r).2.2.trans (h.live r hr)
    · exact h.live r' hr'
  · rw [hrecords, map_id_updateLive fun r => (hf r).1]
    exact h.single
  · intro r' hr'
    rw [hrecords, hmem] at hr'
    rw [hsame.windows]
    rcases hr' with rfl | ⟨hr', -⟩
    · rw [(hf r).1, (hf r).2.1]
      exact h.window r hr
    · exact h.window r' hr'
  · intro x e he
    rw [hrecords]
    by_cases hx : x = w.id
    · exact ⟨f r, (hmem _).2 (.inl rfl), hseen.1, (hf r).1.trans (hid.trans hx.symm)⟩
    · rw [hcatalog x hx] at he
      obtain ⟨r', hr', hp, hx'⟩ := h.keys x e he
      exact ⟨r', (hmem _).2 (.inr ⟨hr', fun heq => hx (hx'.symm.trans heq)⟩), hp, hx'⟩
  · intro r' hr' hp
    rw [hrecords, hmem] at hr'
    rcases hr' with rfl | ⟨hr', hne⟩
    · refine ⟨s.shown (f r) w, by rw [(hf r).1, hid, (hf r).2.1, hnumber]; exact hentry, fun _ w' hw' hid' => ?_⟩
      rw [hsame.windows] at hw'
      rw [hwindow w' hw' (hid'.trans ((hf r).1.trans hid)), hsame.shown]
    · obtain ⟨info, hinfo, hcurrent⟩ := h.entry r' hr' hp
      refine ⟨info, by rw [hcatalog _ hne]; exact hinfo, fun hc w' hw' hid' => ?_⟩
      rw [hsame.windows] at hw'
      rw [hsame.shown]
      exact hcurrent hc w' hw' hid'
  · rcases hsent with ⟨heq, -⟩ | heq
    · rw [heq]
      exact h.orderly
    · rw [heq]
      refine h.orderly.snoc fun value old hvalue hold => ?_
      cases hvalue
      obtain ⟨r', hr', hp, hx⟩ := h.keys w.id old hold
      have hr'' : r' = r := h.record_eq hr' hr (hx.trans hid.symm)
      subst hr''
      obtain ⟨info, hinfo, -⟩ := h.entry r' hr' hp
      rw [hid] at hinfo
      have heq := Option.some.inj (hold.symm.trans hinfo)
      rw [heq]
      exact hnumber
  · intro r' hr' hs
    rw [hrecords, hmem] at hr'
    rcases hr' with rfl | ⟨hr', -⟩
    · refine ⟨hseen.1, hseen.2.1, w, List.mem_append_right _ List.mem_cons_self, ((hf r).1.trans hid).symm, ?_, ?_⟩
      · exact (hsame.isApplication w).trans happ
      · exact (hsame.upToDate _ w).trans hseen.2.2.1
    · obtain ⟨hp, hc, w', hw', hid', ha, hu⟩ := h.seen r' hr' hs
      exact ⟨hp, hc, w', List.mem_append_left _ hw', hid', (hsame.isApplication w').trans ha, (hsame.upToDate r' w').trans hu⟩
  · intro hfail w' hw' ha hreal
    rw [hfailed] at hfail
    rw [hsame.isApplication] at ha
    rw [hrecords]
    by_cases hww : w'.id = w.id
    · exact ⟨f r, (hmem _).2 (.inl rfl), ((hf r).1.trans hid).trans hww.symm, hseen.2.2.2⟩
    · rcases List.mem_append.1 hw' with hw' | hw'
      · obtain ⟨r', hr', hid', hs⟩ := h.all hfail w' hw' ha hreal
        exact ⟨r', (hmem _).2 (.inr ⟨hr', fun heq => hww (hid'.symm.trans heq)⟩), hid', hs⟩
      · rw [List.mem_singleton] at hw'
        exact absurd (congrArg Window.id hw') hww

/-- Nothing is published of a window. -/
theorem skip (h : Walked s done) (hskip : s.failed = false → s.isApplication w = true → w.realized ≠ true) :
    Walked s (done ++ [w]) := by
  refine ⟨h.windows, h.mapped, h.live, h.single, h.window, h.keys, h.entry, h.orderly, fun r hr hs => ?_,
    fun hf w' hw' ha hreal => ?_⟩
  · obtain ⟨hp, hc, w', hw', hrest⟩ := h.seen r hr hs
    exact ⟨hp, hc, w', List.mem_append_left _ hw', hrest⟩
  · rcases List.mem_append.1 hw' with hw' | hw'
    · exact h.all hf w' hw' ha hreal
    · rw [List.mem_singleton] at hw'
      subst hw'
      exact absurd hreal (hskip hf ha)

/-- **One window** of the walk -/
theorem publishWindow (h : Walked s done) (hw : w ∈ s.windows) (calloc : Bool) :
    Walked (s.publishWindow w calloc) (done ++ [w]) := by
  have hrecord := h.recordFor hw calloc
  have hsame := SameWindows.recordFor s w calloc
  have hspec := recordFor_spec s w calloc
  unfold State.publishWindow
  rcases hr : s.recordFor w calloc with ⟨_ | r, u⟩ <;> rw [hr] at hrecord hsame hspec
  · dsimp only
    cases hspec with
    | other happ =>
      refine hrecord.skip fun _ ha => ?_
      rw [happ] at ha
      cases ha
    | hidden _ hreal => exact hrecord.skip fun _ _ hr => by rw [hreal] at hr; cases hr
    | failed _ _ _ _ => exact hrecord.skip fun hf => by cases hf
  · have hfind := recordFor_find hr
    have happ : u.isApplication w = true := by
      rw [hsame.isApplication]
      cases hspec with
      | found _ ha _ => exact ha
      | new ha _ _ => exact ha
    have hwu : w ∈ u.windows := by
      rw [hsame.windows]
      exact hw
    have hid : r.id = w.id := (live_iff.1 (List.find?_some hfind)).2
    dsimp only
    split
    · refine hrecord.see (f := fun r => { u.observed r w with seen := true, published := true, changed := false }) hwu happ
        hfind (fun r => ⟨rfl, rfl, rfl⟩) ⟨rfl, rfl, upToDate_observed u r w, rfl⟩ ⟨rfl, rfl, rfl, rfl, rfl, rfl⟩ rfl rfl ?_
      refine .inr ?_
      have hinfo : u.windowInfo (u.observed r w) w =
          u.shown { u.observed r w with seen := true, published := true, changed := false } w := by
        rw [shown_of_application happ]
        rfl
      have hevents : ∀ (v : State) (info : WindowInfo) (n : Nat),
          State.events { v with sent := v.sent ++ [.info info n] } = v.events ++ [(info.window, some (info, n))] := by
        intro v info n
        simp only [State.events, List.filterMap_append, List.filterMap_cons, Sent.change, List.filterMap_nil]
      refine (hevents _ _ _).trans ?_
      rw [← hinfo, ← hid]
      rfl
    · rename_i hnot
      simp only [not_or, Bool.not_eq_true', Bool.not_eq_false, Bool.not_eq_true] at hnot
      obtain ⟨hp, hc, hup⟩ := hnot
      exact hrecord.see (f := fun r => { r with seen := true }) hwu happ hfind (fun r => ⟨rfl, rfl, rfl⟩) ⟨hp, hc, hup, rfl⟩
        ⟨rfl, rfl, rfl, rfl, rfl, rfl⟩ rfl rfl (.inl ⟨rfl, hp, hc, rfl⟩)

/-- **The walk** over all windows -/
theorem walk (h : Walked s []) (calloc : Nat → Bool) :
    Walked (s.walk calloc) s.windows ∧ SameWindows s (s.walk calloc) := by
  have hwalk : ∀ (ws done : List Window) (s : State), Walked s done → (∀ w ∈ ws, w ∈ s.windows) →
      Walked (ws.foldl (fun s w => s.publishWindow w (calloc w.number)) s) (done ++ ws) ∧
        SameWindows s (ws.foldl (fun s w => s.publishWindow w (calloc w.number)) s) := by
    intro ws
    induction ws with
    | nil =>
      intro done s h _
      rw [List.append_nil]
      exact ⟨h, .refl s⟩
    | cons w ws ih =>
      intro done s h hws
      have hsame := SameWindows.publishWindow s w (calloc w.number)
      have hw := h.publishWindow (hws w List.mem_cons_self) (calloc w.number)
      obtain ⟨hrest, hsame'⟩ := ih _ _ hw fun w' hw' => by
        rw [hsame.windows]
        exact hws w' (List.mem_cons_of_mem _ hw')
      rw [List.append_assoc, List.singleton_append] at hrest
      exact ⟨hrest, hsame.trans hsame'⟩
  exact hwalk s.windows [] s h fun w hw => hw

end Walked

/-! ## Before and after the walk -/

/-- Windows are removed from the catalog. -/
theorem events_removals (sent : List Sent) (rs : List WindowRecord) :
    (sent ++ rs.map fun r => Sent.removed r.id).filterMap Sent.change =
      sent.filterMap Sent.change ++ (rs.map WindowRecord.id).map fun x => (x, none) := by
  rw [List.filterMap_append, List.filterMap_map, List.map_map]
  congr 1
  exact congrFun (List.filterMap_eq_map (f := (fun x => (x, none)) ∘ WindowRecord.id)) rs

/-- The host knows one window of a number. -/
theorem Coherent.published_eq {s : State} (h : Coherent s) (ho : s.observing = true) {r r' : WindowRecord}
    (hr : r ∈ s.records) (hr' : r' ∈ s.records) (hp : r.published = true) (hp' : r'.published = true) (hid : r.id = r'.id) :
    r = r' := by
  have hsymm : Std.Symm fun r r' : WindowRecord => r.published = true → r'.published = true → r.id ≠ r'.id :=
    ⟨fun a b hab hb ha heq => hab ha hb heq.symm⟩
  by_contra hne
  exact (h.published ho).forall hr hr' hne hp hp' hid

/-- The first part of the refresh: the records of destroyed windows go, and no record was seen. -/
theorem Walked.start {s t : State} (h : Coherent s) (ho : s.observing = true) (hatom : t.atom = s.atom)
    (hmanager : t.managerWindow = s.managerWindow) (hwindows : t.windows = s.windows)
    (hsent : t.sent = s.sent ++ ((s.records.filter fun r => r.destroyed && r.published).map fun r => .removed r.id))
    (hrecords : t.records = (s.records.filter fun r => !r.destroyed).map fun r => { r with seen := false }) : Walked t [] := by
  have hevents : t.events = s.events ++
      ((s.records.filter fun r => r.destroyed && r.published).map WindowRecord.id).map fun x => (x, none) := by
    rw [State.events, hsent, events_removals]
    rfl
  have hcatalog : ∀ x, t.catalog x =
      if x ∈ (s.records.filter fun r => r.destroyed && r.published).map WindowRecord.id then none else s.catalog x := by
    intro x
    rw [catalog, hevents, replay_removals]
    rfl
  have hshown : ∀ r w, t.shown { r with seen := false } w = s.shown r w := fun r w => by
    simp only [State.shown, windowInfo, hatom, hmanager]
  have hmem : ∀ r' ∈ t.records, ∃ r ∈ s.records, r.destroyed = false ∧ r' = { r with seen := false } := by
    intro r' hr'
    rw [hrecords] at hr'
    obtain ⟨r, hr, rfl⟩ := List.mem_map.1 hr'
    obtain ⟨hr, hlive⟩ := List.mem_filter.1 hr
    exact ⟨r, hr, Bool.not_eq_true' _ ▸ hlive, rfl⟩
  refine ⟨?_, ?_, ?_, ?_, ?_, ?_, ?_, ?_, ?_, ?_⟩
  · rw [hwindows]
    exact h.windows
  · rw [hwindows]
    exact h.mapped
  · intro r' hr'
    obtain ⟨r, -, hlive, rfl⟩ := hmem r' hr'
    exact hlive
  · rw [hrecords, List.map_map, List.nodup_iff_pairwise_ne, List.pairwise_map]
    refine (h.single.filter _).imp_of_mem fun {a b} ha hb hab hid => ?_
    have ha := (List.mem_filter.1 ha).2
    have hb := (List.mem_filter.1 hb).2
    rcases hab hid with hd | hd
    · rw [hd] at ha
      cases ha
    · rw [hd] at hb
      cases hb
  · intro r' hr'
    obtain ⟨r, hr, hlive, rfl⟩ := hmem r' hr'
    rw [hwindows]
    exact h.window r hr hlive
  · intro x e he
    rw [hcatalog] at he
    split at he
    · cases he
    · rename_i hgone
      obtain ⟨r, hr, hp, hid⟩ := h.keys ho x e he
      have hlive : r.destroyed = false := by
        cases hd : r.destroyed with
        | false => rfl
        | true =>
          refine absurd (List.mem_map.2 ⟨r, List.mem_filter.2 ⟨hr, ?_⟩, hid⟩) hgone
          rw [hd, hp]
          rfl
      refine ⟨{ r with seen := false }, ?_, hp, hid⟩
      rw [hrecords]
      exact List.mem_map_of_mem (List.mem_filter.2 ⟨hr, by rw [hlive]; rfl⟩)
  · intro r' hr' hp
    obtain ⟨r, hr, hlive, rfl⟩ := hmem r' hr'
    obtain ⟨info, hinfo, hcurrent⟩ := h.entry ho r hr hp
    refine ⟨info, ?_, fun hc w hw hid => ?_⟩
    · rw [hcatalog, if_neg]
      · exact hinfo
      · -- no other published record has the number
        intro hgone
        obtain ⟨r₀, hr₀, hid₀⟩ := List.mem_map.1 hgone
        obtain ⟨hr₀, hboth⟩ := List.mem_filter.1 hr₀
        rw [Bool.and_eq_true] at hboth
        have hne : r₀ ≠ r := by
          intro heq
          rw [heq, hlive] at hboth
          cases hboth.1
        exact hne (h.published_eq ho hr₀ hr hboth.2 hp hid₀)
    · rw [hwindows] at hw
      rw [hshown]
      exact hcurrent hlive hc w hw hid
  · rw [hevents]
    exact h.orderly.removals _
  · intro r' hr' hs
    obtain ⟨r, -, -, rfl⟩ := hmem r' hr'
    cases hs
  · intro _ w hw
    cases hw

/-- The last part of the refresh: the records that were not seen go. -/
theorem Walked.finish {s t : State} (h : Walked s s.windows) (hsame : SameWindows s t) (hfailed : t.failed = s.failed)
    (hsent : t.sent = (s.sent ++ ((s.records.filter fun r => !r.seen).map fun r => Sent.removed r.id)) ++ [Sent.done])
    (hrecords : t.records = s.records.filter fun r => r.seen) (ho : s.observing = true) : Coherent t ∧ Settled t := by
  have hevents : t.events = s.events ++
      ((s.records.filter fun r => !r.seen).map WindowRecord.id).map fun x => (x, none) := by
    rw [State.events, hsent, List.filterMap_append, events_removals]
    exact List.append_nil _
  have hcatalog : ∀ x, t.catalog x =
      if x ∈ (s.records.filter fun r => !r.seen).map WindowRecord.id then none else s.catalog x := by
    intro x
    rw [catalog, hevents, replay_removals]
    rfl
  have hmem : ∀ r, r ∈ t.records ↔ r ∈ s.records ∧ r.seen = true := fun r => by rw [hrecords, List.mem_filter]
  have hkept : ∀ r ∈ t.records, r.id ∉ (s.records.filter fun r => !r.seen).map WindowRecord.id := by
    intro r hr hgone
    obtain ⟨hr, hs⟩ := (hmem r).1 hr
    obtain ⟨r', hr', hid⟩ := List.mem_map.1 hgone
    obtain ⟨hr', hs'⟩ := List.mem_filter.1 hr'
    rw [h.record_eq hr' hr hid, hs] at hs'
    cases hs'
  have hnodup : (t.records.map WindowRecord.id).Nodup := by
    rw [hrecords]
    exact h.single.sublist (List.filter_sublist.map _)
  rw [List.nodup_iff_pairwise_ne, List.pairwise_map] at hnodup
  refine ⟨⟨?_, ?_, ?_, ?_, ?_, ?_, ?_, ?_⟩, hsame.observing.trans ho, fun r hr => ?_, fun hf w hw ha hreal => ?_⟩
  · rw [hsame.windows]
    exact h.windows
  · rw [hsame.windows]
    exact h.mapped
  · exact hnodup.imp fun hne hid => absurd hid hne
  · intro r hr _
    rw [hsame.windows]
    exact h.window r ((hmem r).1 hr).1
  · exact fun _ => hnodup.imp fun hne _ _ => hne
  · intro _ x e he
    rw [hcatalog] at he
    split at he
    · cases he
    · rename_i hgone
      obtain ⟨r, hr, hp, hid⟩ := h.keys x e he
      refine ⟨r, (hmem r).2 ⟨hr, ?_⟩, hp, hid⟩
      cases hs : r.seen with
      | true => rfl
      | false => exact absurd (List.mem_map.2 ⟨r, List.mem_filter.2 ⟨hr, by rw [hs]; rfl⟩, hid⟩) hgone
  · intro _ r hr hp
    obtain ⟨info, hinfo, hcurrent⟩ := h.entry r ((hmem r).1 hr).1 hp
    refine ⟨info, by rw [hcatalog, if_neg (hkept r hr)]; exact hinfo, fun _ hc w hw hid => ?_⟩
    rw [hsame.windows] at hw
    rw [hsame.shown]
    exact hcurrent hc w hw hid
  · rw [hevents]
    exact h.orderly.removals _
  · obtain ⟨hr, hs⟩ := (hmem r).1 hr
    obtain ⟨hp, hc, w, hw, hid, ha, hu⟩ := h.seen r hr hs
    exact ⟨h.live r hr, hp, hc, w, by rw [hsame.windows]; exact hw, hid, (hsame.isApplication w).trans ha,
      (hsame.upToDate r w).trans hu⟩
  · rw [hfailed] at hf
    rw [hsame.windows] at hw
    rw [hsame.isApplication] at ha
    obtain ⟨r, hr, hid, hs⟩ := h.all hf w hw ha hreal
    exact ⟨r, (hmem r).2 ⟨hr, hs⟩, hid⟩

/-- What a refresh does: nothing, or it leaves nothing to publish. -/
theorem refresh_spec {s : State} (h : Coherent s) (calloc : Nat → Bool) :
    (s.observing = false ∨ s.dirty = false) ∧ s.lorieWindowModelRefresh calloc = s ∨
      Coherent (s.lorieWindowModelRefresh calloc) ∧ Settled (s.lorieWindowModelRefresh calloc) := by
  unfold lorieWindowModelRefresh
  split
  · rename_i hidle
    rw [Bool.not_eq_true', Bool.not_eq_true'] at hidle
    exact .inl ⟨hidle, rfl⟩
  · rename_i hrun
    rw [not_or, Bool.not_eq_true', Bool.not_eq_true', Bool.not_eq_false, Bool.not_eq_false] at hrun
    have hstart := Walked.start (t := { ({ s with dirty := false, failed := false } : State).removeDestroyed with
      records := (({ s with dirty := false, failed := false } : State).removeDestroyed).records.map fun r =>
        { r with seen := false } }) h hrun.1 rfl rfl rfl rfl rfl
    obtain ⟨hwalked, hsame⟩ := hstart.walk calloc
    rw [← hsame.windows] at hwalked
    exact .inr (hwalked.finish ⟨rfl, rfl, rfl, rfl, rfl, rfl⟩ rfl rfl rfl (hsame.observing.trans hrun.1))

/-- **The refresh** keeps the invariant. -/
theorem Inv.refresh {s : State} (h : Inv s) (calloc : Nat → Bool) : Inv (s.lorieWindowModelRefresh calloc) := by
  rcases refresh_spec h.coherent calloc with ⟨-, heq⟩ | ⟨hcoherent, hsettled⟩
  · rw [heq]
    exact h
  · exact ⟨hcoherent, fun _ _ => hsettled⟩

theorem Inv.step {s t : State} (h : Inv s) {a : Action} (hs : step s a = some t) : Inv t := by
  by_cases ha : ∃ calloc, a = .refresh calloc
  · obtain ⟨calloc, rfl⟩ := ha
    cases hs
    exact h.refresh calloc
  · exact h.other hs fun calloc heq => ha ⟨calloc, heq⟩

theorem Inv.init (atom : Name → Nat) (root : Window) (manager : Option Nat) : Inv (State.init atom root manager) := by
  refine .of_dirty ⟨?_, fun w hw hreal => ?_, .nil, fun r hr => absurd hr List.not_mem_nil, fun _ => .nil,
    (fun _ x e he => by cases he), fun _ r hr => absurd hr List.not_mem_nil, .nil⟩ rfl
  · cases manager with
    | none => exact .nil
    | some id => exact List.nodup_singleton _
  · obtain ⟨id, -, rfl⟩ := List.mem_map.1 hw
    cases hreal

/-! ## What the host knows -/

/-- A snapshot with its title as it is compared -/
def WindowInfo.compared (info : WindowInfo) : WindowInfo := { info with title := cString info.title }

/-- What `publishWindow` sends of a window once its record is marked. -/
def State.forced (s : State) (w : Window) : List Sent :=
  ((s.changeAll w.id).publishWindow w true).sent.drop s.sent.length

/-- The catalog of the host is the list of the windows. -/
structure Current (s : State) : Prop where
  keys : ∀ x, (s.catalog x).isSome = true ↔ ∃ r ∈ s.records, live x r = true
  window : ∀ r ∈ s.records, r.destroyed = false →
    ∃ w ∈ s.windows, w.id = r.id ∧ w.number = r.number ∧ s.isApplication w = true ∧ w.wasRealized = true
  entry : ∀ w ∈ s.windows, (∃ r ∈ s.records, live w.id r = true) →
    ∃ info now, s.catalog w.id = some (info, w.number) ∧ s.forced w = [.info now w.number] ∧ info.compared = now.compared
  all : s.failed = false → ∀ w ∈ s.windows, s.isApplication w = true → w.realized = true →
    ∃ r ∈ s.records, live w.id r = true
  removed : ∀ past a m between b n rest, s.sent = past ++ Sent.info a m :: (between ++ Sent.info b n :: rest) →
    a.window = b.window → m ≠ n → .removed a.window ∈ between

/-- A window with a record is sent, once the record is marked. -/
theorem forced_eq {s : State} {w : Window} {r : WindowRecord} (happ : s.isApplication w = true)
    (hfind : s.records.find? (live w.id) = some r) : s.forced w = [.info (s.windowInfo (s.observed r w) w) w.number] := by
  have hid : r.id = w.id := (live_iff.1 (List.find?_some hfind)).2
  have hmarked : (s.changeAll w.id).records.find? (live w.id) = some { r with changed := true } := by
    have hlive : (live w.id ∘ fun r : WindowRecord => if r.id = w.id then { r with changed := true } else r) = live w.id := by
      funext r'
      simp only [Function.comp_apply]
      split <;> rfl
    have hmap := List.find?_map (f := fun r : WindowRecord => if r.id = w.id then { r with changed := true } else r)
      (p := live w.id) (l := s.records)
    rw [hlive, hfind, Option.map_some, if_pos hid] at hmap
    exact hmap
  have hrecord : (s.changeAll w.id).recordFor w true = (some { r with changed := true }, s.changeAll w.id) := by
    have happ' : (s.changeAll w.id).isApplication w = true := happ
    unfold recordFor
    rw [if_neg (by rw [happ']; exact Bool.false_ne_true), hmarked]
  unfold State.forced State.publishWindow
  rw [hrecord]
  dsimp only
  rw [if_pos (.inr (.inl rfl))]
  exact List.drop_left

/-- What is compared of a record covers what is not marked. -/
theorem compared_of_upToDate {s : State} {r : WindowRecord} {w : Window} (h : s.upToDate r w = true) :
    (s.windowInfo r w).compared = (s.windowInfo (s.observed r w) w).compared := by
  simp only [upToDate, Bool.and_eq_true, decide_eq_true_eq] at h
  obtain ⟨⟨⟨⟨hmapped, htitle⟩, hrole⟩, hicon⟩, hpixels⟩ := h
  simp only [WindowInfo.compared, windowInfo, observed, hmapped, htitle, hrole, hicon, hpixels]

/-- **A settled catalog is current.** -/
theorem Coherent.current {s : State} (h : Coherent s) (hs : Settled s) : Current s := by
  have hlive : ∀ {x r}, r ∈ s.records → r.id = x → live x r = true := fun hr hid =>
    live_iff.2 ⟨(hs.records _ hr).1, hid⟩
  have hwindow : ∀ {w w' : Window}, w ∈ s.windows → w' ∈ s.windows → w.id = w'.id → w = w' := fun hw hw' hid =>
    List.inj_on_of_nodup_map h.windows hw hw' hid
  refine ⟨fun x => ⟨fun hx => ?_, fun ⟨r, hr, hx⟩ => ?_⟩, fun r hr hd => ?_, fun w hw ⟨r, hr, hx⟩ => ?_, fun hf w hw ha hreal => ?_,
    fun past a m between b n rest heq hwin hne => ?_⟩
  · obtain ⟨e, he⟩ := Option.isSome_iff_exists.1 hx
    obtain ⟨r, hr, -, hid⟩ := h.keys hs.observing x e he
    exact ⟨r, hr, hlive hr hid⟩
  · obtain ⟨info, hinfo, -⟩ := h.entry hs.observing r hr (hs.records r hr).2.1
    rw [← (live_iff.1 hx).2, hinfo]
    rfl
  · obtain ⟨w, hw, hid, hnumber, hreal⟩ := h.window r hr hd
    obtain ⟨-, -, -, w', hw', hid', ha, -⟩ := hs.records r hr
    rw [← hwindow hw hw' (hid.trans hid'.symm)] at ha
    exact ⟨w, hw, hid, hnumber, ha, hreal⟩
  · have hid : r.id = w.id := (live_iff.1 hx).2
    obtain ⟨hd, hp, hc, w', hw', hid', ha, hu⟩ := hs.records r hr
    have hww : w' = w := hwindow hw' hw (hid'.trans hid)
    subst hww
    obtain ⟨info, hinfo, hshown⟩ := h.entry hs.observing r hr hp
    have hnumber : r.number = w'.number := by
      obtain ⟨w₀, hw₀, hid₀, hnumber, -⟩ := h.window r hr hd
      rw [← hnumber, hwindow hw₀ hw (hid₀.trans hid)]
    -- the record that `recordFor` finds is the one that was published
    obtain ⟨r₀, hfind⟩ : ∃ r₀, s.records.find? (live w'.id) = some r₀ :=
      Option.isSome_iff_exists.1 (List.find?_isSome.2 ⟨r, hr, hx⟩)
    have hr₀ : r₀ = r := by
      have hmem := List.mem_of_find?_eq_some hfind
      have hsame := (live_iff.1 (List.find?_some hfind)).2.trans hid.symm
      exact h.published_eq hs.observing hmem hr (hs.records r₀ hmem).2.1 hp hsame
    subst hr₀
    refine ⟨info, _, ?_, forced_eq ha hfind, ?_⟩
    · rw [← hid, hinfo, hnumber]
    · rw [hshown hd hc w' hw hid', ← shown_of_application ha, compared_of_upToDate hu]
  · obtain ⟨r, hr, hid⟩ := hs.all hf w hw ha hreal
    exact ⟨r, hr, hlive hr hid⟩
  · have hsplit : s.events = past.filterMap Sent.change ++ (a.window, some (a, m)) ::
        (between.filterMap Sent.change ++ (a.window, some (b, n)) :: rest.filterMap Sent.change) := by
      rw [State.events, heq]
      simp only [List.filterMap_append, List.filterMap_cons, Sent.change, ← hwin]
    obtain ⟨e, he, hchange⟩ := List.mem_filterMap.1 (h.orderly.removed hsplit hne)
    cases e with
    | removed window =>
      simp only [Sent.change, Option.some.injEq, Prod.mk.injEq, and_true] at hchange
      rw [← hchange]
      exact he
    | info snapshot number => simp only [Sent.change, Option.some.injEq, Prod.mk.injEq, reduceCtorEq, and_false] at hchange
    | done => cases hchange
    | gesture window direction => cases hchange

/-- **The incremental catalog is a full listing.** After every refresh of every run, the host knows the windows that have a
record, each as it would be sent now, and between snapshots of two windows with one number the first was removed. The records
are those of the mapped applications, as far as there was memory. A refresh runs when the model is dirty; when it is not, the
catalog is current already, unless the last refresh had no memory for a record. -/
theorem catalog_current {atom : Name → Nat} {root : Window} {manager : Option Nat} {s t : State} {calloc : Nat → Bool}
    (h : Reach step Free (State.init atom root manager) s) (ho : s.observing = true) (hruns : s.dirty = true ∨ s.failed = false)
    (hs : step s (.refresh calloc) = some t) : Current t := by
  have hinv : Inv s := h.invariant (.init atom root manager) fun _ _ _ hi _ hs => hi.step hs
  cases hs
  rcases refresh_spec hinv.coherent calloc with ⟨hidle, heq⟩ | ⟨hcoherent, hsettled⟩
  · rw [heq]
    rw [ho, Bool.true_eq_false, false_or] at hidle
    rw [hidle, Bool.false_eq_true, false_or] at hruns
    exact hinv.coherent.current (hinv.settled hidle hruns)
  · exact hcoherent.current hsettled

/-- A window was sent and is destroyed, another one gets its number, and there was no refresh yet. -/
def renumbered : List Action :=
  ([.observe, .clientArrives 1] : List Action) ++ appears 2097153 1 ++
    ([.refresh fun _ => true, .destroyWindow 2097153] : List Action) ++ appears 2097153 1

theorem catalog_current_renumbered :
    ∃ s t, exec step (State.init Name.ctorIdx (rootRecord 1 800 600) (some 2)) renumbered = some s ∧
      step s (.refresh fun _ => true) = some t ∧ (s.catalog 2097153).map Prod.snd = some 2 ∧
      (t.catalog 2097153).map Prod.snd = some 3 ∧ Current t := by
  have hrun : (exec step (State.init Name.ctorIdx (rootRecord 1 800 600) (some 2)) renumbered).map (fun s =>
      s.observing && s.dirty && (s.catalog 2097153).map Prod.snd = some 2 &&
        ((s.lorieWindowModelRefresh fun _ => true).catalog 2097153).map Prod.snd = some 3) = some true := by
    decide +kernel
  obtain ⟨s, hs, hfacts⟩ := Option.map_eq_some_iff.1 hrun
  simp only [Bool.and_eq_true, decide_eq_true_eq] at hfacts
  obtain ⟨⟨⟨ho, hd⟩, hbefore⟩, hafter⟩ := hfacts
  exact ⟨s, _, hs, rfl, hbefore, hafter, catalog_current (Reach.of_exec renumbered hs) ho (.inl hd) rfl⟩

end Lorie.Windows
