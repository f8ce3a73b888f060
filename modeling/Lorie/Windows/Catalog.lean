import Lorie.Lib.Replay
import Lorie.Lib.Transition
import Lorie.Windows.Changes
import Mathlib.Data.List.Forall2
import Mathlib.Data.List.Nodup

/-!
# The catalog of the windows

The host replays what is sent. Between two refreshes the records say which windows it knows: a published record has an entry
with the same window, and an entry whose record is not marked is what `publishWindow` would send, up to what it compares by
itself. Every hook either changes nothing of this or marks the record.

- `catalog`: what the host has replayed since `lorieWindowModelObserve`;
- `Coherent`: the records, the windows and the catalog; `Coherent.kept`: the rule for the hooks;
- `Inv`: also that nothing is left to publish while the model is not dirty; `Inv.changes` and `Inv.hooks` for all steps but
  `lorieWindowModelRefresh`.
-/

namespace Lorie.Windows

open Lorie.Lib WindowRecord State

/-! ## The catalog -/

/-- What an event changes in the catalog: the snapshot of a window, with which window it is. -/
def Sent.change : Sent → Option (Nat × Option (WindowInfo × Nat))
  | .info snapshot number => some (snapshot.window, some (snapshot, number))
  | .removed window => some (window, none)
  | .done => none
  | .gesture _ _ => none

namespace State

/-- The changes of the catalog since `lorieWindowModelObserve` -/
def events (s : State) : List (Nat × Option (WindowInfo × Nat)) := s.sent.filterMap Sent.change

/-- What the host has replayed. -/
def catalog (s : State) : Nat → Option (WindowInfo × Nat) := replay s.events

/-- What is sent of a record as it is, for a window of the catalog: such a window is not transient. -/
def shown (s : State) (r : WindowRecord) (w : Window) : WindowInfo := { s.windowInfo r w with parent := 0 }

end State

/-- The records, the windows and the catalog, while some records are marked. -/
structure Coherent (s : State) : Prop where
  windows : (s.windows.map Window.id).Nodup
  mapped : ∀ w ∈ s.windows, w.realized = true → w.wasRealized = true
  single : s.records.Pairwise fun r r' => r.id = r'.id → r.destroyed = true ∨ r'.destroyed = true
  window : ∀ r ∈ s.records, r.destroyed = false →
    ∃ w ∈ s.windows, w.id = r.id ∧ w.number = r.number ∧ w.wasRealized = true
  published : s.observing = true → s.records.Pairwise fun r r' => r.published = true → r'.published = true → r.id ≠ r'.id
  keys : s.observing = true → ∀ x e, s.catalog x = some e → ∃ r ∈ s.records, r.published = true ∧ r.id = x
  entry : s.observing = true → ∀ r ∈ s.records, r.published = true → ∃ info, s.catalog r.id = some (info, r.number) ∧
    (r.destroyed = false → r.changed = false → ∀ w ∈ s.windows, w.id = r.id → info = s.shown r w)
  orderly : Orderly Prod.snd s.events

/-- Nothing is left to publish. -/
structure Settled (s : State) : Prop where
  observing : s.observing = true
  records : ∀ r ∈ s.records, r.destroyed = false ∧ r.published = true ∧ r.changed = false ∧
    ∃ w ∈ s.windows, w.id = r.id ∧ s.isApplication w = true ∧ s.upToDate r w = true
  all : s.failed = false → ∀ w ∈ s.windows, s.isApplication w = true → w.realized = true → ∃ r ∈ s.records, r.id = w.id

/-- The model between two steps -/
structure Inv (s : State) : Prop where
  coherent : Coherent s
  settled : s.dirty = false → s.failed = false → Settled s

/-! ## Records that change in their places -/

section Places

variable {R : WindowRecord → WindowRecord → Prop} {l l' : List WindowRecord}

theorem mem_before (h : List.Forall₂ R l l') {r' : WindowRecord} (hr : r' ∈ l') : ∃ r ∈ l, R r r' := by
  induction h with
  | nil => cases hr
  | cons hab _ ih =>
    rcases List.mem_cons.1 hr with rfl | hr
    · exact ⟨_, List.mem_cons_self, hab⟩
    · obtain ⟨r, hmem, hrr⟩ := ih hr
      exact ⟨r, List.mem_cons_of_mem _ hmem, hrr⟩

theorem mem_after (h : List.Forall₂ R l l') {r : WindowRecord} (hr : r ∈ l) : ∃ r' ∈ l', R r r' := by
  induction h with
  | nil => cases hr
  | cons hab _ ih =>
    rcases List.mem_cons.1 hr with rfl | hr
    · exact ⟨_, List.mem_cons_self, hab⟩
    · obtain ⟨r', hmem, hrr⟩ := ih hr
      exact ⟨r', List.mem_cons_of_mem _ hmem, hrr⟩

theorem forall₂_trans {S T : WindowRecord → WindowRecord → Prop} (hT : ∀ a b c, R a b → S b c → T a c)
    {l'' : List WindowRecord} (h : List.Forall₂ R l l') (h' : List.Forall₂ S l' l'') : List.Forall₂ T l l'' := by
  induction h generalizing l'' with
  | nil =>
    cases h'
    exact .nil
  | cons hab _ ih =>
    cases h' with
    | cons hbc hrest => exact .cons (hT _ _ _ hab hbc) (ih hrest)

theorem pairwise_after {S S' : WindowRecord → WindowRecord → Prop}
    (hS : ∀ a a' b b', R a a' → R b b' → S a b → S' a' b') (h : List.Forall₂ R l l') (hl : l.Pairwise S) : l'.Pairwise S' := by
  induction h with
  | nil => exact .nil
  | cons hab hrest ih =>
    obtain ⟨hall, hl⟩ := List.pairwise_cons.1 hl
    refine List.pairwise_cons.2 ⟨fun b' hb' => ?_, ih hl⟩
    obtain ⟨b, hb, hbb⟩ := mem_before hrest hb'
    exact hS _ _ _ _ hab hbb (hall b hb)

end Places

/-- What an operation may do to a record: it keeps its window and whether it was sent, and it marks the record where its
snapshot may differ. -/
structure Kept (s t : State) (r r' : WindowRecord) : Prop where
  id : r'.id = r.id
  number : r'.number = r.number
  published : r'.published = r.published
  destroyed : r.destroyed = true → r'.destroyed = true
  window : r'.destroyed = false → ∀ w ∈ s.windows, w.id = r.id →
    ∃ w' ∈ t.windows, w'.id = w.id ∧ w'.number = w.number ∧ (w.wasRealized = true → w'.wasRealized = true)
  shown : r'.destroyed = false → r'.changed = false → r.changed = false ∧
    ∀ w' ∈ t.windows, w'.id = r.id → ∃ w ∈ s.windows, w.id = r.id ∧ t.shown r' w' = s.shown r w

/-- Nothing that is sent of the record changes. -/
theorem Kept.same {s t : State} (hatom : t.atom = s.atom) (hmanager : t.managerWindow = s.managerWindow)
    (hwindows : ∀ w, w ∈ t.windows ↔ w ∈ s.windows) (r : WindowRecord) : Kept s t r r := by
  refine ⟨rfl, rfl, rfl, fun h => h, fun _ w hw _ => ⟨w, (hwindows w).2 hw, rfl, rfl, fun h => h⟩, fun _ hc =>
    ⟨hc, fun w hw hid => ⟨w, (hwindows w).1 hw, hid, ?_⟩⟩⟩
  simp only [State.shown, windowInfo, hatom, hmanager]

/-- The record is marked. -/
theorem Kept.marked {s t : State} (hwindows : t.windows = s.windows) {r r' : WindowRecord} (hident : r'.ident = r.ident)
    (hc : r'.changed = true) : Kept s t r r' := by
  have hid : r'.id = r.id := congrArg (fun x => x.1) hident
  have hnumber : r'.number = r.number := congrArg (fun x => x.2.1) hident
  have hpublished : r'.published = r.published := congrArg (fun x => x.2.2.1) hident
  have hdestroyed : r'.destroyed = r.destroyed := congrArg (fun x => x.2.2.2) hident
  refine ⟨hid, hnumber, hpublished, fun h => hdestroyed.trans h, fun _ w hw _ => ⟨w, hwindows ▸ hw, rfl, rfl, fun h => h⟩, ?_⟩
  intro _ hnot
  rw [hc] at hnot
  cases hnot

/-- **The rule for the hooks**: every record is kept, and nothing is sent. -/
theorem Coherent.kept {s t : State} (h : Coherent s) (hevents : t.events = s.events) (hobserving : t.observing = s.observing)
    (hwindows : (t.windows.map Window.id).Nodup) (hmapped : ∀ w ∈ t.windows, w.realized = true → w.wasRealized = true)
    (hrecords : List.Forall₂ (Kept s t) s.records t.records) : Coherent t := by
  have hcatalog : t.catalog = s.catalog := congrArg replay hevents
  refine ⟨hwindows, hmapped, ?_, ?_, ?_, ?_, ?_, ?_⟩
  · refine pairwise_after (fun a a' b b' ha hb hab hid => ?_) hrecords h.single
    rw [ha.id, hb.id] at hid
    exact (hab hid).imp ha.destroyed hb.destroyed
  · intro r' hr' hlive
    obtain ⟨r, hr, hk⟩ := mem_before hrecords hr'
    have halive : r.destroyed = false := by
      cases hd : r.destroyed with
      | false => rfl
      | true =>
        rw [hk.destroyed hd] at hlive
        cases hlive
    obtain ⟨w, hw, hid, hnumber, hreal⟩ := h.window r hr halive
    obtain ⟨w', hw', hid', hnumber', hreal'⟩ := hk.window hlive w hw hid
    exact ⟨w', hw', (hid'.trans hid).trans hk.id.symm, (hnumber'.trans hnumber).trans hk.number.symm, hreal' hreal⟩
  · intro ho
    rw [hobserving] at ho
    refine pairwise_after (fun a a' b b' ha hb hab hpa hpb => ?_) hrecords (h.published ho)
    rw [ha.published] at hpa
    rw [hb.published] at hpb
    rw [ha.id, hb.id]
    exact hab hpa hpb
  · intro ho x e he
    rw [hobserving] at ho
    rw [hcatalog] at he
    obtain ⟨r, hr, hp, hid⟩ := h.keys ho x e he
    obtain ⟨r', hr', hk⟩ := mem_after hrecords hr
    exact ⟨r', hr', hk.published.trans hp, hk.id.trans hid⟩
  · intro ho r' hr' hp
    rw [hobserving] at ho
    obtain ⟨r, hr, hk⟩ := mem_before hrecords hr'
    rw [hk.published] at hp
    obtain ⟨info, hinfo, hshown⟩ := h.entry ho r hr hp
    refine ⟨info, by rw [hcatalog, hk.id, hk.number]; exact hinfo, fun hlive hc w' hw' hid' => ?_⟩
    obtain ⟨hc₀, hwin⟩ := hk.shown hlive hc
    obtain ⟨w, hw, hid, heq⟩ := hwin w' hw' (hid'.trans hk.id)
    rw [heq]
    refine hshown ?_ hc₀ w hw hid
    cases hd : r.destroyed with
    | false => rfl
    | true =>
      rw [hk.destroyed hd] at hlive
      cases hlive
  · rw [hevents]
    exact h.orderly

/-! ## Requests and confirmations -/

theorem forall₂_updateLive {R : WindowRecord → WindowRecord → Prop} {id : Nat} {f : WindowRecord → WindowRecord}
    (hsame : ∀ r, R r r) (hf : ∀ r, R r (f r)) (rs : List WindowRecord) : List.Forall₂ R rs (updateLive id f rs) := by
  induction rs with
  | nil => exact .nil
  | cons r rs ih =>
    simp only [updateLive]
    split
    · exact .cons (hf r) (List.forall₂_same.2 fun r _ => hsame r)
    · exact .cons (hsame r) ih

namespace Coherent

variable {s t : State}

/-- Windows and records stay, and records that change are marked. -/
theorem marked (h : Coherent s) (hatom : t.atom = s.atom) (hmanager : t.managerWindow = s.managerWindow)
    (hwindows : t.windows = s.windows) (hsent : t.events = s.events) (hobserving : t.observing = s.observing) {id : Nat}
    {f : WindowRecord → WindowRecord} (hf : ∀ r, (f r).ident = r.ident ∧ (f r).changed = true)
    (hrecords : t.records = updateLive id f s.records) : Coherent t := by
  refine h.kept hsent hobserving ?_ ?_ ?_
  · rw [hwindows]
    exact h.windows
  · rw [hwindows]
    exact h.mapped
  · rw [hrecords]
    exact forall₂_updateLive (.same hatom hmanager fun w => by rw [hwindows])
      (fun r => .marked hwindows (hf r).1 (hf r).2) s.records

/-- Nothing that matters here changes. -/
theorem congr (h : Coherent s) (hatom : t.atom = s.atom) (hmanager : t.managerWindow = s.managerWindow)
    (hwindows : t.windows = s.windows) (hsent : t.events = s.events) (hobserving : t.observing = s.observing)
    (hrecords : t.records = s.records) : Coherent t := by
  refine h.kept hsent hobserving ?_ ?_ ?_
  · rw [hwindows]
    exact h.windows
  · rw [hwindows]
    exact h.mapped
  · rw [hrecords]
    exact List.forall₂_same.2 fun r _ => .same hatom hmanager (fun w => by rw [hwindows]) r

end Coherent

theorem Settled.congr {s t : State} (h : Settled s) (hatom : t.atom = s.atom) (hroot : t.root = s.root)
    (hwindows : t.windows = s.windows) (hobserving : t.observing = s.observing) (hrecords : t.records = s.records)
    (hfailed : t.failed = s.failed) : Settled t := by
  have happ : ∀ w, t.isApplication w = s.isApplication w := fun w => by rw [State.isApplication, State.isApplication, hatom, hroot]
  have hup : ∀ r w, t.upToDate r w = s.upToDate r w := fun r w => by rw [State.upToDate, State.upToDate, hatom]
  refine ⟨hobserving.trans h.observing, fun r hr => ?_, fun hf w hw ha hreal => ?_⟩
  · rw [hrecords] at hr
    obtain ⟨hd, hp, hc, w, hw, hid, ha, hu⟩ := h.records r hr
    exact ⟨hd, hp, hc, w, hwindows ▸ hw, hid, (happ w).trans ha, (hup r w).trans hu⟩
  · rw [happ] at ha
    rw [hwindows] at hw
    rw [hfailed] at hf
    rw [hrecords]
    exact h.all hf w hw ha hreal

namespace Inv

variable {s t : State}

/-- The model is dirty afterwards. -/
theorem of_dirty (h : Coherent t) (hdirty : t.dirty = true) : Inv t := by
  refine ⟨h, fun hd => ?_⟩
  rw [hdirty] at hd
  cases hd

/-- Nothing that matters here changes. -/
theorem congr (h : Inv s) (hatom : t.atom = s.atom) (hroot : t.root = s.root) (hmanager : t.managerWindow = s.managerWindow)
    (hwindows : t.windows = s.windows) (hsent : t.events = s.events) (hobserving : t.observing = s.observing)
    (hrecords : t.records = s.records) (hdirty : t.dirty = s.dirty) (hfailed : t.failed = s.failed) : Inv t := by
  refine ⟨h.coherent.congr hatom hmanager hwindows hsent hobserving hrecords, fun hd hf => ?_⟩
  exact (h.settled (hdirty ▸ hd) (hfailed ▸ hf)).congr hatom hroot hwindows hobserving hrecords hfailed

/-- A request changes a record. -/
theorem marked (h : Inv s) (hatom : t.atom = s.atom) (hmanager : t.managerWindow = s.managerWindow)
    (hwindows : t.windows = s.windows) (hsent : t.events = s.events) (hobserving : t.observing = s.observing) {id : Nat}
    {f : WindowRecord → WindowRecord} (hf : ∀ r, (f r).ident = r.ident ∧ (f r).changed = true)
    (hrecords : t.records = updateLive id f s.records) (hdirty : t.dirty = true) : Inv t :=
  .of_dirty (h.coherent.marked hatom hmanager hwindows hsent hobserving hf hrecords) hdirty

end Inv

/-! ## Properties -/

theorem shown_store {s t : State} (hatom : t.atom = s.atom) (hmanager : t.managerWindow = s.managerWindow) {id : Nat}
    {name : Name} (hname : name ≠ .wmClass ∧ name ≠ .wmNormalHints) (value : Option Property) (r : WindowRecord) (w : Window) :
    t.shown r (store id name value w) = s.shown r w := by
  have hproperty : ∀ name', name ≠ name' → property (store id name value w) name' = property w name' := by
    intro name' hne
    unfold store property
    split
    · exact Function.update_of_ne hne.symm _ _
    · rfl
  have hwidth : (store id name value w).width = w.width := by unfold store; split <;> rfl
  have hheight : (store id name value w).height = w.height := by unfold store; split <;> rfl
  simp only [State.shown, windowInfo, lorieWindowConstraints, windowClass, hproperty _ hname.1, hproperty _ hname.2, hwidth,
    hheight, hatom, hmanager]

/-- A record is the same, or it is marked. -/
def Marks (r r' : WindowRecord) : Prop := r'.ident = r.ident ∧ (r'.changed = false → r' = r)

theorem Marks.trans {r r' r'' : WindowRecord} (h : Marks r r') (h' : Marks r' r'') : Marks r r'' := by
  refine ⟨h'.1.trans h.1, fun hc => ?_⟩
  have heq := h'.2 hc
  subst heq
  exact h.2 hc

theorem renewInteraction_marks (id : Nat) (attention : Bool) (rs : List WindowRecord) (s : State) :
    List.Forall₂ Marks rs (renewInteraction id attention rs s).1 := by
  induction rs generalizing s with
  | nil => exact .nil
  | cons r rs ih =>
    simp only [renewInteraction]
    split
    · exact .cons ⟨rfl, fun hc => by cases hc⟩ (ih _)
    · exact .cons ⟨rfl, fun _ => rfl⟩ (ih _)

theorem changeAll_marks (s : State) (id : Nat) :
    List.Forall₂ (fun r r' => Marks r r' ∧ (r.id = id → r'.changed = true)) s.records (s.changeAll id).records := by
  refine List.forall₂_map_right_iff.2 (List.forall₂_same.2 fun r _ => ?_)
  split
  · exact ⟨⟨rfl, fun hc => by cases hc⟩, fun _ => rfl⟩
  · rename_i hid
    exact ⟨⟨rfl, fun _ => rfl⟩, fun h => absurd h hid⟩

theorem propertyChanged_marks (s : State) (id : Nat) (name : Name) (attention : Bool) :
    List.Forall₂ (fun r r' => Marks r r' ∧ (r.id = id → name = .wmClass ∨ name = .wmNormalHints → r'.changed = true))
      s.records (s.propertyChanged id name attention).records := by
  have hfirst : ∀ u : State, List.Forall₂ Marks s.records u.records →
      List.Forall₂ (fun r r' => Marks r r' ∧ (r.id = id → name = .wmClass ∨ name = .wmNormalHints → r'.changed = true))
        s.records (if name = .wmClass ∨ name = .wmNormalHints then u.changeAll id else u).records := by
    intro u hu
    split
    · refine forall₂_trans (fun a b c hab hbc => ⟨hab.trans hbc.1, fun hid _ => hbc.2 ?_⟩) hu (changeAll_marks u id)
      have hident : b.id = a.id := congrArg (fun x => x.1) hab.1
      exact hident.trans hid
    · rename_i hname
      exact hu.imp fun a b hab => ⟨hab, fun _ h => absurd h hname⟩
  unfold propertyChanged
  split
  · exact hfirst _ (renewInteraction_marks id attention s.records s)
  · exact hfirst s (List.forall₂_same.2 fun r _ => ⟨rfl, fun _ => rfl⟩)

theorem store_window (id : Nat) (name : Name) (value : Option Property) (w : Window) :
    (store id name value w).id = w.id ∧ (store id name value w).number = w.number ∧
      (store id name value w).realized = w.realized ∧ (store id name value w).wasRealized = w.wasRealized := by
  unfold store
  split
  · exact ⟨rfl, rfl, rfl, rfl⟩
  · exact ⟨rfl, rfl, rfl, rfl⟩

/-- Windows change, and the records are marked where a snapshot may differ. -/
theorem Coherent.windowsChange {s t : State} (h : Coherent s) {f : Window → Window}
    (hf : ∀ w, (f w).id = w.id ∧ (f w).number = w.number ∧ (w.wasRealized = true → (f w).wasRealized = true))
    (hmapped : ∀ w, (w.realized = true → w.wasRealized = true) → (f w).realized = true → (f w).wasRealized = true)
    (hatom : t.atom = s.atom) (hmanager : t.managerWindow = s.managerWindow) (hwindows : t.windows = s.windows.map f)
    (hevents : t.events = s.events) (hobserving : t.observing = s.observing)
    (hrecords : List.Forall₂ (fun r r' => Marks r r' ∧
      (r'.changed = false → ∀ w : Window, w.id = r.id → s.shown r (f w) = s.shown r w)) s.records t.records) :
    Coherent t := by
  refine h.kept hevents hobserving ?_ ?_ (hrecords.imp fun r r' hmark => ?_)
  · have hids : (s.windows.map f).map Window.id = s.windows.map Window.id := by
      rw [List.map_map]
      exact List.map_congr_left fun w _ => (hf w).1
    rw [hwindows, hids]
    exact h.windows
  · intro w' hw' hreal
    rw [hwindows] at hw'
    obtain ⟨w, hw, rfl⟩ := List.mem_map.1 hw'
    exact hmapped w (h.mapped w hw) hreal
  · obtain ⟨⟨hident, hsame⟩, hshown⟩ := hmark
    have hdestroyed : r'.destroyed = r.destroyed := congrArg (fun x => x.2.2.2) hident
    refine ⟨congrArg (fun x => x.1) hident, congrArg (fun x => x.2.1) hident, congrArg (fun x => x.2.2.1) hident,
      fun hd => hdestroyed.trans hd, fun _ w hw _ => ?_, fun _ hc => ?_⟩
    · obtain ⟨hid, hnumber, hreal⟩ := hf w
      exact ⟨f w, hwindows ▸ List.mem_map_of_mem hw, hid, hnumber, hreal⟩
    · have heq := hsame hc
      subst heq
      refine ⟨hc, fun w' hw' hid => ?_⟩
      rw [hwindows] at hw'
      obtain ⟨w, hw, rfl⟩ := List.mem_map.1 hw'
      rw [(hf w).1] at hid
      refine ⟨w, hw, hid, ?_⟩
      rw [← hshown hc w hid]
      simp only [State.shown, windowInfo, hatom, hmanager]

/-- A property changes what is compared, or marks the record of its window. -/
theorem Coherent.setProperty {s : State} (h : Coherent s) (id : Nat) (name : Name) (value : Option Property) (early : Bool) :
    Coherent (s.setProperty id name value early) := by
  have hmarks := propertyChanged_marks (s.storeProperty id name value) id name
    (if early then s.urgentWindow id else (s.storeProperty id name value).urgentWindow id)
  obtain ⟨serial, issued, records, heq⟩ := setProperty_state s id name value early
  have hrecords : (s.setProperty id name value early).records = records := by rw [heq]
  change List.Forall₂ _ s.records (s.setProperty id name value early).records at hmarks
  rw [hrecords] at hmarks
  rw [heq]
  refine h.windowsChange (f := store id name value) (fun w => ?_) (fun w hw => ?_) rfl rfl rfl rfl rfl
    (hmarks.imp fun r r' hmark => ⟨hmark.1, fun hc w hid => ?_⟩)
  · obtain ⟨hid, hnumber, -, hreal⟩ := store_window id name value w
    exact ⟨hid, hnumber, fun h => hreal.trans h⟩
  · obtain ⟨-, -, hmapped, hreal⟩ := store_window id name value w
    rw [hmapped, hreal]
    exact hw
  · by_cases hname : name = .wmClass ∨ name = .wmNormalHints
    · -- an unmarked record belongs to another window
      have hother : w.id ≠ id := by
        intro hwin
        rw [hmark.2 (hid.symm.trans hwin) hname] at hc
        cases hc
      have hstore : store id name value w = w := if_neg hother
      rw [hstore]
    · exact shown_store rfl rfl (not_or.1 hname) value r w

/-! ## New records -/

/-- There is no record of the window that exists. -/
theorem not_live_of_find {s : State} {id : Nat} (h : s.records.find? (live id) = none) :
    ∀ r ∈ s.records, r.id = id → r.destroyed = true := by
  intro r hr hid
  have hnot := List.find?_eq_none.1 h r hr
  rw [live_iff] at hnot
  cases hd : r.destroyed with
  | true => rfl
  | false => exact absurd ⟨hd, hid⟩ hnot

/-- A window gets a record. -/
theorem Coherent.newRecord {s t : State} (h : Coherent s) {w : Window} {r : WindowRecord} (hw : w ∈ s.windows)
    (hreal : w.realized = true) (hfind : s.records.find? (live w.id) = none) (hid : r.id = w.id) (hnumber : r.number = w.number)
    (hpublished : r.published = false) (hatom : t.atom = s.atom) (hmanager : t.managerWindow = s.managerWindow)
    (hwindows : t.windows = s.windows) (hevents : t.events = s.events) (hobserving : t.observing = s.observing)
    (hrecords : t.records = r :: s.records) : Coherent t := by
  have hcatalog : t.catalog = s.catalog := congrArg replay hevents
  have hshown : ∀ r w, t.shown r w = s.shown r w := fun r w => by simp only [State.shown, windowInfo, hatom, hmanager]
  refine ⟨?_, ?_, ?_, ?_, ?_, ?_, ?_, ?_⟩
  · rw [hwindows]
    exact h.windows
  · rw [hwindows]
    exact h.mapped
  · rw [hrecords]
    refine List.pairwise_cons.2 ⟨fun r' hr' heq => .inr ?_, h.single⟩
    exact not_live_of_find hfind r' hr' (heq.symm.trans hid)
  · intro r' hr' hlive
    rw [hrecords] at hr'
    rw [hwindows]
    rcases List.mem_cons.1 hr' with rfl | hr'
    · exact ⟨w, hw, hid.symm, hnumber.symm, h.mapped w hw hreal⟩
    · exact h.window r' hr' hlive
  · intro ho
    rw [hobserving] at ho
    rw [hrecords]
    refine List.pairwise_cons.2 ⟨fun r' _ hp => ?_, h.published ho⟩
    rw [hpublished] at hp
    cases hp
  · intro ho x e he
    rw [hobserving] at ho
    rw [hcatalog] at he
    obtain ⟨r', hr', hp, hx⟩ := h.keys ho x e he
    exact ⟨r', hrecords ▸ List.mem_cons_of_mem _ hr', hp, hx⟩
  · intro ho r' hr' hp
    rw [hobserving] at ho
    rw [hrecords] at hr'
    rcases List.mem_cons.1 hr' with rfl | hr'
    · rw [hpublished] at hp
      cases hp
    · obtain ⟨info, hinfo, hsame⟩ := h.entry ho r' hr' hp
      refine ⟨info, by rw [hcatalog]; exact hinfo, fun hlive hc w' hw' hid' => ?_⟩
      rw [hwindows] at hw'
      rw [hshown]
      exact hsame hlive hc w' hw' hid'
  · rw [hevents]
    exact h.orderly

/-- A window of the catalog is not the root window. -/
theorem mem_of_application {s : State} {w : Window} (hw : w = s.root ∨ w ∈ s.windows) (happ : s.isApplication w = true) :
    w ∈ s.windows := hw.resolve_left fun e => (isApplication_own happ).1 (congrArg Window.id e)

theorem Coherent.recordFor {s : State} (h : Coherent s) {w : Window} (hw : w = s.root ∨ w ∈ s.windows) (calloc : Bool) :
    Coherent (s.recordFor w calloc).2 := by
  have hspec := recordFor_spec s w calloc
  generalize s.recordFor w calloc = x at hspec
  cases hspec with
  | other _ | hidden _ _ | found _ _ _ => exact h
  | failed _ _ _ _ => exact h.congr rfl rfl rfl rfl rfl rfl
  | new happ hfind hreal =>
    exact h.newRecord (mem_of_application hw happ) hreal hfind rfl rfl rfl rfl rfl rfl rfl rfl rfl

namespace Inv

variable {s t : State}

theorem recordFor (h : Inv s) {w : Window} (hw : w = s.root ∨ w ∈ s.windows) (calloc : Bool) :
    Inv (s.recordFor w calloc).2 := by
  refine ⟨h.coherent.recordFor hw calloc, ?_⟩
  have hspec := recordFor_spec s w calloc
  generalize s.recordFor w calloc = x at hspec
  cases hspec with
  | other _ | hidden _ _ | found _ _ _ => exact h.settled
  | failed _ _ _ _ => exact fun _ hf => by cases hf
  | new happ hfind hreal =>
    intro hd hf
    -- a settled model has the records of all mapped windows
    obtain ⟨r, hr, hid⟩ := (h.settled hd hf).all hf w (mem_of_application hw happ) happ hreal
    have hdestroyed := not_live_of_find hfind r hr hid
    rw [((h.settled hd hf).records r hr).1] at hdestroyed
    cases hdestroyed

theorem change (h : Inv s) (hc : Change s t) : Inv t := by
  cases hc with
  | record w calloc hw => exact h.recordFor hw calloc
  | renew id f hf =>
    have hrecords : (s.changeSerial id f).records =
        updateLive id (fun r => { f (next32 s.stateSerial) r with changed := true }) s.records := rfl
    exact h.marked (f := fun r => { f (next32 s.stateSerial) r with changed := true }) rfl rfl rfl rfl rfl
      (fun r => ⟨(hf _ r).ident, rfl⟩) hrecords rfl
  | change id f hf =>
    have hrecords : (s.change id f).records = updateLive id (fun r => { f r with changed := true }) s.records := rfl
    exact h.marked (f := fun r => { f r with changed := true }) rfl rfl rfl rfl rfl (fun r => ⟨(hf r).ident, rfl⟩) hrecords rfl
  | property id name value _ =>
    refine .of_dirty (h.coherent.setProperty id name (some value) false) ?_
    obtain ⟨serial, issued, records, heq⟩ := setProperty_state s id name (some value) false
    rw [heq]
  | gesture window direction =>
    refine h.congr rfl rfl rfl rfl ?_ rfl rfl rfl rfl
    simp only [State.events, List.filterMap_append, List.filterMap_cons, Sent.change, List.filterMap_nil, List.append_nil]
  | request => exact h.congr rfl rfl rfl rfl rfl rfl rfl rfl rfl

theorem changes (h : Inv s) (hc : Changes s t) : Inv t := by
  induction hc with
  | refl => exact h
  | tail _ hc ih => exact ih.change hc

end Inv

/-! ## Hooks -/

namespace Coherent

variable {s t : State}

/-- Windows come, go or change places, and no live record loses its window. -/
theorem windowsMove (h : Coherent s) (hatom : t.atom = s.atom) (hmanager : t.managerWindow = s.managerWindow)
    (hwindows : (t.windows.map Window.id).Nodup) (hmapped : ∀ w ∈ t.windows, w.realized = true → w.wasRealized = true)
    (hold : ∀ r ∈ s.records, r.destroyed = false → ∀ w : Window, w.id = r.id → (w ∈ t.windows ↔ w ∈ s.windows))
    (hevents : t.events = s.events) (hobserving : t.observing = s.observing) (hrecords : t.records = s.records) :
    Coherent t := by
  refine h.kept hevents hobserving hwindows hmapped ?_
  rw [hrecords]
  refine List.forall₂_same.2 fun r hr => ⟨rfl, rfl, rfl, fun hd => hd, fun hlive w hw hid => ?_, fun hlive hc => ⟨hc, ?_⟩⟩
  · exact ⟨w, (hold r hr hlive w hid).2 hw, rfl, rfl, fun h => h⟩
  · intro w hw hid
    refine ⟨w, (hold r hr hlive w hid).1 hw, hid, ?_⟩
    simp only [State.shown, windowInfo, hatom, hmanager]

/-- A window is mapped or unmapped. -/
theorem hook (h : Coherent s) (id : Nat) {f : Window → Window}
    (hf : ∀ w, (f w).id = w.id ∧ (f w).number = w.number ∧ (w.wasRealized = true → (f w).wasRealized = true))
    (hmapped : ∀ w, (w.realized = true → w.wasRealized = true) → (f w).realized = true → (f w).wasRealized = true)
    (hshown : ∀ r w, s.shown r (f w) = s.shown r w) : Coherent (s.hook id f) := by
  refine h.windowsChange (f := fun w => if w.id = id then f w else w) (fun w => ?_) (fun w hw => ?_) rfl rfl rfl rfl rfl
    (List.forall₂_same.2 fun r _ => ⟨⟨rfl, fun _ => rfl⟩, fun _ w _ => ?_⟩)
  · split
    · exact hf w
    · exact ⟨rfl, rfl, fun h => h⟩
  · split
    · exact hmapped w hw
    · exact hw
  · split
    · exact hshown r w
    · rfl

/-- A window takes another place or size, and its record is marked. -/
theorem position (h : Coherent s) (id : Nat) {f : Window → Window}
    (hf : ∀ w, (f w).id = w.id ∧ (f w).number = w.number ∧ (f w).realized = w.realized ∧ (f w).wasRealized = w.wasRealized) :
    Coherent ((s.hook id f).changeAll id) := by
  refine h.windowsChange (f := fun w => if w.id = id then f w else w) (fun w => ?_) (fun w hw => ?_) rfl rfl rfl rfl rfl
    ((changeAll_marks (s.hook id f) id).imp fun r r' hmark => ⟨hmark.1, fun hc w hid => ?_⟩)
  · split
    · obtain ⟨hid, hnumber, -, hreal⟩ := hf w
      exact ⟨hid, hnumber, fun h => hreal.trans h⟩
    · exact ⟨rfl, rfl, fun h => h⟩
  · split
    · rw [(hf w).2.2.1, (hf w).2.2.2]
      exact hw
    · exact hw
  · have hother : w.id ≠ id := by
      intro hwin
      rw [hmark.2 (hid.symm.trans hwin)] at hc
      cases hc
    have hsame : (if w.id = id then f w else w) = w := if_neg hother
    rw [hsame]

theorem onDestroy (h : Coherent s) (id : Nat) : Coherent (s.onDestroy id) := by
  refine h.kept rfl rfl ?_ ?_ ?_
  · exact h.windows.sublist (List.filter_sublist.map _)
  · exact fun w hw hreal => h.mapped w (List.mem_filter.1 hw).1 hreal
  · refine List.forall₂_map_right_iff.2 (List.forall₂_same.2 fun r _ => ?_)
    by_cases hid : r.id = id
    · rw [if_pos hid]
      exact ⟨rfl, rfl, rfl, fun _ => rfl, (fun hlive => by cases hlive), (fun hlive => by cases hlive)⟩
    · rw [if_neg hid]
      refine ⟨rfl, rfl, rfl, fun hd => hd, fun _ w hw hwid => ?_, fun _ hc => ⟨hc, fun w hw hwid => ?_⟩⟩
      · refine ⟨w, List.mem_filter.2 ⟨hw, ?_⟩, rfl, rfl, fun h => h⟩
        rw [decide_eq_true_eq, hwid]
        exact hid
      · exact ⟨w, (List.mem_filter.1 hw).1, hwid, rfl⟩

/-- All records are marked, and some of a window that goes are destroyed. -/
theorem markAll (h : Coherent s) (hevents : t.events = s.events) (hobserving : t.observing = s.observing)
    (hwindows : t.windows.Sublist s.windows) {f : WindowRecord → WindowRecord}
    (hf : ∀ r, (f r).id = r.id ∧ (f r).number = r.number ∧ (f r).published = r.published ∧ (f r).changed = true ∧
      (r.destroyed = true → (f r).destroyed = true))
    (hlive : ∀ r, (f r).destroyed = false → ∀ w ∈ s.windows, w.id = r.id → w ∈ t.windows)
    (hrecords : t.records = s.records.map f) : Coherent t := by
  refine h.kept hevents hobserving (h.windows.sublist (hwindows.map _))
    (fun w hw hreal => h.mapped w (hwindows.subset hw) hreal) ?_
  rw [hrecords]
  refine List.forall₂_map_right_iff.2 (List.forall₂_same.2 fun r _ => ?_)
  obtain ⟨hid, hnumber, hpublished, hchanged, hdestroyed⟩ := hf r
  refine ⟨hid, hnumber, hpublished, hdestroyed, fun hd w hw hwid => ⟨w, hlive r hd w hw hwid, rfl, rfl, fun h => h⟩, ?_⟩
  intro _ hc
  rw [hchanged] at hc
  cases hc

theorem managerChanged (h : Coherent s) (destroyed : Bool) : Coherent (s.managerChanged destroyed) := by
  unfold State.managerChanged
  cases s.managerWindow with
  | none => exact h
  | some old =>
    cases destroyed with
    | true =>
      exact h.markAll (f := fun r => { r with changed := true }) rfl rfl (List.Sublist.refl _)
        (fun r => ⟨rfl, rfl, rfl, rfl, fun hd => hd⟩) (fun r _ w hw _ => hw) rfl
    | false =>
      refine h.markAll (f := fun r => { (if r.id = old then { r with destroyed := true } else r) with changed := true })
        rfl rfl List.filter_sublist (fun r => ?_) (fun r hlive w hw hid => ?_) ?_
      · split
        · exact ⟨rfl, rfl, rfl, rfl, fun _ => rfl⟩
        · exact ⟨rfl, rfl, rfl, rfl, fun hd => hd⟩
      · refine List.mem_filter.2 ⟨hw, ?_⟩
        rw [decide_eq_true_eq, hid]
        intro heq
        simp only [heq, if_true] at hlive
        cases hlive
      · exact List.map_map

/-- No record is published, and a new host knows nothing. -/
theorem reset (h : Coherent s) (hwindows : t.windows = s.windows)
    (hrecords : t.records = s.records.map fun r => { r with published := false })
    (hobserving : t.observing = true → t.events = []) (hevents : t.events = s.events ∨ t.events = []) : Coherent t := by
  have hunpublished : ∀ r ∈ t.records, r.published = false := by
    intro r hr
    rw [hrecords] at hr
    obtain ⟨r', -, rfl⟩ := List.mem_map.1 hr
    rfl
  refine ⟨by rw [hwindows]; exact h.windows, by rw [hwindows]; exact h.mapped, ?_, ?_, ?_, ?_, ?_, ?_⟩
  · rw [hrecords]
    exact List.pairwise_map.2 h.single
  · intro r' hr' hlive
    rw [hrecords] at hr'
    obtain ⟨r, hr, rfl⟩ := List.mem_map.1 hr'
    rw [hwindows]
    exact h.window r hr hlive
  · intro _
    rw [hrecords]
    refine List.pairwise_map.2 (List.Pairwise.imp ?_ h.single)
    intro r r' _ hp
    cases hp
  · intro ho x e he
    rw [catalog, hobserving ho] at he
    cases he
  · intro _ r hr hp
    rw [hunpublished r hr] at hp
    cases hp
  · rcases hevents with heq | heq
    · rw [heq]
      exact h.orderly
    · rw [heq]
      exact .nil

end Coherent

/-! ## Steps -/

/-- A new window -/
theorem Inv.createWindow {s : State} (h : Inv s) {w : Window} (place : Nat) (hfresh : ∀ w' ∈ s.windows, w'.id ≠ w.id)
    (hreal : w.realized = false) :
    Inv { s with windows := s.windows.take place ++ w :: s.windows.drop place, created := s.created + 1 } := by
  have hmem : ∀ w', w' ∈ s.windows.take place ++ w :: s.windows.drop place ↔ w' = w ∨ w' ∈ s.windows := by
    intro w'
    rw [List.perm_middle.mem_iff, List.mem_cons, List.take_append_drop]
  refine ⟨h.coherent.windowsMove rfl rfl ?_ (fun w' hw' hr => ?_) (fun r hr hlive w' hid => ?_) rfl rfl rfl, fun hd hf => ?_⟩
  · have hmiddle : (s.windows.take place ++ w :: s.windows.drop place).Perm
        (w :: (s.windows.take place ++ s.windows.drop place)) := List.perm_middle
    have hperm := hmiddle.map Window.id
    rw [List.take_append_drop, List.map_cons] at hperm
    refine hperm.nodup_iff.2 (List.nodup_cons.2 ⟨fun hid => ?_, h.coherent.windows⟩)
    obtain ⟨w', hw', heq⟩ := List.mem_map.1 hid
    exact hfresh w' hw' heq
  · rcases (hmem w').1 hw' with rfl | hw'
    · rw [hreal] at hr
      cases hr
    · exact h.coherent.mapped w' hw' hr
  · -- the window of a live record is an old one
    obtain ⟨w₀, hw₀, hid₀, -⟩ := h.coherent.window r hr hlive
    refine ⟨fun hw' => ((hmem w').1 hw').resolve_left fun heq => ?_, fun hw' => (hmem w').2 (.inr hw')⟩
    exact hfresh w₀ hw₀ (hid₀.trans (hid.symm.trans (congrArg Window.id heq)))
  · obtain ⟨ho, hrecords, hall⟩ := h.settled hd hf
    refine ⟨ho, fun r hr => ?_, fun hf w' hw' happ hr => ?_⟩
    · obtain ⟨hlive, hp, hc, w₀, hw₀, hrest⟩ := hrecords r hr
      exact ⟨hlive, hp, hc, w₀, (hmem w₀).2 (.inr hw₀), hrest⟩
    · rcases (hmem w').1 hw' with rfl | hw'
      · rw [hreal] at hr
        cases hr
      · exact hall hf w' hw' happ hr

/-- The same windows in another order -/
theorem Inv.restack {s : State} (h : Inv s) (id place : Nat) :
    Inv { s with
      windows := (s.windows.filter fun w => w.id ≠ id).take place ++ (s.windows.filter fun w => w.id = id) ++
        (s.windows.filter fun w => w.id ≠ id).drop place
      dirty := true } := by
  have hperm : ((s.windows.filter fun w => w.id ≠ id).take place ++ (s.windows.filter fun w => w.id = id) ++
      (s.windows.filter fun w => w.id ≠ id).drop place).Perm s.windows := by
    generalize hothers : (s.windows.filter fun w => decide (w.id ≠ id)) = others
    have hsplit := List.filter_append_perm (fun w : Window => decide (w.id = id)) s.windows
    simp only [← decide_not, ← ne_eq, hothers] at hsplit
    have hmove := List.perm_append_comm_assoc (others.take place) (s.windows.filter fun w => w.id = id) (others.drop place)
    rw [List.take_append_drop, ← List.append_assoc] at hmove
    exact hmove.trans hsplit
  refine .of_dirty (h.coherent.windowsMove rfl rfl ?_ (fun w hw => ?_) (fun r _ _ w _ => hperm.mem_iff) rfl rfl rfl) rfl
  · exact (hperm.map _).nodup_iff.2 h.coherent.windows
  · exact h.coherent.mapped w (hperm.mem_iff.1 hw)

theorem shown_realized (s : State) (r : WindowRecord) (w : Window) (realized wasRealized : Bool) :
    s.shown r { w with realized := realized, wasRealized := wasRealized } = s.shown r w := rfl

/-- **Every step** but a refresh -/
theorem Inv.other {s t : State} (h : Inv s) {a : Action} (hs : step s a = some t) (ha : ∀ calloc, a ≠ .refresh calloc) :
    Inv t := by
  cases a with
  | createWindow id parent place inputOutput overrideRedirect x y width height =>
    obtain ⟨⟨-, -, hfresh, -⟩, heq⟩ := Option.ite_none_right_eq_some.1 hs
    cases heq
    exact h.createWindow place hfresh rfl
  | destroyWindow id =>
    obtain ⟨-, heq⟩ := Option.ite_none_right_eq_some.1 hs
    cases heq
    exact .of_dirty (h.coherent.onDestroy id) rfl
  | realize id =>
    cases hs
    refine .of_dirty (h.coherent.hook id (fun w => ⟨rfl, rfl, fun _ => rfl⟩) (fun w _ _ => rfl) fun r w => ?_) rfl
    exact shown_realized s r w true true
  | unrealize id =>
    cases hs
    refine .of_dirty (h.coherent.hook id (fun w => ⟨rfl, rfl, fun h => h⟩) (fun w _ hr => by cases hr) fun r w => ?_) rfl
    exact shown_realized s r w false w.wasRealized
  | position id parent x y width height =>
    cases hs
    exact .of_dirty (h.coherent.position id fun w => ⟨rfl, rfl, rfl, rfl⟩) rfl
  | restack id place =>
    cases hs
    exact h.restack id place
  | changeProperty id name value early =>
    obtain ⟨-, heq⟩ := Option.ite_none_right_eq_some.1 hs
    cases heq
    obtain ⟨serial, issued, records, heq⟩ := setProperty_state s id name value early
    exact .of_dirty (h.coherent.setProperty id name value early) (by rw [heq])
  | sendEvent m calloc gesture =>
    cases hs
    exact h.changes (sendEvent_changes m calloc gesture)
  | managerChanged destroyed =>
    cases hs
    cases hm : s.managerWindow with
    | none =>
      have hsame : s.managerChanged destroyed = s := by
        unfold State.managerChanged
        rw [hm]
      rw [hsame]
      exact h
    | some old =>
      refine .of_dirty (h.coherent.managerChanged destroyed) ?_
      unfold State.managerChanged
      rw [hm]
  | fullscreenConfirm id serial fullscreen env =>
    cases hs
    exact h.changes (confirm_changes id serial fullscreen 0 env).1
  | maximizedConfirm id serial axes env =>
    cases hs
    exact h.changes (confirm_changes id serial false axes env).2.1
  | interactionConfirm id serial flags env =>
    cases hs
    exact h.changes (confirm_changes id serial false flags env).2.2
  | userInput window =>
    cases hs
    unfold lorieWindowUserInput
    split
    · exact h
    · exact h.congr rfl rfl rfl rfl rfl rfl rfl rfl rfl
  | refresh calloc => exact absurd rfl (ha calloc)
  | observe =>
    cases hs
    exact .of_dirty (h.coherent.reset rfl rfl (fun _ => rfl) (.inr rfl)) rfl
  | reset =>
    cases hs
    exact .of_dirty (h.coherent.reset rfl rfl (fun ho => by cases ho) (.inl rfl)) rfl
  | clientArrives slot | clientExits slot =>
    obtain ⟨-, heq⟩ := Option.ite_none_right_eq_some.1 hs
    cases heq
    exact h.congr rfl rfl rfl rfl rfl rfl rfl rfl rfl
  | tick milliseconds =>
    cases hs
    exact h.congr rfl rfl rfl rfl rfl rfl rfl rfl rfl

end Lorie.Windows
