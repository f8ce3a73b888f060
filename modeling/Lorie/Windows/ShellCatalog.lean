import Lorie.Lib.Transition
import Lorie.Windows.Shell
import Mathlib.Data.Finset.Card
import Mathlib.Data.Finset.Lattice.Lemmas

/-!
# The catalog of the shell

What the host of the owner knows in every run: the host is told every change of the records from the time it was admitted,
and a refresh leaves the records that the windows of the screen call for.

- `Synced`: the host knows the records; `Publishes`: what `publish` does to them;
- `Walked`: what holds during the walk, with `Walked.walk` and `Walked.finish`;
- `shellWindow_iff`: what may be shown is in the catalog of the owner;
- `shell_catalog`: the catalog after every refresh of every run.
-/

namespace Lorie.Windows.Shell

open Lorie.Lib

variable {R : Type} {s t u : State R}

/-! ## What is sent -/

/-- Events for the owner are sent, and otherwise only the records change. -/
structure Sends (s t : State R) : Prop where
  screen : t.screen = s.screen
  owner : t.owner = s.owner
  admitted : t.admitted = s.admitted
  dirty : t.dirty = s.dirty
  sent : ∃ es, t.sent = s.sent ++ es ∧ ∀ e ∈ es, e.Names s.owner

namespace Sends

theorem append (s : State R) (rs : List ShellRecord) {es : List Event} (hes : ∀ e ∈ es, e.Names s.owner) :
    Sends s { s with records := rs, sent := s.sent ++ es } :=
  ⟨rfl, rfl, rfl, rfl, es, rfl, hes⟩

/-- Only the records change. -/
theorem records (s : State R) (rs : List ShellRecord) : Sends s { s with records := rs } :=
  ⟨rfl, rfl, rfl, rfl, [], (List.append_nil _).symm, fun _ he => absurd he List.not_mem_nil⟩

theorem refl (s : State R) : Sends s s := records s s.records

theorem trans (h : Sends s t) (h' : Sends t u) : Sends s u := by
  obtain ⟨es, hes, hnames⟩ := h.sent
  obtain ⟨es', hes', hnames'⟩ := h'.sent
  refine ⟨h'.screen.trans h.screen, h'.owner.trans h.owner, h'.admitted.trans h.admitted, h'.dirty.trans h.dirty,
    es ++ es', ?_, ?_⟩
  · rw [hes', hes, List.append_assoc]
  · intro e he
    rcases List.mem_append.1 he with he | he
    · exact hnames e he
    · rw [← h.owner]
      exact hnames' e he

theorem removeUnseen (s : State R) : Sends s s.removeUnseen := by
  refine append s _ fun e he => ?_
  obtain ⟨r, _, rfl⟩ := List.mem_map.1 he
  rfl

end Sends

/-- More is told. -/
theorem told_append (hadmitted : s.admitted ≤ s.sent.length) (rs : List ShellRecord) (es : List Event) :
    { s with records := rs, sent := s.sent ++ es }.told = s.told ++ es.filterMap (Event.told s.owner) := by
  unfold State.told State.since
  rw [List.drop_append_of_le_length hadmitted, List.filterMap_append]

/-! ## The records on the host -/

/-- The host of the owner knows the records. -/
structure Synced (s : State R) : Prop where
  admitted : s.admitted ≤ s.sent.length
  names : s.owner ≠ 0 → ∀ e ∈ s.since, e.Names s.owner
  mirrors : s.owner ≠ 0 → Mirrors ShellRecord.window ShellRecord.info s.told s.records
  single : (s.records.map ShellRecord.window).Nodup
  bounded : s.records.length ≤ recordLimit

namespace Synced

/-- The events that follow name the owner. -/
theorem append (h : Synced s) {es : List Event} {rs : List ShellRecord} (hes : ∀ e ∈ es, e.Names s.owner)
    (hmirrors : s.owner ≠ 0 →
      Mirrors ShellRecord.window ShellRecord.info (s.told ++ es.filterMap (Event.told s.owner)) rs)
    (hsingle : (rs.map ShellRecord.window).Nodup) (hbounded : rs.length ≤ recordLimit) :
    Synced { s with records := rs, sent := s.sent ++ es } := by
  refine ⟨?_, ?_, ?_, hsingle, hbounded⟩
  · exact Nat.le_trans h.admitted (by rw [List.length_append]; exact Nat.le_add_right _ _)
  · intro howner e he
    unfold State.since at he
    rw [List.drop_append_of_le_length h.admitted] at he
    rcases List.mem_append.1 he with he | he
    · exact h.names howner e he
    · exact hes e he
  · intro howner
    rw [told_append h.admitted]
    exact hmirrors howner

end Synced

theorem record_window {w : Nat} {r : ShellRecord} (h : s.record w = some r) : r.window = w :=
  of_decide_eq_true (List.find?_some (p := fun r : ShellRecord => decide (r.window = w)) h)

/-! ## One window -/

/-- What `publish` does. -/
inductive Publishes (s : State R) (calloc : Bool) (w : Nat) : State R → Prop
  | other (hrole : s.screen.role w = 0) : Publishes s calloc w s
  | refused (hnone : s.record w = none)
      (h : (s.screen.desktop.heap w).realized = false ∨ recordLimit ≤ s.records.length ∨ calloc = false) :
      Publishes s calloc w s
  | fresh (hrole : s.screen.role w ≠ 0) (hnone : s.record w = none) (hroom : s.records.length < recordLimit) :
      Publishes s calloc w
        { s with
          records := ⟨w, true, s.screen.shellInfo w⟩ :: s.records
          sent := s.sent ++ [.shell s.owner w (some (s.screen.shellInfo w))] }
  | found {r : ShellRecord} (hrole : s.screen.role w ≠ 0) (hr : s.record w = some r) :
      Publishes s calloc w
        { s with
          records := amend ShellRecord.window w (fun r => { r with seen := true, info := s.screen.shellInfo w }) s.records
          sent := s.sent ++
            if r.info = s.screen.shellInfo w then [] else [.shell s.owner w (some (s.screen.shellInfo w))] }

theorem publish_spec (s : State R) (calloc : Bool) (w : Nat) : Publishes s calloc w (s.publish calloc w) := by
  unfold State.publish
  split
  · rename_i hrole
    exact .other hrole
  · rename_i hrole
    dsimp only
    split
    · rename_i hnone
      split
      · rename_i hrefused
        refine .refused hnone (hrefused.imp (fun h => ?_) (Or.imp_right fun h => ?_))
        · exact Bool.not_eq_true' _ ▸ h
        · exact Bool.not_eq_true' _ ▸ h
      · rename_i hfresh
        rw [not_or, not_or, Nat.not_le] at hfresh
        exact .fresh hrole hnone hfresh.2.1
    · rename_i r hr
      have hfound : Publishes s calloc w _ := .found hrole hr
      split
      · rename_i hinfo
        rw [if_neg hinfo] at hfound
        exact hfound
      · rename_i hinfo
        rw [if_pos (not_not.1 hinfo), List.append_nil] at hfound
        exact hfound

namespace Publishes

variable {calloc : Bool} {w : Nat}

theorem names {info : Option LorieShellInfo} : ∀ e ∈ [Event.shell s.owner w info], e.Names s.owner := by
  intro e he
  rw [List.mem_singleton.1 he]
  rfl

theorem sends (h : Publishes s calloc w t) : Sends s t := by
  cases h with
  | other _ | refused _ _ => exact Sends.refl s
  | fresh _ _ _ => exact Sends.append s _ names
  | found _ _ =>
    refine Sends.append s _ fun e he => ?_
    split at he
    · cases he
    · exact names e he

/-- The host hears what it needs. -/
theorem synced (h : Publishes s calloc w t) (hs : Synced s) : Synced t := by
  have htold : Event.told s.owner (.shell s.owner w (some (s.screen.shellInfo w))) =
      some (w, some (s.screen.shellInfo w)) := if_pos rfl
  cases h with
  | other _ | refused _ _ => exact hs
  | fresh _ hnone hroom =>
    refine hs.append names (fun howner => ?_) ?_ hroom
    · rw [List.filterMap_cons_some htold]
      exact (hs.mirrors howner).insert ⟨w, true, s.screen.shellInfo w⟩
    · rw [List.map_cons, List.nodup_cons]
      refine ⟨fun hin => ?_, hs.single⟩
      obtain ⟨r, hr, hw⟩ := List.mem_map.1 hin
      exact List.find?_eq_none.1 hnone r hr (decide_eq_true hw)
  | found _ hr =>
    have hkey : ∀ r : ShellRecord,
        ({ r with seen := true, info := s.screen.shellInfo w } : ShellRecord).window = r.window := fun _ => rfl
    have hsingle := hs.single
    rw [← map_amend hkey w] at hsingle
    have hbounded := hs.bounded
    rw [← length_amend ShellRecord.window w fun r => { r with seen := true, info := s.screen.shellInfo w }] at hbounded
    split
    · rename_i hinfo
      refine hs.append (fun _ he => absurd he List.not_mem_nil) (fun howner => ?_) hsingle hbounded
      rw [List.filterMap_nil, List.append_nil]
      exact (hs.mirrors howner).amend_same hkey hr hinfo.symm
    · refine hs.append names (fun howner => ?_) hsingle hbounded
      rw [List.filterMap_cons_some htold]
      exact (hs.mirrors howner).amend hkey hr

end Publishes

/-! ## The walk -/

/-- The records while the tree is walked, where `done` was walked and `before` are the windows that had a record. -/
structure Walked (calloc : Nat → Bool) (before : List Nat) (s : State R) (done : List Nat) : Prop where
  synced : Synced s
  seen : ∀ r ∈ s.records, r.seen = true →
    r.window ∈ done ∧ s.screen.role r.window ≠ 0 ∧ r.info = s.screen.shellInfo r.window
  visited : ∀ r ∈ s.records, r.window ∈ done → s.screen.role r.window ≠ 0 → r.seen = true
  old : ∀ r ∈ s.records, r.seen = true ∨ r.window ∈ before
  listed : ∀ w ∈ done, s.screen.role w ≠ 0 → (s.screen.desktop.heap w).realized = true → calloc w = true →
    (∃ r ∈ s.records, r.window = w) ∨ recordLimit ≤ s.records.length

namespace Walked

variable {calloc : Nat → Bool} {before done : List Nat}

/-- No record is seen at the start. -/
theorem start (h : Synced s) (calloc : Nat → Bool) :
    Walked calloc (s.records.map ShellRecord.window)
      { s with records := s.records.map fun r => { r with seen := false } } [] := by
  have hkeys : (s.records.map fun r => { r with seen := false }).map ShellRecord.window =
      s.records.map ShellRecord.window := by
    rw [List.map_map]
    rfl
  refine ⟨⟨h.admitted, h.names, fun howner => ?_, ?_, ?_⟩, ?_, ?_, ?_, ?_⟩
  · exact (h.mirrors howner).map_same (fun _ => rfl) fun _ => rfl
  · rw [hkeys]
    exact h.single
  · rw [List.length_map]
    exact h.bounded
  · intro r hr hseen
    obtain ⟨r, _, rfl⟩ := List.mem_map.1 hr
    cases hseen
  · intro r _ hr
    cases hr
  · intro r hr
    rw [← hkeys]
    exact .inr (List.mem_map_of_mem hr)
  · intro w hw
    cases hw

/-- What holds of the windows that were walked, with one more. -/
theorem forall_snoc {w : Nat} {P : Nat → Prop} (hdone : ∀ v ∈ done, P v) (hw : P w) : ∀ v ∈ done ++ [w], P v := by
  intro v hv
  rcases List.mem_append.1 hv with hv | hv
  · exact hdone v hv
  · rw [List.mem_singleton.1 hv]
    exact hw

/-- A window that gets no record: it has no role, or it has no record and there is none for it. -/
theorem skip (h : Walked calloc before s done) {w : Nat}
    (hw : s.screen.role w = 0 ∨ s.record w = none ∧
      ((s.screen.desktop.heap w).realized = false ∨ recordLimit ≤ s.records.length ∨ calloc w = false)) :
    Walked calloc before s (done ++ [w]) := by
  refine ⟨h.synced, ?_, ?_, h.old, forall_snoc h.listed fun hrole hrealized hcalloc => ?_⟩
  · intro r hr hseen
    exact ⟨List.mem_append_left _ (h.seen r hr hseen).1, (h.seen r hr hseen).2⟩
  · intro r hr hin hrole
    rcases List.mem_append.1 hin with hin | hin
    · exact h.visited r hr hin hrole
    · have hrw := List.mem_singleton.1 hin
      rcases hw with hno | ⟨hnone, _⟩
      · exact absurd (hrw ▸ hno) hrole
      · exact absurd (decide_eq_true hrw) (List.find?_eq_none.1 hnone r hr)
  · rcases hw with hno | ⟨_, hno | hfull | hno⟩
    · exact absurd hno hrole
    · rw [hrealized] at hno
      cases hno
    · exact .inr hfull
    · rw [hcalloc] at hno
      cases hno

/-- A window whose record is seen: the other records are those that were there. -/
theorem visit (h : Walked calloc before s done) {w : Nat} (ht : Synced t) (hscreen : t.screen = s.screen)
    (hrole : s.screen.role w ≠ 0) (hlength : s.records.length ≤ t.records.length)
    (hmem : ∀ r ∈ t.records, r = ⟨w, true, s.screen.shellInfo w⟩ ∨ r ∈ s.records ∧ r.window ≠ w)
    (hthere : ⟨w, true, s.screen.shellInfo w⟩ ∈ t.records)
    (hkept : ∀ r ∈ s.records, ∃ r' ∈ t.records, r'.window = r.window) :
    Walked calloc before t (done ++ [w]) := by
  refine ⟨ht, ?_, ?_, ?_, ?_⟩
  · intro r hr hseen
    rw [hscreen]
    rcases hmem r hr with rfl | ⟨hr, _⟩
    · exact ⟨List.mem_append_right _ (List.mem_singleton.2 rfl), hrole, rfl⟩
    · exact ⟨List.mem_append_left _ (h.seen r hr hseen).1, (h.seen r hr hseen).2⟩
  · intro r hr hin hrole
    rw [hscreen] at hrole
    rcases hmem r hr with rfl | ⟨hr, hne⟩
    · rfl
    · rcases List.mem_append.1 hin with hin | hin
      · exact h.visited r hr hin hrole
      · exact absurd (List.mem_singleton.1 hin) hne
  · intro r hr
    rcases hmem r hr with rfl | ⟨hr, _⟩
    · exact .inl rfl
    · exact h.old r hr
  · rw [hscreen]
    refine forall_snoc (fun v hv hv₁ hv₂ hv₃ => ?_) fun _ _ _ => .inl ⟨_, hthere, rfl⟩
    rcases h.listed v hv hv₁ hv₂ hv₃ with ⟨r, hr, hrv⟩ | hfull
    · obtain ⟨r', hr', hrr'⟩ := hkept r hr
      exact .inl ⟨r', hr', hrr'.trans hrv⟩
    · exact .inr (Nat.le_trans hfull hlength)

/-- **One window** -/
theorem publish (h : Walked calloc before s done) (w : Nat) :
    Walked calloc before (s.publish (calloc w) w) (done ++ [w]) := by
  have hspec := publish_spec s (calloc w) w
  generalize s.publish (calloc w) w = t at hspec
  have hsynced := hspec.synced h.synced
  cases hspec with
  | other hrole => exact h.skip (.inl hrole)
  | refused hnone hrefused => exact h.skip (.inr ⟨hnone, hrefused⟩)
  | fresh hrole hnone _ =>
    refine h.visit hsynced rfl hrole (Nat.le_succ _) (fun r hr => ?_) List.mem_cons_self
      fun r hr => ⟨r, List.mem_cons_of_mem _ hr, rfl⟩
    refine (List.mem_cons.1 hr).imp_right fun hr => ⟨hr, fun hrw => ?_⟩
    exact List.find?_eq_none.1 hnone r hr (decide_eq_true hrw)
  | found hrole hr₀ =>
    have hrow : ∀ r : ShellRecord, r.window = w →
        ({ r with seen := true, info := s.screen.shellInfo w } : ShellRecord) = ⟨w, true, s.screen.shellInfo w⟩ := by
      rintro r rfl
      rfl
    have hchanged := hrow _ (record_window hr₀)
    have hlength := Nat.le_of_eq
      (length_amend ShellRecord.window w (fun r => { r with seen := true, info := s.screen.shellInfo w }) s.records).symm
    refine h.visit hsynced rfl hrole hlength (fun r hr => ?_) ?_ fun r hr => ?_
    · rw [← hchanged]
      exact mem_amend h.synced.single hr₀ hr
    · rw [← hchanged]
      exact amend_mem hr₀
    · have hin := mem_amend_of_mem ShellRecord.window w (fun r => { r with seen := true, info := s.screen.shellInfo w }) hr
      rcases hin with hin | hin
      · exact ⟨r, hin, rfl⟩
      · exact ⟨_, hin, rfl⟩

/-- **The whole tree** -/
theorem walk (h : Walked calloc before s done) (f : Forest) :
    Walked calloc before (State.walk calloc f s) (done ++ f.windows) := by
  induction f generalizing s done with
  | nil =>
    rw [Forest.windows, List.append_nil]
    exact h
  | node child lastChild prevSib ihc ihs =>
    have hwalked := ihs (ihc (h.publish child))
    rw [List.append_assoc, List.append_assoc, List.singleton_append] at hwalked
    exact hwalked

end Walked

theorem walk_sends (calloc : Nat → Bool) (f : Forest) (s : State R) : Sends s (State.walk calloc f s) := by
  induction f generalizing s with
  | nil => exact Sends.refl s
  | node child lastChild prevSib ihc ihs =>
    exact ((publish_spec s (calloc child) child).sends.trans (ihc _)).trans (ihs _)

/-! ## The refresh -/

/-- The records are of windows with a role, and say what `publish` would say now. -/
def Current (s : State R) : Prop :=
  ∀ r ∈ s.records, r.window ∈ s.screen.desktop.lastChild.windows ∧ s.screen.role r.window ≠ 0 ∧
    r.info = s.screen.shellInfo r.window

/-- There are records for all windows that had one or have a role. -/
def Room (s : State R) : Prop :=
  ((s.records.map ShellRecord.window).toFinset ∪ s.surfaces.toFinset).card ≤ recordLimit

instance (s : State R) : Decidable (Room s) := inferInstanceAs (Decidable (_ ≤ _))

theorem refresh_idle (calloc : Nat → Bool) (h : s.owner = 0 ∨ s.dirty = false) : s.lorieShellRefresh calloc = s := by
  unfold State.lorieShellRefresh
  rw [if_pos (h.imp_right fun hdirty => by rw [hdirty]; rfl)]

theorem refresh_external (calloc : Nat → Bool) (howner : s.owner ≠ 0) (hdirty : s.dirty = true)
    (h : s.screen.lorieWindowManagerExternal = true) :
    s.lorieShellRefresh calloc = s.lorieShellReset.state s.owner false := by
  unfold State.lorieShellRefresh
  rw [if_neg (by rw [hdirty]; simpa using howner)]
  dsimp only
  rw [if_pos h]
  rfl

/-- A refresh that goes over the windows -/
structure Refreshed (calloc : Nat → Bool) (s t : State R) : Prop where
  screen : t.screen = s.screen
  owner : t.owner = s.owner
  sent : ∃ es, t.sent = s.sent ++ es ∧ ∀ e ∈ es, e.Names s.owner
  synced : Synced t
  current : Current t
  listed : Room s → ∀ w ∈ s.surfaces, (s.screen.desktop.heap w).realized = true → calloc w = true →
    ∃ r ∈ t.records, r.window = w

namespace Walked

variable {calloc : Nat → Bool} {before done : List Nat}

theorem removeUnseen_synced (h : Walked calloc before s done) : Synced s.removeUnseen := by
  refine h.synced.append (fun e he => ?_) (fun howner => ?_) ?_ ?_
  · obtain ⟨r, _, rfl⟩ := List.mem_map.1 he
    rfl
  · have htold : ((s.records.filter fun r => !r.seen).map fun r => Event.shell s.owner r.window none).filterMap
        (Event.told s.owner) = (s.records.filter fun r => !r.seen).map fun r => (r.window, none) := by
      rw [List.filterMap_map]
      refine List.filterMap_eq_map_iff_forall_eq_some.2 fun r _ => ?_
      exact if_pos rfl
    rw [htold]
    exact (h.synced.mirrors howner).sweep h.synced.single ShellRecord.seen
  · exact h.synced.single.sublist (List.filter_sublist.map _)
  · exact Nat.le_trans (List.length_filter_le _ _) h.synced.bounded

/-- A window gets no record only when there are too many windows. -/
theorem listed_of_room (h : Walked calloc before s done) {all : Finset Nat} (hall : all.card ≤ recordLimit)
    (hbefore : ∀ w ∈ before, w ∈ all) (hdone : ∀ w ∈ done, s.screen.role w ≠ 0 → w ∈ all) {w : Nat} (hw : w ∈ done)
    (hrole : s.screen.role w ≠ 0) (hrealized : (s.screen.desktop.heap w).realized = true) (hcalloc : calloc w = true) :
    ∃ r ∈ s.records, r.window = w := by
  refine (h.listed w hw hrole hrealized hcalloc).elim id fun hfull => ?_
  have hsubset : (s.records.map ShellRecord.window).toFinset ⊆ all := by
    intro v hv
    obtain ⟨r, hr, rfl⟩ := List.mem_map.1 (List.mem_toFinset.1 hv)
    rcases h.old r hr with hseen | hin
    · exact hdone _ (h.seen r hr hseen).1 (h.seen r hr hseen).2.1
    · exact hbefore _ hin
  -- there are as many records as windows, so that this window has one of them
  have hcard : all.card ≤ (s.records.map ShellRecord.window).toFinset.card := by
    rw [List.toFinset_card_of_nodup h.synced.single, List.length_map]
    exact Nat.le_trans hall hfull
  have hmem := hdone w hw hrole
  rw [← Finset.eq_of_subset_of_card_le hsubset hcard] at hmem
  exact List.mem_map.1 (List.mem_toFinset.1 hmem)

end Walked

theorem refresh_eq (calloc : Nat → Bool) (howner : s.owner ≠ 0) (hdirty : s.dirty = true)
    (hexternal : s.screen.lorieWindowManagerExternal = false) :
    s.lorieShellRefresh calloc =
      (State.walk calloc s.screen.desktop.lastChild
        { s with dirty := false, records := s.records.map fun r => { r with seen := false } }).removeUnseen.send
        .windowsDone := by
  unfold State.lorieShellRefresh
  rw [if_neg (by rw [hdirty]; simpa using howner)]
  dsimp only
  rw [if_neg (by rw [hexternal]; exact Bool.false_ne_true)]

/-- **A refresh** that goes over the windows leaves the records that they call for. -/
theorem refreshed (h : Synced s) (calloc : Nat → Bool) (howner : s.owner ≠ 0) (hdirty : s.dirty = true)
    (hexternal : s.screen.lorieWindowManagerExternal = false) : Refreshed calloc s (s.lorieShellRefresh calloc) := by
  rw [refresh_eq calloc howner hdirty hexternal]
  have hclean : Synced { s with dirty := false } := ⟨h.admitted, h.names, h.mirrors, h.single, h.bounded⟩
  have hwalked := (Walked.start hclean calloc).walk s.screen.desktop.lastChild
  have hwalk := (Sends.records { s with dirty := false } (s.records.map fun r => { r with seen := false })).trans
    (walk_sends calloc s.screen.desktop.lastChild _)
  rw [List.nil_append] at hwalked
  generalize State.walk calloc s.screen.desktop.lastChild _ = v at hwalked hwalk
  have hscreen : v.screen = s.screen := hwalk.screen
  have hdone : ∀ e ∈ [Event.windowsDone], e.Names v.removeUnseen.owner := by
    intro e he
    rw [List.mem_singleton.1 he]
    trivial
  have hsends := (hwalk.trans (Sends.removeUnseen v)).trans (Sends.append v.removeUnseen v.removeUnseen.records hdone)
  have hswept := hwalked.removeUnseen_synced
  refine ⟨hsends.screen, hsends.owner, hsends.sent, ?_, ?_, ?_⟩
  · refine hswept.append hdone (fun howner => ?_) hswept.single hswept.bounded
    rw [List.filterMap_cons_none rfl, List.filterMap_nil, List.append_nil]
    exact hswept.mirrors howner
  · intro r hr
    obtain ⟨hr, hseen⟩ := List.mem_filter.1 hr
    have hcurrent := hwalked.seen r hr hseen
    rw [← hscreen] at hcurrent
    exact hcurrent
  · intro hroom w hw hrealized hcalloc
    obtain ⟨hin, hrole⟩ := List.mem_filter.1 hw
    have hrole := of_decide_eq_true hrole
    rw [← hscreen] at hrole hrealized
    have hsurface : ∀ x ∈ s.screen.desktop.lastChild.windows, v.screen.role x ≠ 0 → x ∈ s.surfaces := by
      intro x hx hx'
      rw [hscreen] at hx'
      exact List.mem_filter.2 ⟨hx, decide_eq_true hx'⟩
    obtain ⟨r, hr, rfl⟩ := hwalked.listed_of_room hroom
      (fun x hx => Finset.mem_union_left _ (List.mem_toFinset.2 hx))
      (fun x hx hx' => Finset.mem_union_right _ (List.mem_toFinset.2 (hsurface x hx hx'))) hin hrole hrealized hcalloc
    exact ⟨r, List.mem_filter.2 ⟨hr, hwalked.visited r hr hin hrole⟩, rfl⟩

/-! ## Runs -/

/-- The host of the owner knows the records, and unless the catalog is dirty they are what the windows call for. -/
structure Inv (s : State R) : Prop where
  synced : Synced s
  idle : s.owner = 0 → s.records = []
  current : s.dirty = false → Current s

namespace Inv

theorem init (screen : Screen R) : Inv (.init screen) where
  synced := ⟨Nat.le_refl 0, fun h => absurd rfl h, fun h => absurd rfl h, List.nodup_nil, Nat.zero_le _⟩
  idle := fun _ => rfl
  current := fun _ _ hr => absurd hr List.not_mem_nil

theorem reset (h : Inv s) : Inv s.lorieShellReset where
  synced := ⟨h.synced.admitted, fun h => absurd rfl h, fun h => absurd rfl h, List.nodup_nil, Nat.zero_le _⟩
  idle := fun _ => rfl
  current := fun _ _ hr => absurd hr List.not_mem_nil

/-- A host is told that it is not the owner. -/
theorem refuse (h : Inv s) (id : Nat) : Inv (s.state id false) where
  synced := by
    refine h.synced.append (fun e he => ?_) (fun howner => ?_) h.synced.single h.synced.bounded
    · rw [List.mem_singleton.1 he]
      exact fun h => by cases h
    · rw [List.filterMap_cons_none rfl, List.filterMap_nil, List.append_nil]
      exact h.synced.mirrors howner
  idle := h.idle
  current := h.current

/-- A host becomes the owner, or is told once more that it is. -/
theorem welcome (h : Inv s) {id : Nat} (hid : id ≠ 0) (howner : s.owner = 0 ∨ s.owner = id) (screen : Screen R) :
    Inv ({ s with
      owner := id, dirty := true, screen := screen
      admitted := if s.owner = 0 then s.sent.length else s.admitted }.state id true) := by
  refine ⟨?_, fun h => absurd h hid, fun hdirty => by cases hdirty⟩
  have hadmitted : Synced { s with
      owner := id, dirty := true, screen := screen, admitted := if s.owner = 0 then s.sent.length else s.admitted } := by
    by_cases hzero : s.owner = 0
    · rw [if_pos hzero, h.idle hzero]
      have hsince : s.sent.drop s.sent.length = [] := List.drop_length
      refine ⟨Nat.le_refl _, fun _ e he => ?_, fun _ => ?_, List.nodup_nil, Nat.zero_le _⟩
      · rw [State.since, hsince] at he
        cases he
      · rw [State.told, State.since, hsince]
        exact Mirrors.nil
    · rw [if_neg hzero]
      obtain rfl := howner.resolve_left hzero
      exact ⟨h.synced.admitted, h.synced.names, h.synced.mirrors, h.synced.single, h.synced.bounded⟩
  refine hadmitted.append (fun e he => ?_) (fun hne => ?_) hadmitted.single hadmitted.bounded
  · rw [List.mem_singleton.1 he]
    exact fun _ => rfl
  · rw [List.filterMap_cons_none rfl, List.filterMap_nil, List.append_nil]
    exact hadmitted.mirrors hne

theorem configure (h : Inv s) (id : Nat) (width height : Int) (screen : Screen R) :
    Inv (s.lorieShellConfigure id width height screen) := by
  unfold State.lorieShellConfigure
  split
  · exact h
  · rename_i hid
    split
    · exact h.refuse id
    · rename_i hother
      split
      · exact h.reset.refuse id
      · split
        · split
          · exact h.reset.refuse id
          · exact h.refuse id
        · rw [not_and_or, not_not, not_not] at hother
          exact h.welcome hid hother screen

theorem change (h : Inv s) (screen : Screen R) : Inv { s.lorieShellGeometryChanged with screen := screen } := by
  unfold State.lorieShellGeometryChanged
  split
  · exact ⟨⟨h.synced.admitted, h.synced.names, h.synced.mirrors, h.synced.single, h.synced.bounded⟩, h.idle,
      fun hdirty => by cases hdirty⟩
  · rename_i howner
    refine ⟨⟨h.synced.admitted, h.synced.names, h.synced.mirrors, h.synced.single, h.synced.bounded⟩, h.idle,
      fun _ r hr => ?_⟩
    rw [h.idle (not_not.1 howner)] at hr
    cases hr

theorem refresh (h : Inv s) (calloc : Nat → Bool) : Inv (s.lorieShellRefresh calloc) := by
  by_cases hidle : s.owner = 0 ∨ s.dirty = false
  · rw [refresh_idle calloc hidle]
    exact h
  · rw [not_or, Bool.not_eq_false] at hidle
    cases hexternal : s.screen.lorieWindowManagerExternal with
    | true =>
      rw [refresh_external calloc hidle.1 hidle.2 hexternal]
      exact h.reset.refuse s.owner
    | false =>
      have hrefreshed := refreshed h.synced calloc hidle.1 hidle.2 hexternal
      refine ⟨hrefreshed.synced, fun hzero => ?_, fun _ => hrefreshed.current⟩
      exact absurd (hrefreshed.owner.symm.trans hzero) hidle.1

theorem step (h : Inv s) {a : Action R} (ht : s.step a = some t) : Inv t := by
  cases a <;> cases ht
  case lorieShellConfigure id width height screen => exact h.configure id width height screen
  case change screen => exact h.change screen
  case lorieShellReset => exact h.reset
  case lorieShellRefresh calloc => exact h.refresh calloc

theorem of_reach {screen : Screen R} (h : Reach State.step Free (.init screen) s) : Inv s :=
  Reach.invariant (init screen) (fun _ _ _ h _ ht => h.step ht) h

end Inv

/-! ## Who is told -/

/-- The events of a step, with the `OUTPUT_SHELL` events for the owner -/
def Tells (s t : State R) : Prop :=
  ∃ es, t.sent = s.sent ++ es ∧ ∀ id w info, Event.shell id w info ∈ es → id = s.owner ∧ id ≠ 0

theorem tells_nothing (h : t.sent = s.sent) : Tells s t :=
  ⟨[], h.trans (List.append_nil _).symm, fun _ _ _ he => absurd he List.not_mem_nil⟩

theorem tells_state {id : Nat} {available : Bool} (h : t.sent = s.sent ++ [.state id available]) : Tells s t :=
  ⟨_, h, fun _ _ _ he => nomatch List.mem_singleton.1 he⟩

theorem configure_tells (s : State R) (id : Nat) (width height : Int) (screen : Screen R) :
    Tells s (s.lorieShellConfigure id width height screen) := by
  unfold State.lorieShellConfigure
  split
  · exact tells_nothing rfl
  · split
    · exact tells_state rfl
    · split
      · exact tells_state rfl
      · split
        · split
          · exact tells_state rfl
          · exact tells_state rfl
        · exact tells_state rfl

theorem step_tells (h : Inv s) {a : Action R} (ht : s.step a = some t) : Tells s t := by
  cases a <;> cases ht
  case lorieShellConfigure id width height screen => exact configure_tells s id width height screen
  case change screen =>
    refine tells_nothing ?_
    unfold State.lorieShellGeometryChanged
    split <;> rfl
  case lorieShellReset => exact tells_nothing rfl
  case lorieShellRefresh calloc =>
    by_cases hidle : s.owner = 0 ∨ s.dirty = false
    · rw [refresh_idle calloc hidle]
      exact tells_nothing rfl
    · rw [not_or, Bool.not_eq_false] at hidle
      cases hexternal : s.screen.lorieWindowManagerExternal with
      | true =>
        rw [refresh_external calloc hidle.1 hidle.2 hexternal]
        exact tells_state rfl
      | false =>
        obtain ⟨es, hes, hnames⟩ := (refreshed h.synced calloc hidle.1 hidle.2 hexternal).sent
        refine ⟨es, hes, fun id w info he => ?_⟩
        obtain rfl : id = s.owner := hnames _ he
        exact ⟨rfl, hidle.1⟩

/-! ## The catalog -/

/-- The catalog on the host is the record list, and this is of existing windows with a role, as they are now. -/
structure Exact (s : State R) : Prop where
  catalog : ∀ w, s.catalog w = (s.record w).map ShellRecord.info
  window : ∀ r ∈ s.records, r.window ∈ s.screen.desktop.lastChild.windows ∧ s.screen.role r.window ≠ 0
  info : ∀ r ∈ s.records, r.info = s.screen.shellInfo r.window
  bounded : s.records.length ≤ 32
  single : (s.records.map ShellRecord.window).Nodup

theorem Exact.of_current (h : Synced s) (howner : s.owner ≠ 0) (hcurrent : Current s) : Exact s where
  catalog := h.mirrors howner
  window := fun r hr => ⟨(hcurrent r hr).1, (hcurrent r hr).2.1⟩
  info := fun r hr => (hcurrent r hr).2.2
  bounded := h.bounded
  single := h.single

/-- The catalog has what the records say. -/
theorem Exact.listed (h : Exact s) {w : Nat} (hw : ∃ r ∈ s.records, r.window = w) :
    s.catalog w = some (s.screen.shellInfo w) := by
  obtain ⟨r₀, hr₀, hw₀⟩ := hw
  obtain ⟨r, hr⟩ : ∃ r, s.record w = some r :=
    Option.isSome_iff_exists.1 (List.find?_isSome.2 ⟨r₀, hr₀, decide_eq_true hw₀⟩)
  rw [h.catalog, hr, Option.map_some, h.info r (List.mem_of_find?_eq_some hr), record_window hr]

/-- What may be shown is in the catalog of the owner. -/
theorem shellWindow_iff {screen : Screen R} (h : Reach State.step Free (.init screen) s) (howner : s.owner ≠ 0)
    (hexternal : s.screen.lorieWindowManagerExternal = false) (w : Nat) :
    s.lorieShellWindow w = true ↔ (s.catalog w).isSome = true := by
  unfold State.lorieShellWindow
  rw [if_neg (by rw [hexternal]; simpa using howner), State.catalog, (Inv.of_reach h).synced.mirrors howner w, entry,
    Option.isSome_map]
  rfl

/-- **The catalog of the shell** -/
theorem shell_catalog {screen : Screen R} (h : Reach State.step Free (.init screen) s) :
    (∀ calloc, s.owner ≠ 0 → s.screen.lorieWindowManagerExternal = false →
      (s.lorieShellRefresh calloc).owner = s.owner ∧ Exact (s.lorieShellRefresh calloc) ∧
        (s.dirty = true → Room s → ∀ w ∈ s.surfaces, (s.screen.desktop.heap w).realized = true → calloc w = true →
          (s.lorieShellRefresh calloc).catalog w = some (s.screen.shellInfo w))) ∧
      (s.owner ≠ 0 → ∀ e ∈ s.since, e.Names s.owner) ∧ ∀ a t, s.step a = some t → Tells s t := by
  have hinv := Inv.of_reach h
  refine ⟨fun calloc howner hexternal => ?_, hinv.synced.names, fun a t ht => step_tells hinv ht⟩
  cases hdirty : s.dirty with
  | false =>
    rw [refresh_idle calloc (.inr hdirty)]
    exact ⟨rfl, .of_current hinv.synced howner (hinv.current hdirty), nofun⟩
  | true =>
    have hrefreshed := refreshed hinv.synced calloc howner hdirty hexternal
    have hexact := Exact.of_current hrefreshed.synced (hrefreshed.owner ▸ howner) hrefreshed.current
    refine ⟨hrefreshed.owner, hexact, fun _ hroom w hw hrealized hcalloc => ?_⟩
    rw [hexact.listed (hrefreshed.listed hroom w hw hrealized hcalloc), hrefreshed.screen]

/-! A dock is shown, and its XID is used again for a window without a role. -/

/-- The window 36 under the root -/
def barDesktop (dock : Bool) : Desktop where
  atom := Name.ctorIdx
  managerWindow := none
  focus := none
  root := 35
  lastChild := .node 36 .nil .nil
  heap := fun w =>
    { id := w
      parent := if w = 36 then 35 else 0
      inputOutput := true
      overrideRedirect := false
      realized := true
      x := 0
      y := 0
      width := 100
      height := 20
      properties := fun
        | .netWmWindowType => if w = 36 ∧ dock then some ⟨Name.ctorIdx .atom, 32, [Name.ctorIdx .typeDock]⟩ else none
        | _ => none
      number := 0
      wasRealized := true
      originX := 0
      originY := 0
      borderWidth := 0
      considered := false }
  linked := by simp [Forest.Linked]
  nodup := by decide
  nonzero := by decide
  parent_root := rfl

/-- Regions without rectangles -/
def noRegions : Regions Unit := ⟨(), fun _ _ _ => (), fun _ _ => (), fun _ _ => (), fun _ => [], fun _ => (), fun _ => none⟩

def barScreen (dock : Bool) : Screen Unit where
  desktop := barDesktop dock
  regions := noRegions
  width := 800
  height := 600
  netWmStrutPartial := fun _ => none
  netWmStrut := fun w => if w = 36 then some ⟨Name.ctorIdx .cardinal, 32, [0, 0, 20, 0]⟩ else none
  selection := none

def reusedRun : List (Action Unit) :=
  [.lorieShellConfigure 7 800 600 (barScreen true), .lorieShellConfigure 8 800 600 (barScreen true),
    .lorieShellRefresh fun _ => true, .change (barScreen false)]

theorem shell_catalog_reused : ∃ s, exec State.step (.init (barScreen true)) reusedRun = some s ∧
    s.catalog 36 = some ((barScreen true).shellInfo 36) ∧ Exact (s.lorieShellRefresh fun _ => true) ∧
    (s.lorieShellRefresh fun _ => true).catalog 36 = none := by
  obtain ⟨s, hs, hcatalog, howner, hexternal, hgone⟩ : ∃ s, exec State.step (.init (barScreen true)) reusedRun = some s ∧
      s.catalog 36 = some ((barScreen true).shellInfo 36) ∧ s.owner ≠ 0 ∧ s.screen.lorieWindowManagerExternal = false ∧
      (s.lorieShellRefresh fun _ => true).catalog 36 = none :=
    ⟨_, rfl, by decide, by decide, by decide, by decide⟩
  exact ⟨s, hs, hcatalog, ((shell_catalog (Reach.of_exec reusedRun hs)).1 _ howner hexternal).2.1, hgone⟩

end Lorie.Windows.Shell
