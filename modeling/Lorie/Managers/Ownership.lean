import Lorie.Managers.Model

/-!
# The managers give way

The two managers are services that own their selections (`Lib.Custody`): the model refines the abstract one.

- `State.custody`: what the services are here; `custody_freeResource`, `custody_name`: what the callbacks do to them;
- `step_custody`: every step is one of the services, or none; `custody_of_reach`;
- `windows_of_managers`: in every run, windows are freed at most once, and kept by their managers as long as they exist;
- `managers_own_selections`: as long as no client names them as its own, they own their selections.
-/

namespace Lorie.Managers

open Lorie.Lib Lorie.Lib.XSettings

namespace State

/-- The windows of the managers -/
def kept (s : State) : SelectionName → Option Nat
  | .settings => s.settingsWindow
  | .manager => s.managerWindow

/-- The managers as services -/
def custody (s : State) : Custody SelectionName Nat where
  live := {w | w = s.root ∨ w ∈ s.windows}
  owner := s.owner
  own name := s.client name = some 0
  kept := s.kept
  made := {w | w ∈ s.made}
  freed := s.freed

/-- A manager that keeps a window observes its selection, and the root is no window of a client. -/
structure Sound (s : State) : Prop where
  observing : s.settingsWindow ≠ none → s.observing = true
  root_out : s.root ∉ s.windows
  root_made : s.root ∉ s.madeWindows
  housed : s.custody.Housed
  kept : s.custody.Kept

/-- The abstract history has the windows of the managers. -/
theorem custody_made {s : State} {w : Nat} : s.custody.Made w ↔ w ∈ s.madeWindows := by
  simp [Custody.Made, custody, madeWindows]

theorem madeWindows_cons {s t : State} {name : SelectionName} {w : Nat} (h : t.made = (name, w) :: s.made) :
    t.madeWindows = w :: s.madeWindows := by
  unfold madeWindows
  rw [h, List.map_cons]

/-- Before `ddxReady` no manager keeps a window. -/
def Unready (s : State) : Prop := s.ready = false → ∀ name, s.kept name = none

end State

/-! ## The callbacks -/

namespace State

variable (s : State) (name : SelectionName)

/-- A manager forgets its window. -/
def forget : State :=
  match name with
  | .settings => { s with settingsWindow := none }
  | .manager =>
    match s.managerWindow with
    | none => s
    | some old => { s with managerWindow := none }.removeProperties old

theorem removeProperties_eq (old : Nat) :
    s.removeProperties old = { s with properties := (s.removeProperties old).properties } := by
  unfold removeProperties
  split <;> rfl

/-- It loses nothing else but properties. -/
theorem forget_eq : s.forget name = { s with
    properties := (s.forget name).properties
    settingsWindow := Function.update s.kept name none .settings
    managerWindow := Function.update s.kept name none .manager } := by
  cases name with
  | settings => rfl
  | manager =>
    unfold forget
    cases hmanager : s.managerWindow with
    | none =>
      obtain ⟨⟩ := s
      cases hmanager
      rfl
    | some old =>
      dsimp only
      rw [removeProperties_eq]
      rfl

theorem kept_forget : (s.forget name).kept = Function.update s.kept name none := by
  rw [forget_eq]
  funext other
  cases other <;> rfl

end State

section Callbacks

variable {s : State} {name : SelectionName} {w : Nat}

theorem owner_setSelection (s : State) (name : SelectionName) (selection : Selection) :
    (s.setSelection name selection).owner = Function.update s.owner name selection.window := by
  funext other
  unfold State.owner State.setSelection
  by_cases h : other = name
  · subst h
    simp only [Function.update_self]
    rfl
  · simp only [Function.update_of_ne h]

theorem client_setSelection (s : State) (name : SelectionName) (selection : Selection) :
    (s.setSelection name selection).client = Function.update s.client name selection.client := by
  funext other
  unfold State.client State.setSelection
  by_cases h : other = name
  · subst h
    simp only [Function.update_self]
    rfl
  · simp only [Function.update_of_ne h]

theorem managerChanged_settings (free : FreeResource) (s : State) (kind : Kind) :
    s.managerChanged free .settings kind = s := by
  unfold State.managerChanged
  cases s.managerWindow <;> rfl

theorem selectionChanged_manager (free : FreeResource) (s : State) (kind : Kind) :
    s.selectionChanged free .manager kind = s := by
  unfold State.selectionChanged
  cases s.settingsWindow <;> rfl

/-- A manager without a window does nothing. -/
theorem callbacks_none (free : FreeResource) (kind : Kind) (hkept : s.kept name = none) : s.callbacks free name kind = s := by
  cases name with
  | settings =>
    have hwindow : s.settingsWindow = none := hkept
    unfold State.callbacks
    rw [managerChanged_settings]
    unfold State.selectionChanged
    rw [hwindow]
    exact ite_self s
  | manager =>
    have hwindow : s.managerWindow = none := hkept
    unfold State.callbacks
    rw [selectionChanged_manager, ite_self]
    unfold State.managerChanged
    rw [hwindow]

/-- **What the callbacks do** -/
theorem callbacks_some (free : FreeResource) (kind : Kind) (hobserving : s.settingsWindow ≠ none → s.observing = true)
    (hkept : s.kept name = some w) :
    s.callbacks free name kind =
      if kind = .windowDestroy then s.forget name
      else if kind = .setOwner ∧ s.owner name ≠ some w then free { s.forget name with freed := w :: s.freed } w
      else s := by
  cases name with
  | settings =>
    have hwindow : s.settingsWindow = some w := hkept
    have hobs : s.observing = true := hobserving (by rw [hwindow]; exact Option.some_ne_none w)
    unfold State.callbacks
    rw [managerChanged_settings, if_pos hobs]
    unfold State.selectionChanged
    rw [hwindow]
    cases kind <;> rfl
  | manager =>
    have hwindow : s.managerWindow = some w := hkept
    unfold State.callbacks
    rw [selectionChanged_manager, ite_self]
    unfold State.managerChanged State.forget
    rw [hwindow]
    simp only [ne_eq, not_true_eq_false, if_false]
    have hfreed : ({ s with managerWindow := none }.removeProperties w).freed = s.freed := by
      rw [State.removeProperties_eq]
    rw [hfreed]

/-- A manager whose selection names its own window does nothing. -/
theorem callbacks_own (free : FreeResource) (hobserving : s.settingsWindow ≠ none → s.observing = true)
    (hkept : s.kept name = some w) (howner : s.owner name = some w) : s.callbacks free name .setOwner = s := by
  rw [callbacks_some free .setOwner hobserving hkept, if_neg nofun, if_neg fun h => h.2 howner]

theorem forget_none (hkept : s.kept name = none) : s.forget name = s := by
  cases name with
  | settings =>
    have hwindow : s.settingsWindow = none := hkept
    obtain ⟨⟩ := s
    cases hwindow
    rfl
  | manager =>
    have hwindow : s.managerWindow = none := hkept
    unfold State.forget
    rw [hwindow]

theorem loseOwner_windowDestroy (free : FreeResource) (hobserving : s.settingsWindow ≠ none → s.observing = true)
    (name : SelectionName) : s.loseOwner free .windowDestroy name = (s.forget name).setSelection name {} := by
  unfold State.loseOwner
  cases hkept : s.kept name with
  | none => rw [callbacks_none free .windowDestroy hkept, forget_none hkept]
  | some w => rw [callbacks_some free .windowDestroy hobserving hkept, if_pos rfl]

theorem loseOwner_clientClose (free : FreeResource) (hobserving : s.settingsWindow ≠ none → s.observing = true)
    (name : SelectionName) : s.loseOwner free .clientClose name = s.setSelection name {} := by
  unfold State.loseOwner
  cases hkept : s.kept name with
  | none => rw [callbacks_none free .clientClose hkept]
  | some w =>
    rw [callbacks_some free .clientClose hobserving hkept, if_neg nofun, if_neg]
    rintro ⟨h, -⟩
    cases h

/-- Besides its services, a state loses windows at most. -/
structure State.Within (s t : State) : Prop where
  root : t.root = s.root
  ready : t.ready = s.ready
  observing : t.observing = s.observing
  made : t.made = s.made
  windows : t.windows ⊆ s.windows

theorem State.Within.trans {r s t : State} (h₁ : r.Within s) (h₂ : s.Within t) : r.Within t :=
  ⟨h₂.root.trans h₁.root, h₂.ready.trans h₁.ready, h₂.observing.trans h₁.observing, h₂.made.trans h₁.made,
    List.Subset.trans h₂.windows h₁.windows⟩

theorem within_same {s t : State} (hroot : t.root = s.root) (hready : t.ready = s.ready) (hobserving : t.observing = s.observing)
    (hmade : t.made = s.made) (hwindows : t.windows = s.windows) : s.Within t :=
  ⟨hroot, hready, hobserving, hmade, hwindows ▸ List.Subset.refl _⟩

theorem within_forget (s : State) (name : SelectionName) : s.Within (s.forget name) := by
  rw [State.forget_eq]
  exact within_same rfl rfl rfl rfl rfl

theorem custody_setSelection (s : State) (name : SelectionName) (selection : Selection) :
    (s.setSelection name selection).custody = { s.custody with
      owner := Function.update s.owner name selection.window
      own := Function.update s.custody.own name (selection.client = some 0) } := by
  have hown : (fun other => decide ((s.setSelection name selection).client other = some 0)) =
      Function.update s.custody.own name (selection.client = some 0) := by
    funext other
    rw [client_setSelection]
    by_cases h : other = name
    · subst h
      simp only [Function.update_self]
    · simp only [Function.update_of_ne h]
      rfl
  have howner := owner_setSelection s name selection
  unfold State.custody at hown ⊢
  rw [hown, howner]
  rfl

theorem custody_forget (s : State) (name : SelectionName) :
    (s.forget name).custody = { s.custody with kept := Function.update s.kept name none } := by
  have hkept := s.kept_forget name
  unfold State.custody
  rw [hkept, s.forget_eq name]
  rfl

/-- One round of `DeleteWindowFromAnySelections` -/
def State.lose (w : Nat) (s : State) (name : SelectionName) : State :=
  if s.owner name = some w then (s.forget name).setSelection name {} else s

theorem custody_lose (w : Nat) (s : State) (name : SelectionName) : (s.lose w name).custody = s.custody.lose w name := by
  unfold State.lose Custody.lose
  by_cases h : s.owner name = some w
  · have howner : (s.forget name).owner = s.owner := congrArg Custody.owner (custody_forget s name)
    have hif : s.custody.owner name = some w := h
    rw [if_pos h, if_pos hif, custody_setSelection, custody_forget, howner]
    rfl
  · have hif : ¬s.custody.owner name = some w := h
    rw [if_neg h, if_neg hif]

theorem within_lose (w : Nat) (s : State) (name : SelectionName) : s.Within (s.lose w name) := by
  unfold State.lose
  split
  · exact (within_forget s name).trans (within_same rfl rfl rfl rfl rfl)
  · exact within_same rfl rfl rfl rfl rfl

theorem observing_forget (hobserving : s.settingsWindow ≠ none → s.observing = true) (name : SelectionName) :
    (s.forget name).settingsWindow ≠ none → (s.forget name).observing = true := by
  intro h
  refine (within_forget s name).observing.trans (hobserving fun hnone => h ?_)
  change (s.forget name).kept .settings = none
  rw [State.kept_forget]
  by_cases hname : name = .settings
  · rw [← hname, Function.update_self]
  · rw [Function.update_of_ne fun h => hname h.symm]
    exact hnone

theorem observing_lose (w : Nat) (hobserving : s.settingsWindow ≠ none → s.observing = true) (name : SelectionName) :
    (s.lose w name).settingsWindow ≠ none → (s.lose w name).observing = true := by
  unfold State.lose
  split
  · exact observing_forget hobserving name
  · exact hobserving

theorem loseWindow_eq (free : FreeResource) (w : Nat) (hobserving : s.settingsWindow ≠ none → s.observing = true)
    (name : SelectionName) : s.loseWindow free w name = s.lose w name := by
  unfold State.loseWindow State.lose
  rw [loseOwner_windowDestroy free hobserving]

theorem freeResource_eq (hobserving : s.settingsWindow ≠ none → s.observing = true) (hw : w ∈ s.windows) :
    freeResource s w =
      (((s.removeWindow w).lose w .settings).lose w .manager).removeAllProperties w := by
  unfold freeResource
  obtain ⟨n, hn⟩ := Nat.exists_eq_succ_of_ne_zero (List.length_pos_of_mem hw).ne'
  have hobs : (s.removeWindow w).settingsWindow ≠ none → (s.removeWindow w).observing = true := hobserving
  rw [hn]
  unfold free
  rw [if_pos hw, List.foldl_cons, List.foldl_cons, List.foldl_nil, loseWindow_eq (free n) w hobs,
    loseWindow_eq (free n) w (observing_lose w hobs .settings)]

/-- **A window that goes**: the managers hear of it when it owns their selections. -/
theorem custody_freeResource (hobserving : s.settingsWindow ≠ none → s.observing = true) (hroot : s.root ∉ s.windows)
    (hw : w ∈ s.windows) : (freeResource s w).custody = s.custody.gone w := by
  rw [freeResource_eq hobserving hw]
  have hproperties (t : State) : (t.removeAllProperties w).custody = t.custody := rfl
  have hremove : (s.removeWindow w).custody = { s.custody with live := s.custody.live \ {w} } := by
    have hne : s.root ≠ w := fun h => hroot (h ▸ hw)
    have hlive : {v | v = s.root ∨ v ∈ s.windows.filter (· ≠ w)} = {v | v = s.root ∨ v ∈ s.windows} \ {w} := by
      ext v
      simp only [List.mem_filter, decide_eq_true_eq, Set.mem_ofPred_eq, Set.mem_sdiff, Set.mem_singleton_iff]
      grind
    unfold State.custody State.removeWindow
    rw [hlive]
    rfl
  have hall := s.custody.foldl_lose_all w (l := [.settings, .manager]) fun name => by cases name <;> decide
  rw [hproperties, custody_lose, custody_lose, hremove]
  exact hall

theorem freeResource_of_not_mem (hw : w ∉ s.windows) : freeResource s w = s := by
  unfold freeResource
  cases s.windows.length with
  | zero => rfl
  | succ n => exact if_neg hw

theorem within_freeResource (hobserving : s.settingsWindow ≠ none → s.observing = true) (w : Nat) :
    s.Within (freeResource s w) := by
  by_cases hw : w ∈ s.windows
  · have hremove : s.Within (s.removeWindow w) := ⟨rfl, rfl, rfl, rfl, fun v hv => (List.mem_filter.1 hv).1⟩
    rw [freeResource_eq hobserving hw]
    exact (hremove.trans (within_lose w _ _)).trans ((within_lose w _ _).trans (within_same rfl rfl rfl rfl rfl))
  · rw [freeResource_of_not_mem hw]
    exact within_same rfl rfl rfl rfl rfl

/-- A window of a manager is freed, also when it went before. -/
theorem custody_freeResource_housed (hobserving : s.settingsWindow ≠ none → s.observing = true) (hroot : s.root ∉ s.windows)
    (hhoused : s.custody.Housed) (hw : w ≠ s.root) : (freeResource s w).custody = s.custody.gone w := by
  by_cases hmem : w ∈ s.windows
  · exact custody_freeResource hobserving hroot hmem
  · have hlive : w ∉ s.custody.live := fun h => h.elim hw hmem
    rw [freeResource_of_not_mem hmem, Custody.gone_of_not_mem hhoused hlive]

/-- A manager frees its window. -/
theorem custody_forget_free (hobserving : s.settingsWindow ≠ none → s.observing = true) (hroot : s.root ∉ s.windows)
    (hhoused : s.custody.Housed) (hw : w ≠ s.root) (name : SelectionName) :
    (freeResource { s.forget name with freed := w :: s.freed } w).custody = s.custody.free name w ∧
      s.Within (freeResource { s.forget name with freed := w :: s.freed } w) := by
  obtain ⟨u, hu⟩ : ∃ u, u = { s.forget name with freed := w :: s.freed } := ⟨_, rfl⟩
  have hwithin : s.Within u := by
    rw [hu]
    exact (within_forget s name).trans (within_same rfl rfl rfl rfl rfl)
  have hcustody : u.custody = { s.custody with kept := Function.update s.kept name none, freed := w :: s.freed } := by
    rw [hu]
    exact congrArg (fun c : Custody SelectionName Nat => { c with freed := w :: s.freed }) (custody_forget s name)
  have hobs : u.settingsWindow ≠ none → u.observing = true := by
    rw [hu]
    exact observing_forget hobserving name
  have hout : u.root ∉ u.windows := by
    rw [hwithin.root]
    exact fun hmem => hroot (hwithin.windows hmem)
  have hhoused' : u.custody.Housed := by
    rw [hcustody]
    exact hhoused
  rw [← hu]
  refine ⟨?_, hwithin.trans (within_freeResource hobs w)⟩
  rw [custody_freeResource_housed hobs hout hhoused' (hwithin.root ▸ hw), hcustody]
  rfl

/-- **A client names another owner**, and the manager gives way. -/
theorem custody_name (h : s.Sound) {selection : Selection} (ho : ∀ w, selection.window = some w → w ∈ s.custody.live)
    (hclient : selection.client ≠ some 0) (name : SelectionName) :
    ((s.setSelection name selection).callbacks freeResource name .setOwner).custody =
      s.custody.name name selection.window ∧
    s.Within ((s.setSelection name selection).callbacks freeResource name .setOwner) := by
  obtain ⟨u, hu⟩ : ∃ u, u = s.setSelection name selection := ⟨_, rfl⟩
  have hwithin : s.Within u := hu ▸ within_same rfl rfl rfl rfl rfl
  have hset : u.custody = s.custody.setOwner name selection.window := by
    rw [hu, custody_setSelection, decide_eq_false hclient]
    rfl
  have hobserving : u.settingsWindow ≠ none → u.observing = true := hu ▸ h.observing
  have hkeeps : u.kept name = s.kept name := hu ▸ rfl
  have howner : u.owner name = selection.window := by
    rw [hu, owner_setSelection, Function.update_self]
  rw [← hu]
  unfold Custody.name
  cases hkept : s.kept name with
  | none =>
    have hnone : s.custody.kept name = none := hkept
    rw [callbacks_none freeResource .setOwner (hkeeps.trans hkept), hnone]
    exact ⟨hset, hwithin⟩
  | some w =>
    have hsome : s.custody.kept name = some w := hkept
    rw [callbacks_some freeResource .setOwner hobserving (hkeeps.trans hkept), if_neg nofun, howner, hsome]
    by_cases hsame : selection.window = some w
    · rw [if_neg fun h => h.2 hsame]
      dsimp only
      rw [if_pos hsame]
      exact ⟨hset, hwithin⟩
    · rw [if_pos ⟨rfl, hsame⟩]
      dsimp only
      rw [if_neg hsame]
      have hroot : w ≠ u.root := fun hw =>
        h.root_made (hwithin.root ▸ hw ▸ State.custody_made.1 ⟨name, h.kept.kept_made name w hkept⟩)
      have hout : u.root ∉ u.windows := hu ▸ h.root_out
      have hhoused : u.custody.Housed := hset ▸ h.housed.setOwner ho
      obtain ⟨hcustody, hfree⟩ := custody_forget_free hobserving hout hhoused hroot name
      exact ⟨hcustody.trans (by rw [hset]), hwithin.trans hfree⟩

end Callbacks

/-! ## The other operations -/

section Operations

variable {s : State} {name : SelectionName}

/-- Nothing changes that the services or the conditions on them read. -/
structure State.Same (s t : State) : Prop where
  custody : t.custody = s.custody
  root : t.root = s.root
  ready : t.ready = s.ready
  observing : t.observing = s.observing
  made : t.made = s.made
  windows : t.windows = s.windows

theorem State.Same.trans {r s t : State} (h₁ : r.Same s) (h₂ : s.Same t) : r.Same t :=
  ⟨h₂.custody.trans h₁.custody, h₂.root.trans h₁.root, h₂.ready.trans h₁.ready, h₂.observing.trans h₁.observing,
    h₂.made.trans h₁.made, h₂.windows.trans h₁.windows⟩

theorem State.Same.within {s t : State} (h : s.Same t) : s.Within t :=
  within_same h.root h.ready h.observing h.made h.windows

theorem same_changeProperty (s : State) (success : Bool) (window : Option Nat) (property : PropertyName) (value : Property) :
    s.Same (s.changeProperty success window property value) := by
  unfold State.changeProperty
  split <;> exact ⟨rfl, rfl, rfl, rfl, rfl, rfl⟩

theorem same_publish (s : State) (a : PublishAnswers) : s.Same (s.publish a) := by
  have hresources : s.Same (s.publishResources a.resources) := by
    unfold State.publishResources
    split
    · have hset : s.Same { s with resources := resourceText s.monitorResolution } := ⟨rfl, rfl, rfl, rfl, rfl, rfl⟩
      exact hset.trans (same_changeProperty ..)
    · exact ⟨rfl, rfl, rfl, rfl, rfl, rfl⟩
  have hsettings (t : State) : t.Same (t.publishSettings a.settings) := by
    unfold State.publishSettings
    split
    · exact ⟨rfl, rfl, rfl, rfl, rfl, rfl⟩
    · split
      · have hset : t.Same { t with serial := t.serial + 1 } := ⟨rfl, rfl, rfl, rfl, rfl, rfl⟩
        exact hset.trans (same_changeProperty ..)
      · exact ⟨rfl, rfl, rfl, rfl, rfl, rfl⟩
  exact hresources.trans (hsettings _)

theorem setSelection_setSelection (s : State) (name : SelectionName) (first second : Selection) :
    (s.setSelection name first).setSelection name second = s.setSelection name second := by
  unfold State.setSelection
  simp only [Function.update_idem]

/-- The record of a selection, with or without a window of the manager -/
theorem claim_cases (s : State) (name : SelectionName) (a : State.ClaimAnswers) :
    (∃ t, s.claim name a = (t, none) ∧ (t = s ∨ s.selections name = none ∧ t = s.setSelection name {})) ∨
      ∃ w, a.window = some w ∧ s.claim name a =
        ({ s.setSelection name { window := some w, client := some 0 } with
          windows := w :: s.windows, made := (name, w) :: s.made }, some w) := by
  unfold State.claim
  cases hrecord : s.selections name with
  | none =>
    dsimp only
    split
    · cases hwindow : a.window with
      | none => exact .inl ⟨_, rfl, .inr ⟨rfl, rfl⟩⟩
      | some w =>
        refine .inr ⟨w, rfl, ?_⟩
        unfold State.own
        dsimp only
        rw [setSelection_setSelection]
        rfl
    · exact .inl ⟨s, rfl, .inl rfl⟩
  | some selection =>
    dsimp only
    split
    · exact .inl ⟨s, rfl, .inl rfl⟩
    · cases hwindow : a.window with
      | none => exact .inl ⟨s, rfl, .inl rfl⟩
      | some w => exact .inr ⟨w, rfl, rfl⟩

theorem custody_record (h : s.selections name = none) : (s.setSelection name {}).custody = s.custody := by
  have howner : s.owner name = none := by
    unfold State.owner
    rw [h]
    rfl
  have hclient : s.custody.own name = false := by
    unfold State.custody State.client
    dsimp only
    rw [h]
    rfl
  rw [custody_setSelection]
  have hupdate : Function.update s.owner name none = s.owner := by
    rw [← howner, Function.update_eq_self]
  have hown : Function.update s.custody.own name false = s.custody.own := by
    rw [← hclient, Function.update_eq_self]
  have hnone : decide ((none : Option Nat) = some 0) = false := rfl
  dsimp only
  rw [hnone, hown, hupdate]
  rfl

/-- A window of a manager that stands in the record -/
theorem custody_take (s : State) (name : SelectionName) (w : Nat) {t : State} (hroot : t.root = s.root)
    (hwindows : t.windows = w :: s.windows) (hmade : t.made = (name, w) :: s.made) (hfreed : t.freed = s.freed)
    (hselections : t.selections = (s.setSelection name { window := some w, client := some 0 }).selections)
    (hkept : t.kept = Function.update s.kept name (some w)) : t.custody = s.custody.take name w := by
  have hlive : {v | v = t.root ∨ v ∈ t.windows} = insert w s.custody.live := by
    ext v
    rw [hroot, hwindows]
    simp only [List.mem_cons, Set.mem_ofPred_eq, Set.mem_insert_iff, State.custody]
    grind
  have hcons : {v | v ∈ t.made} = insert (name, w) s.custody.made := by
    ext v
    rw [hmade]
    simp only [List.mem_cons, Set.mem_ofPred_eq, Set.mem_insert_iff, State.custody]
  have howner : t.owner = Function.update s.owner name (some w) := by
    rw [← owner_setSelection s name ⟨some w, some 0⟩]
    unfold State.owner
    rw [hselections]
  have hset := custody_setSelection s name ⟨some w, some 0⟩
  have hown : t.custody.own = Function.update s.custody.own name true := by
    have h := congrArg Custody.own hset
    unfold State.custody State.client at h ⊢
    dsimp only at h ⊢
    rw [hselections]
    exact h
  ext : 1
  · exact hlive
  · exact howner
  · exact hown
  · exact hkept
  · exact hcons
  · exact hfreed

/-- Nothing happened to the services, or a manager made a window and took its selection. -/
def State.Takes (s t : State) (name : SelectionName) (window : Option Nat) : Prop :=
  (t.custody = s.custody ∧ s.Within t) ∨
    ∃ w, window = some w ∧ t.custody = s.custody.take name w ∧ t.root = s.root ∧ t.ready = s.ready ∧
      t.observing = (s.observing || name = .settings) ∧ t.windows = w :: s.windows ∧ t.made = (name, w) :: s.made

theorem State.Takes.trans {s t u : State} {window : Option Nat} (h : s.Takes t name window) (hsame : t.Same u) :
    s.Takes u name window := by
  rcases h with ⟨hcustody, hwithin⟩ | ⟨w, hw, htake, hroot, hready, hobserving, hwindows, hmade⟩
  · exact .inl ⟨hsame.custody.trans hcustody, hwithin.trans hsame.within⟩
  · exact .inr ⟨w, hw, hsame.custody.trans htake, hsame.root.trans hroot, hsame.ready.trans hready,
      hsame.observing.trans hobserving, hsame.windows.trans hwindows, hsame.made.trans hmade⟩

theorem claimSettings_takes (s : State) (a : State.ClaimAnswers) : s.Takes (s.claimSettings a) .settings a.window := by
  unfold State.claimSettings
  rcases claim_cases s .settings a with ⟨t, ht, hrecord⟩ | ⟨w, hw, ht⟩
  · rw [ht]
    rcases hrecord with rfl | ⟨hnone, rfl⟩
    · exact .inl ⟨rfl, within_same rfl rfl rfl rfl rfl⟩
    · exact .inl ⟨custody_record hnone, within_same rfl rfl rfl rfl rfl⟩
  · rw [ht]
    dsimp only
    rw [@callbacks_own _ .settings w]
    · refine .inr ⟨w, hw, custody_take s .settings w rfl rfl rfl rfl rfl ?_, rfl, rfl, (Bool.or_true _).symm, rfl, rfl⟩
      funext name
      cases name <;> rfl
    · exact fun _ => rfl
    · rfl
    · have howner := congrFun (owner_setSelection s .settings ⟨some w, some 0⟩) .settings
      rw [Function.update_self] at howner
      exact howner

theorem State.Same.takes {s t u : State} {window : Option Nat} (hsame : s.Same t) (h : t.Takes u name window) :
    s.Takes u name window := by
  rcases h with ⟨hcustody, hwithin⟩ | ⟨w, hw, htake, hroot, hready, hobserving, hwindows, hmade⟩
  · exact .inl ⟨hcustody.trans hsame.custody, hsame.within.trans hwithin⟩
  · exact .inr ⟨w, hw, by rw [htake, hsame.custody], hroot.trans hsame.root, hready.trans hsame.ready,
      by rw [hobserving, hsame.observing], by rw [hwindows, hsame.windows], by rw [hmade, hsame.made]⟩

theorem same_startDensity (h : s.settingsWindow = none) (env : State.Environment) : s.Same (s.startDensity env) := by
  have hkept : (s.startDensity env).kept = s.kept := by
    funext name
    cases name with
    | settings => exact h.symm
    | manager => rfl
  refine ⟨?_, rfl, rfl, rfl, rfl, rfl⟩
  unfold State.custody
  rw [hkept]
  rfl

theorem same_announceSettings (s : State) : s.Same s.announceSettings := by
  unfold State.announceSettings
  split <;> exact ⟨rfl, rfl, rfl, rfl, rfl, rfl⟩

theorem lorieDensityInit_takes (h : s.settingsWindow = none) (env : State.Environment) (a : State.ReadyAnswers) :
    s.Takes (s.lorieDensityInit env a) .settings a.settings.window := by
  unfold State.lorieDensityInit
  dsimp only
  refine (same_startDensity h env).takes (State.Takes.trans ?_ ((same_publish _ _).trans (same_announceSettings _)))
  split
  · exact claimSettings_takes _ _
  · exact .inl ⟨rfl, within_same rfl rfl rfl rfl rfl⟩

theorem same_publishManager (s : State) (w : Nat) (changes : Fin 4 → Bool) : s.Same (s.publishManager w changes) :=
  (same_changeProperty ..).trans ((same_changeProperty ..).trans ((same_changeProperty ..).trans (same_changeProperty ..)))

theorem lorieWindowManagerReady_takes (hobserving : s.settingsWindow ≠ none → s.observing = true) (env : State.Environment)
    (a : State.ReadyAnswers) : s.Takes (s.lorieWindowManagerReady env a) .manager a.manager.window := by
  unfold State.lorieWindowManagerReady
  split
  · exact .inl ⟨rfl, within_same rfl rfl rfl rfl rfl⟩
  · rcases claim_cases s .manager a.manager with ⟨t, ht, hrecord⟩ | ⟨w, hw, ht⟩
    · rw [ht]
      rcases hrecord with rfl | ⟨hnone, rfl⟩
      · exact .inl ⟨rfl, within_same rfl rfl rfl rfl rfl⟩
      · exact .inl ⟨custody_record hnone, within_same rfl rfl rfl rfl rfl⟩
    · rw [ht]
      have hannounce (t : State) : t.Same (t.announce .manager w) := ⟨rfl, rfl, rfl, rfl, rfl, rfl⟩
      refine State.Takes.trans ?_ ((same_publishManager _ w a.changes).trans (hannounce _))
      rw [@callbacks_own _ .manager w]
      · refine .inr ⟨w, hw, custody_take s .manager w rfl rfl rfl rfl rfl ?_, rfl, rfl, (Bool.or_false _).symm, rfl, rfl⟩
        funext name
        cases name <;> rfl
      · exact hobserving
      · rfl
      · have howner := congrFun (owner_setSelection s .manager ⟨some w, some 0⟩) .manager
        rw [Function.update_self] at howner
        exact howner

end Operations

/-! ## Steps -/

section Steps

variable {s t : State} {E : Custody SelectionName Nat → Custody.Action SelectionName Nat → Prop}

theorem State.Sound.same (h : s.Sound) (hsame : s.Same t) : t.Sound where
  observing hne := by
    have hsettings : t.kept .settings = s.kept .settings := congrFun (congrArg Custody.kept hsame.custody) .settings
    rw [hsame.observing]
    exact h.observing fun hnone => hne (hsettings.trans hnone)
  root_out := by
    rw [hsame.root, hsame.windows]
    exact h.root_out
  root_made := by
    rw [hsame.root, State.madeWindows, hsame.made]
    exact h.root_made
  housed := hsame.custody ▸ h.housed
  kept := hsame.custody ▸ h.kept

theorem unready_same (h : s.Unready) (hsame : s.Same t) : t.Unready := by
  intro hready name
  have hkept : t.kept name = s.kept name := congrFun (congrArg Custody.kept hsame.custody) _
  rw [hkept]
  exact h (hsame.ready ▸ hready) name

section Single

variable {b : Custody.Action SelectionName Nat} (hb : ∀ name w, b ≠ .take name w)
  (hstep : s.custody.step b = some t.custody)

include hb hstep

/-- A step of the services that gives no window -/
theorem State.Sound.step (h : s.Sound) (hwithin : s.Within t) : t.Sound where
  observing hne := by
    rw [hwithin.observing]
    rcases Custody.kept_step hb hstep .settings with hnone | hsame
    · exact absurd hnone hne
    · exact h.observing fun hnone => hne (hsame.trans hnone)
  root_out := by
    rw [hwithin.root]
    exact fun hmem => h.root_out (hwithin.windows hmem)
  root_made := by
    rw [hwithin.root, State.madeWindows, hwithin.made]
    exact h.root_made
  housed := h.housed.step hstep
  kept := h.kept.step hstep

theorem unready_step (h : s.Unready) (hready : t.ready = s.ready) : t.Unready := by
  intro hfalse name
  rcases Custody.kept_step hb hstep name with hnone | hsame
  · exact hnone
  · exact hsame.trans (h (hready ▸ hfalse) name)

end Single

/-- One round of `DeleteClientFromAnySelections` -/
def State.closeRound (s : State) (client : Nat) (name : SelectionName) : State :=
  if s.client name = some client then s.loseOwner freeResource .clientClose name else s

theorem closeRound_step (h : s.Sound) {client : Nat} (hclient : client ≠ 0) (name : SelectionName)
    (hE : ∀ c, E c (.leave name)) :
    (s.closeRound client name).Sound ∧ (s.Unready → (s.closeRound client name).Unready) ∧
      Reach Custody.step E s.custody (s.closeRound client name).custody := by
  unfold State.closeRound
  split
  · next hc =>
    have hown : s.custody.own name = false := by
      unfold State.custody
      dsimp only
      rw [hc]
      exact decide_eq_false fun h => hclient (Option.some.inj h)
    have hupdate : Function.update s.custody.own name false = s.custody.own := by
      rw [← hown, Function.update_eq_self]
    have hcustody : (s.setSelection name {}).custody = s.custody.leave name := by
      rw [custody_setSelection]
      have hnone : decide ((none : Option Nat) = some 0) = false := rfl
      dsimp only
      rw [hnone, hupdate]
      rfl
    have hstep : s.custody.step (.leave name) = some (s.setSelection name {}).custody :=
      hcustody ▸ Custody.step_leave hown
    have hleave (other : SelectionName) (w : Nat) : Custody.Action.leave name ≠ .take other w := fun h => by cases h
    rw [loseOwner_clientClose freeResource h.observing]
    exact ⟨h.step hleave hstep (within_same rfl rfl rfl rfl rfl), fun hu => unready_step hleave hstep hu rfl,
      Reach.refl.tail (hE _) hstep⟩
  · exact ⟨h, id, .refl⟩

/-- A manager starts. -/
theorem State.Sound.takes (h : s.Sound) {name : SelectionName} {window : Option Nat} (htakes : s.Takes t name window)
    (hnone : s.kept name = none) (hfresh : ∀ w ∈ window, w ≠ s.root ∧ w ∉ s.windows ∧ w ∉ s.madeWindows)
    (hE : ∀ c w, E c (.take name w)) : t.Sound ∧ Reach Custody.step E s.custody t.custody := by
  rcases htakes with ⟨hcustody, hwithin⟩ | ⟨w, hw, htake, hroot, hready, hobserving, hwindows, hmade⟩
  · refine ⟨⟨fun hne => ?_, ?_, ?_, hcustody ▸ h.housed, hcustody ▸ h.kept⟩, hcustody ▸ .refl⟩
    · have hsettings : t.kept .settings = s.kept .settings := congrFun (congrArg Custody.kept hcustody) .settings
      rw [hwithin.observing]
      exact h.observing fun hnone => hne (hsettings.trans hnone)
    · rw [hwithin.root]
      exact fun hmem => h.root_out (hwithin.windows hmem)
    · rw [hwithin.root, State.madeWindows, hwithin.made]
      exact h.root_made
  · obtain ⟨hne, hout, hnew⟩ := hfresh w hw
    have hstep : s.custody.step (.take name w) = some t.custody :=
      htake ▸ Custody.step_take (fun hlive => hlive.elim hne hout) (fun hmade => hnew (State.custody_made.1 hmade)) hnone
    refine ⟨⟨fun hsome => ?_, ?_, ?_, h.housed.step hstep, h.kept.step hstep⟩, Reach.refl.tail (hE _ _) hstep⟩
    · rw [hobserving]
      by_cases hname : name = .settings
      · simp only [hname, decide_true, Bool.or_true]
      · have hsettings : t.kept .settings = s.kept .settings := by
          have hkept : t.kept = (s.custody.take name w).kept := congrArg Custody.kept htake
          rw [hkept]
          exact Function.update_of_ne (fun h => hname h.symm) _ s.kept
        rw [h.observing fun hnone => hsome (hsettings.trans hnone), Bool.true_or]
    · rw [hroot, hwindows]
      exact fun hmem => (List.mem_cons.1 hmem).elim (fun h => hne h.symm) h.root_out
    · rw [hroot, State.madeWindows_cons hmade]
      exact fun hmem => (List.mem_cons.1 hmem).elim (fun h => hne h.symm) h.root_made

/-- The window of the other manager is still new. -/
theorem takes_other {name other : SelectionName} {window next : Option Nat} (h : s.Takes t name window) (hne : other ≠ name)
    (hnone : s.kept other = none) (hfresh : ∀ w ∈ next, w ≠ s.root ∧ w ∉ s.windows ∧ w ∉ s.madeWindows)
    (hdiffer : ∀ w ∈ window, next ≠ some w) :
    t.kept other = none ∧ ∀ w ∈ next, w ≠ t.root ∧ w ∉ t.windows ∧ w ∉ t.madeWindows := by
  rcases h with ⟨hcustody, hwithin⟩ | ⟨v, hv, htake, hroot, -, -, hwindows, hmade⟩
  · refine ⟨(congrFun (congrArg Custody.kept hcustody) other).trans hnone, fun w hw => ?_⟩
    obtain ⟨hroot, hout, hnew⟩ := hfresh w hw
    rw [hwithin.root, State.madeWindows, hwithin.made]
    exact ⟨hroot, fun hmem => hout (hwithin.windows hmem), hnew⟩
  · refine ⟨(congrFun (congrArg Custody.kept htake) other).trans ?_, fun w hw => ?_⟩
    · exact (Function.update_of_ne hne _ s.kept).trans hnone
    · obtain ⟨hroot', hout, hnew⟩ := hfresh w hw
      have hwv : w ≠ v := fun h => hdiffer v hv (h ▸ hw)
      rw [hroot, hwindows, State.madeWindows_cons hmade]
      exact ⟨hroot', fun hmem => (List.mem_cons.1 hmem).elim hwv hout, fun hmem => (List.mem_cons.1 hmem).elim hwv hnew⟩

/-- The clients name no window of a manager as their own. -/
def Proper (s : State) : Action → Prop
  | .setSelectionOwner name window _ => ∀ w ∈ window, s.kept name ≠ some w
  | _ => True

instance (s : State) (a : Action) : Decidable (Proper s a) := by
  unfold Proper
  split <;> infer_instance

/-- **The managers are services**: every step is a run of the services, and foreign to them if it is proper. -/
theorem step_custody {a : Action} (h : s.Sound) (hu : s.Unready) (hE : ∀ c b, Custody.Foreign c b → E c b)
    (ha : Proper s a ∨ ∀ c b, E c b) (hs : step s a = some t) :
    t.Sound ∧ t.Unready ∧ Reach Custody.step E s.custody t.custody := by
  have hsame {t : State} (hsame : s.Same t) : t.Sound ∧ t.Unready ∧ Reach Custody.step E s.custody t.custody :=
    ⟨h.same hsame, unready_same hu hsame, hsame.custody ▸ .refl⟩
  unfold step at hs
  cases a with
  | createWindow w =>
    obtain ⟨⟨hroot, hout, hnew⟩, hd⟩ := Option.ite_none_right_eq_some.1 hs
    cases hd
    have hcustody : ({ s with windows := w :: s.windows } : State).custody =
        { s.custody with live := insert w s.custody.live } := by
      have hlive : {v | v = s.root ∨ v ∈ w :: s.windows} = insert w s.custody.live := by
        ext v
        simp only [List.mem_cons, Set.mem_ofPred_eq, Set.mem_insert_iff, State.custody]
        grind
      unfold State.custody at hlive ⊢
      rw [hlive]
      rfl
    have hstep := hcustody ▸ @Custody.step_arrive _ _ _ _ s.custody w fun hmade => hnew (State.custody_made.1 hmade)
    have hforeign : s.custody.Foreign (.arrive w) := trivial
    refine ⟨⟨h.observing, ?_, h.root_made, h.housed.step hstep, h.kept.step hstep⟩, hu, Reach.refl.tail (hE _ _ hforeign) hstep⟩
    exact fun hmem => (List.mem_cons.1 hmem).elim (fun h => hroot h.symm) h.root_out
  | destroyWindow w =>
    obtain ⟨hw, hd⟩ := Option.ite_none_right_eq_some.1 hs
    cases hd
    have hwithin := within_freeResource h.observing w
    have hstep : s.custody.step (.gone w) = some (freeResource s w).custody :=
      congrArg some (custody_freeResource h.observing h.root_out hw).symm
    have hgone (name : SelectionName) (v : Nat) : Custody.Action.gone w ≠ .take name v := fun h => by cases h
    have hforeign : s.custody.Foreign (.gone w) := trivial
    exact ⟨h.step hgone hstep hwithin, unready_step hgone hstep hu hwithin.ready, Reach.refl.tail (hE _ _ hforeign) hstep⟩
  | setSelectionOwner name window client =>
    obtain ⟨⟨hclient, hexists⟩, hd⟩ := Option.ite_none_right_eq_some.1 hs
    cases hd
    have hlive : ∀ w, window = some w → w ∈ s.custody.live := fun w hw => hexists w hw
    have hne : window.map (fun _ => client) ≠ some 0 := by
      cases window with
      | none => exact fun h => by cases h
      | some w => exact fun h => hclient (Option.some.inj h)
    obtain ⟨hcustody, hwithin⟩ := @custody_name s h ⟨window, window.map fun _ => client⟩ hlive hne name
    have hstep := hcustody ▸ Custody.step_name (i := name) hlive
    have hname (other : SelectionName) (v : Nat) : Custody.Action.name name window ≠ .take other v := fun h => by cases h
    have hforeign : E s.custody (.name name window) := ha.elim (fun hp => hE _ _ hp) fun hall => hall _ _
    exact ⟨h.step hname hstep hwithin, unready_step hname hstep hu hwithin.ready, Reach.refl.tail hforeign hstep⟩
  | closeClient client =>
    obtain ⟨hclient, hd⟩ := Option.ite_none_right_eq_some.1 hs
    cases hd
    have hleave (name : SelectionName) (c : Custody SelectionName Nat) : E c (.leave name) := hE _ _ trivial
    obtain ⟨h₁, hu₁, hr₁⟩ := closeRound_step h hclient .settings (hleave _)
    obtain ⟨h₂, hu₂, hr₂⟩ := closeRound_step h₁ hclient .manager (hleave _)
    exact ⟨h₂, hu₂ (hu₁ hu), hr₁.trans hr₂⟩
  | changeProperty window name value =>
    obtain ⟨-, hd⟩ := Option.ite_none_right_eq_some.1 hs
    cases hd
    exact hsame ⟨rfl, rfl, rfl, rfl, rfl, rfl⟩
  | ready env a =>
    obtain ⟨⟨hready, hfirst, hsecond⟩, hd⟩ := Option.ite_none_right_eq_some.1 hs
    cases hd
    have htake (name : SelectionName) (c : Custody SelectionName Nat) (w : Nat) : E c (.take name w) := hE _ _ trivial
    have hdensity := lorieDensityInit_takes (hu hready .settings) env a
    obtain ⟨h₁, hr₁⟩ := h.takes hdensity (hu hready .settings)
      (fun w hw => ⟨(hfirst w hw).1, (hfirst w hw).2.1, (hfirst w hw).2.2.1⟩) (htake _)
    obtain ⟨hnone, hfresh⟩ := takes_other hdensity (by decide : SelectionName.manager ≠ .settings)
      (hu hready .manager) hsecond fun w hw hw' => (hfirst w hw).2.2.2 hw'
    have hmanager := lorieWindowManagerReady_takes h₁.observing env a
    obtain ⟨h₂, hr₂⟩ := h₁.takes hmanager hnone hfresh (htake _)
    exact ⟨⟨h₂.observing, h₂.root_out, h₂.root_made, h₂.housed, h₂.kept⟩, nofun, hr₁.trans hr₂⟩
  | setDpi dpi a =>
    obtain ⟨-, hd⟩ := Option.ite_none_right_eq_some.1 hs
    cases hd
    unfold State.lorieSetDpi
    split
    · exact hsame ⟨rfl, rfl, rfl, rfl, rfl, rfl⟩
    · have hset : s.Same { s with monitorResolution := dpi } := ⟨rfl, rfl, rfl, rfl, rfl, rfl⟩
      exact hsame (hset.trans (same_publish ..))
  | setColorScheme value a =>
    obtain ⟨-, hd⟩ := Option.ite_none_right_eq_some.1 hs
    cases hd
    unfold State.lorieSetColorScheme
    split
    · exact hsame ⟨rfl, rfl, rfl, rfl, rfl, rfl⟩
    · have hset : s.Same { s with colorScheme := value } := ⟨rfl, rfl, rfl, rfl, rfl, rfl⟩
      exact hsame (hset.trans (same_publish ..))

end Steps

/-! ## Runs -/

section Runs

variable {atom : String → Nat} {root : Nat} {monitorResolution : Int} {s : State}

theorem custody_start (atom : String → Nat) (root : Nat) (monitorResolution : Int) :
    (State.start atom root monitorResolution).custody =
      Custody.start {w | w = root ∨ w ∈ ([] : List Nat)} fun _ => none := by
  have hmade : {w | w ∈ ([] : List (SelectionName × Nat))} = ∅ := by
    ext w
    exact ⟨fun h => absurd h List.not_mem_nil, fun h => absurd h (Set.notMem_empty w)⟩
  have hown : (fun name => decide ((State.start atom root monitorResolution).client name = some 0)) = fun _ => false := rfl
  have hkept : (State.start atom root monitorResolution).kept = fun _ => none := by
    funext name
    cases name <;> rfl
  ext : 1
  · rfl
  · rfl
  · exact hown
  · exact hkept
  · exact hmade
  · rfl

theorem sound_start (atom : String → Nat) (root : Nat) (monitorResolution : Int) :
    (State.start atom root monitorResolution).Sound where
  observing h := absurd rfl h
  root_out := List.not_mem_nil
  root_made := List.not_mem_nil
  housed _ _ h := by cases h
  kept := by
    rw [custody_start]
    exact Custody.kept_of_reach (C := Free) .refl

/-- **The refinement**: runs of the managers are runs of the services. -/
theorem custody_of_reach {C : State → Action → Prop} {E : Custody SelectionName Nat → Custody.Action SelectionName Nat → Prop}
    (hE : ∀ c b, Custody.Foreign c b → E c b) (hC : ∀ s a, C s a → Proper s a ∨ ∀ c b, E c b)
    (h : Reach step C (State.start atom root monitorResolution) s) :
    (s.Sound ∧ s.Unready) ∧ Reach Custody.step E (State.start atom root monitorResolution).custody s.custody := by
  have hstart : (State.start atom root monitorResolution).Sound ∧ (State.start atom root monitorResolution).Unready := by
    refine ⟨sound_start atom root monitorResolution, fun _ name => ?_⟩
    cases name <;> rfl
  have hinv : ∀ t a u, t.Sound ∧ t.Unready → C t a → step t a = some u → u.Sound ∧ u.Unready := fun t a u ht ha hs =>
    have hstep := step_custody ht.1 ht.2 hE (hC t a ha) hs
    ⟨hstep.1, hstep.2.1⟩
  exact ⟨h.invariant (I := fun t => t.Sound ∧ t.Unready) hstart hinv,
    h.simulate_runs State.custody hstart hinv fun t a u ht ha hs => (step_custody ht.1 ht.2 hE (hC t a ha) hs).2.2⟩

/-- **Windows of managers are not lost and freed at most once**: in every run, a window that a manager made and that exists is
kept by this manager, and a window that a manager freed is gone. -/
theorem windows_of_managers (h : Reach step Free (State.start atom root monitorResolution) s) :
    (∀ w ∈ s.windows, ((.settings, w) ∈ s.made → s.settingsWindow = some w) ∧ ((.manager, w) ∈ s.made → s.managerWindow = some w)) ∧
      s.freed.Nodup ∧ ∀ w ∈ s.freed, w ∈ s.madeWindows ∧ w ∉ s.windows := by
  obtain ⟨⟨hsound, -⟩, -⟩ := custody_of_reach (E := Free) (fun _ _ _ => trivial) (fun _ _ _ => .inr fun _ _ => trivial) h
  have hkept (name : SelectionName) {w : Nat} (hlive : w ∈ s.windows) (hmade : (name, w) ∈ s.made) : s.kept name = some w :=
    hsound.kept.live_kept name w hmade (.inr hlive)
  refine ⟨fun w hlive => ⟨hkept .settings hlive, hkept .manager hlive⟩, hsound.kept.freed_nodup, fun w hw => ⟨?_, fun hlive => ?_⟩⟩
  · exact State.custody_made.1 (hsound.kept.freed_made w hw)
  · exact (hsound.kept.freed_gone w hw).1 (.inr hlive)

/-- **A manager owns its selection until it gives way**: while no client names the window of a manager as its own, a manager
that keeps a window owns its selection with it and the window exists, and then no client is the manager. -/
theorem managers_own_selections (h : Reach step Proper (State.start atom root monitorResolution) s) :
    (∀ w, s.settingsWindow = some w → s.owner .settings = some w ∧ w ∈ s.windows) ∧
      (∀ w, s.managerWindow = some w → s.owner .manager = some w ∧ w ∈ s.windows) ∧
      (s.managerWindow.isSome → s.lorieWindowManagerExternal = false) := by
  obtain ⟨⟨hsound, -⟩, hreach⟩ := custody_of_reach (E := Custody.Foreign) (fun _ _ h => h) (fun _ _ h => .inl h) h
  rw [custody_start] at hreach
  have howned := Custody.owned_of_reach hreach
  have hwindow : ∀ name w, s.kept name = some w → s.owner name = some w ∧ w ∈ s.windows := by
    intro name w hw
    obtain ⟨howner, -, hlive⟩ := howned name w hw
    have hne : w ≠ s.root := fun h => hsound.root_made (h ▸ State.custody_made.1 ⟨name, hsound.kept.kept_made name w hw⟩)
    exact ⟨howner, hlive.resolve_left hne⟩
  refine ⟨hwindow .settings, hwindow .manager, fun hsome => ?_⟩
  obtain ⟨w, hw⟩ := Option.isSome_iff_exists.1 hsome
  unfold State.lorieWindowManagerExternal
  rw [(hwindow .manager w hw).1, hw]
  simp

/-- Both managers start, and a window manager comes. -/
def managerComes : List Action :=
  [.ready ⟨none, some "1", some "1"⟩ ⟨⟨true, true, some 10⟩, ⟨true, true⟩, ⟨true, true, some 11⟩, fun _ => true⟩,
    .createWindow 20, .setSelectionOwner .manager (some 20) 1]

theorem windows_of_managers_comes : ∃ s, exec step (State.start (fun _ => 0) 1 96) managerComes = some s ∧ s.freed = [11] ∧
    (∀ w ∈ s.windows, ((.settings, w) ∈ s.made → s.settingsWindow = some w) ∧ ((.manager, w) ∈ s.made → s.managerWindow = some w)) ∧
      s.freed.Nodup ∧ ∀ w ∈ s.freed, w ∈ s.madeWindows ∧ w ∉ s.windows := by
  have hany : (exec step (State.start (fun _ => 0) 1 96) managerComes).any (fun s => s.freed = [11]) = true := by decide
  obtain ⟨s, hs, hfreed⟩ := (Option.any_eq_true _ _).1 hany
  exact ⟨s, hs, of_decide_eq_true hfreed, windows_of_managers (Reach.of_exec managerComes hs)⟩

theorem managers_own_selections_comes :
    ∃ s, Reach step Proper (State.start (fun _ => 0) 1 96) s ∧ s.settingsWindow = some 10 ∧ s.managerWindow = none ∧
      (∀ w, s.settingsWindow = some w → s.owner .settings = some w ∧ w ∈ s.windows) := by
  have hany : (exec (fun s a => if Proper s a then step s a else none) (State.start (fun _ => 0) 1 96) managerComes).any
      (fun s => s.settingsWindow = some 10 && s.managerWindow = none) = true := by decide
  obtain ⟨s, hs, hwindows⟩ := (Option.any_eq_true _ _).1 hany
  rw [Bool.and_eq_true, decide_eq_true_eq, decide_eq_true_eq] at hwindows
  have hreach : Reach step Proper (State.start (fun _ => 0) 1 96) s := Reach.of_exec_guarded managerComes hs
  exact ⟨s, hreach, hwindows.1, hwindows.2, (managers_own_selections hreach).1⟩

end Runs

end Lorie.Managers
