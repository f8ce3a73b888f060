import Lorie.Managers.Ownership

/-!
# What the managers publish

The properties of the root belong to whoever wrote them last. The managers change their own ones, and leave alone what another
client has put in their place.

- `State.Calm`: what a step does not change when it only moves windows and selections (`calm_freeResource`, `calm_callbacks`);
- `others_stay`: what others wrote on the root is kept in every run;
- `published_current`: what the managers publish is the density and the colour scheme of now.
-/

namespace Lorie.Managers

open Lorie.Lib Lorie.Lib.XSettings

namespace State

/-- The root names another manager, or none. -/
def CheckForeign (s : State) : Prop := ∀ w, s.managerWindow = some w → s.reference .supportingWmCheck ≠ some w

/-- Windows and selections move; nothing is published. -/
structure Calm (s t : State) : Prop where
  ready : t.ready = s.ready
  monitorResolution : t.monitorResolution = s.monitorResolution
  serial : t.serial = s.serial
  colorScheme : t.colorScheme = s.colorScheme
  resources : t.resources = s.resources
  settingsWindow : t.settingsWindow = s.settingsWindow ∨ t.settingsWindow = none
  managerWindow : t.managerWindow = s.managerWindow ∨ t.managerWindow = none
  windows : t.windows ⊆ s.windows
  resourceManager : t.properties none .resourceManager = s.properties none .resourceManager
  foreign : s.CheckForeign → t.properties none = s.properties none
  xsettings : ∀ w ∈ t.windows, t.properties (some w) .xsettings = s.properties (some w) .xsettings

variable {r s t : State}

theorem reference_congr (h : t.properties none = s.properties none) (name : PropertyName) :
    t.reference name = s.reference name := by
  unfold reference
  rw [h]

theorem Calm.checkForeign (h : s.Calm t) (hs : s.CheckForeign) : t.CheckForeign := by
  intro w hw
  rw [reference_congr (h.foreign hs)]
  rcases h.managerWindow with hsame | hnone
  · exact hs w (hsame ▸ hw)
  · rw [hnone] at hw
    cases hw

theorem Calm.trans (h₁ : r.Calm s) (h₂ : s.Calm t) : r.Calm t where
  ready := h₂.ready.trans h₁.ready
  monitorResolution := h₂.monitorResolution.trans h₁.monitorResolution
  serial := h₂.serial.trans h₁.serial
  colorScheme := h₂.colorScheme.trans h₁.colorScheme
  resources := h₂.resources.trans h₁.resources
  settingsWindow := by
    rcases h₂.settingsWindow with h | h
    · rw [h]
      exact h₁.settingsWindow
    · exact .inr h
  managerWindow := by
    rcases h₂.managerWindow with h | h
    · rw [h]
      exact h₁.managerWindow
    · exact .inr h
  windows := List.Subset.trans h₂.windows h₁.windows
  resourceManager := h₂.resourceManager.trans h₁.resourceManager
  foreign hr := (h₂.foreign (h₁.checkForeign hr)).trans (h₁.foreign hr)
  xsettings w hw := (h₂.xsettings w hw).trans (h₁.xsettings w (h₂.windows hw))

/-- The properties do not change. -/
theorem calm_same (hready : t.ready = s.ready) (hdpi : t.monitorResolution = s.monitorResolution) (hserial : t.serial = s.serial)
    (hscheme : t.colorScheme = s.colorScheme) (hresources : t.resources = s.resources)
    (hsettings : t.settingsWindow = s.settingsWindow ∨ t.settingsWindow = none)
    (hmanager : t.managerWindow = s.managerWindow ∨ t.managerWindow = none) (hwindows : t.windows ⊆ s.windows)
    (hproperties : t.properties = s.properties) : s.Calm t where
  ready := hready
  monitorResolution := hdpi
  serial := hserial
  colorScheme := hscheme
  resources := hresources
  settingsWindow := hsettings
  managerWindow := hmanager
  windows := hwindows
  resourceManager := by rw [hproperties]
  foreign _ := by rw [hproperties]
  xsettings _ _ := by rw [hproperties]

theorem calm_setSelection (s : State) (name : SelectionName) (selection : Selection) : s.Calm (s.setSelection name selection) :=
  calm_same rfl rfl rfl rfl rfl (.inl rfl) (.inl rfl) (List.Subset.refl _) rfl

theorem setProperty_of_ne (s : State) {window other : Option Nat} {name property : PropertyName} (value : Option Property)
    (h : other ≠ window ∨ property ≠ name) :
    (s.setProperty window name value).properties other property = s.properties other property := by
  show Function.update s.properties window (Function.update (s.properties window) name value) other property = _
  by_cases hwindow : other = window
  · subst hwindow
    rw [Function.update_self, Function.update_of_ne (h.resolve_left fun h => h rfl)]
  · rw [Function.update_of_ne hwindow]

theorem calm_forget (s : State) (name : SelectionName) : s.Calm (s.forget name) := by
  cases name with
  | settings => exact calm_same rfl rfl rfl rfl rfl (.inr rfl) (.inl rfl) (List.Subset.refl _) rfl
  | manager =>
    unfold forget
    cases hmanager : s.managerWindow with
    | none => exact calm_same rfl rfl rfl rfl rfl (.inl rfl) (.inl rfl) (List.Subset.refl _) rfl
    | some old =>
      unfold removeProperties
      dsimp only
      split
      · next href =>
        exact ⟨rfl, rfl, rfl, rfl, rfl, .inl rfl, .inr rfl, List.Subset.refl _, rfl, fun hs => absurd href (hs old hmanager),
          fun _ _ => rfl⟩
      · exact calm_same rfl rfl rfl rfl rfl (.inl rfl) (.inr rfl) (List.Subset.refl _) rfl

theorem calm_lose (w : Nat) (s : State) (name : SelectionName) : s.Calm (s.lose w name) := by
  unfold lose
  split
  · exact (calm_forget s name).trans (calm_setSelection ..)
  · exact calm_same rfl rfl rfl rfl rfl (.inl rfl) (.inl rfl) (List.Subset.refl _) rfl

/-- A window takes its properties with it. -/
theorem calm_removeAllProperties {s : State} {w : Nat} (hw : w ∉ s.windows) : s.Calm (s.removeAllProperties w) where
  ready := rfl
  monitorResolution := rfl
  serial := rfl
  colorScheme := rfl
  resources := rfl
  settingsWindow := .inl rfl
  managerWindow := .inl rfl
  windows := List.Subset.refl _
  resourceManager := rfl
  foreign _ := rfl
  xsettings v hv := by
    have hne : some v ≠ some w := fun h => hw (Option.some.inj h ▸ hv)
    exact congrFun (Function.update_of_ne hne _ s.properties) _

theorem calm_freeResource (hobserving : s.settingsWindow ≠ none → s.observing = true) (w : Nat) :
    s.Calm (freeResource s w) := by
  by_cases hw : w ∈ s.windows
  · have hremove : s.Calm (s.removeWindow w) :=
      calm_same rfl rfl rfl rfl rfl (.inl rfl) (.inl rfl) (fun v hv => (List.mem_filter.1 hv).1) rfl
    have hlose := (calm_lose w (s.removeWindow w) .settings).trans (calm_lose w _ .manager)
    have hout : w ∉ ((s.removeWindow w).lose w .settings |>.lose w .manager).windows := fun hmem =>
      of_decide_eq_true (List.mem_filter.1 (hlose.windows hmem)).2 rfl
    rw [freeResource_eq hobserving hw]
    exact (hremove.trans hlose).trans (calm_removeAllProperties hout)
  · rw [freeResource_of_not_mem hw]
    exact calm_same rfl rfl rfl rfl rfl (.inl rfl) (.inl rfl) (List.Subset.refl _) rfl

theorem calm_callbacks (hobserving : s.settingsWindow ≠ none → s.observing = true) (name : SelectionName) (kind : Kind) :
    s.Calm (s.callbacks freeResource name kind) := by
  have hsame : s.Calm s := calm_same rfl rfl rfl rfl rfl (.inl rfl) (.inl rfl) (List.Subset.refl _) rfl
  cases hkept : s.kept name with
  | none =>
    rw [callbacks_none freeResource kind hkept]
    exact hsame
  | some w =>
    rw [callbacks_some freeResource kind hobserving hkept]
    split
    · exact calm_forget s name
    · split
      · have hfreed : (s.forget name).Calm { s.forget name with freed := w :: s.freed } :=
          calm_same rfl rfl rfl rfl rfl (.inl rfl) (.inl rfl) (List.Subset.refl _) rfl
        refine ((calm_forget s name).trans hfreed).trans (calm_freeResource ?_ w)
        exact observing_forget hobserving name
      · exact hsame

theorem calm_closeRound (hobserving : s.settingsWindow ≠ none → s.observing = true) (client : Nat) (name : SelectionName) :
    s.Calm (s.closeRound client name) := by
  unfold closeRound
  split
  · rw [loseOwner_clientClose freeResource hobserving]
    exact calm_setSelection ..
  · exact calm_same rfl rfl rfl rfl rfl (.inl rfl) (.inl rfl) (List.Subset.refl _) rfl

end State

/-- The steps that move windows and selections -/
inductive Moves : Action → Prop
  | destroyWindow (w : Nat) : Moves (.destroyWindow w)
  | setSelectionOwner (name : SelectionName) (window : Option Nat) (client : Nat) : Moves (.setSelectionOwner name window client)
  | closeClient (client : Nat) : Moves (.closeClient client)

theorem calm_step {s t : State} {a : Action} (h : s.Sound) (ha : Moves a) (hs : step s a = some t) : s.Calm t := by
  unfold step at hs
  cases ha with
  | destroyWindow w =>
    obtain ⟨-, hd⟩ := Option.ite_none_right_eq_some.1 hs
    cases hd
    exact State.calm_freeResource h.observing w
  | setSelectionOwner name window client =>
    obtain ⟨-, hd⟩ := Option.ite_none_right_eq_some.1 hs
    cases hd
    refine (State.calm_setSelection s name ⟨window, window.map fun _ => client⟩).trans (State.calm_callbacks ?_ name .setOwner)
    exact h.observing
  | closeClient client =>
    obtain ⟨hclient, hd⟩ := Option.ite_none_right_eq_some.1 hs
    cases hd
    obtain ⟨h₁, -, -⟩ := closeRound_step (E := Free) h hclient .settings fun _ => trivial
    exact (State.calm_closeRound h.observing client .settings).trans (State.calm_closeRound h₁.observing client .manager)

/-! ## What others wrote -/

section Others

variable {r s t : State}

/-- What others wrote on the root is kept. -/
structure KeepsOthers (s t : State) : Prop where
  resources : s.resourcesOurs = false →
    t.properties none .resourceManager = s.properties none .resourceManager ∧ t.resourcesOurs = false
  check : s.CheckForeign → (t.properties none .supportingWmCheck = s.properties none .supportingWmCheck ∧
    t.properties none .netSupported = s.properties none .netSupported) ∧ t.CheckForeign

theorem KeepsOthers.trans (h₁ : KeepsOthers r s) (h₂ : KeepsOthers s t) : KeepsOthers r t where
  resources hr := by
    obtain ⟨hsame, hs⟩ := h₁.resources hr
    obtain ⟨hsame', ht⟩ := h₂.resources hs
    exact ⟨hsame'.trans hsame, ht⟩
  check hr := by
    obtain ⟨⟨hcheck, hsupported⟩, hs⟩ := h₁.check hr
    obtain ⟨⟨hcheck', hsupported'⟩, ht⟩ := h₂.check hs
    exact ⟨⟨hcheck'.trans hcheck, hsupported'.trans hsupported⟩, ht⟩

theorem resourcesOurs_congr (hproperty : t.properties none .resourceManager = s.properties none .resourceManager)
    (hresources : t.resources = s.resources) : t.resourcesOurs = s.resourcesOurs := by
  unfold State.resourcesOurs
  rw [hproperty, hresources]

theorem State.Calm.keepsOthers (h : s.Calm t) : KeepsOthers s t where
  resources hs := ⟨h.resourceManager, (resourcesOurs_congr h.resourceManager h.resources).trans hs⟩
  check hs := ⟨⟨congrFun (h.foreign hs) _, congrFun (h.foreign hs) _⟩, h.checkForeign hs⟩

theorem keepsOthers_refl (s : State) : KeepsOthers s s := ⟨fun h => ⟨rfl, h⟩, fun h => ⟨⟨rfl, rfl⟩, h⟩⟩

/-- The properties of the manager on the root stay. -/
theorem check_of_same (hmanager : t.managerWindow = s.managerWindow)
    (hcheck : t.properties none .supportingWmCheck = s.properties none .supportingWmCheck)
    (hsupported : t.properties none .netSupported = s.properties none .netSupported) (hs : s.CheckForeign) :
    (t.properties none .supportingWmCheck = s.properties none .supportingWmCheck ∧
      t.properties none .netSupported = s.properties none .netSupported) ∧ t.CheckForeign := by
  refine ⟨⟨hcheck, hsupported⟩, fun w hw => ?_⟩
  have href : t.reference .supportingWmCheck = s.reference .supportingWmCheck := by
    unfold State.reference
    rw [hcheck]
  rw [href]
  exact hs w (hmanager ▸ hw)

/-- A change of a property of the managers -/
theorem keepsOthers_changeProperty (s : State) (success : Bool) {window : Option Nat} {name : PropertyName} (value : Property)
    (h : window ≠ none) : KeepsOthers s (s.changeProperty success window name value) := by
  unfold State.changeProperty
  split
  · have hsame (property : PropertyName) :
        (s.setProperty window name (some value)).properties none property = s.properties none property :=
      State.setProperty_of_ne s _ (.inl h.symm)
    exact ⟨fun hs => ⟨hsame _, (resourcesOurs_congr (hsame _) rfl).trans hs⟩, check_of_same rfl (hsame _) (hsame _)⟩
  · exact keepsOthers_refl s

theorem keepsOthers_publish (s : State) (a : PublishAnswers) : KeepsOthers s (s.publish a) := by
  have hresources : KeepsOthers s (s.publishResources a.resources) := by
    unfold State.publishResources
    split
    · next hours =>
      refine ⟨fun hs => absurd hours (by rw [hs]; exact Bool.false_ne_true), fun hs => ?_⟩
      unfold State.changeProperty
      split
      · exact check_of_same rfl (State.setProperty_of_ne _ _ (.inr (by decide)))
          (State.setProperty_of_ne _ _ (.inr (by decide))) hs
      · exact check_of_same rfl rfl rfl hs
    · exact keepsOthers_refl s
  have hsettings (t : State) : KeepsOthers t (t.publishSettings a.settings) := by
    unfold State.publishSettings
    split
    · exact keepsOthers_refl t
    · split
      · have hserial : KeepsOthers t { t with serial := t.serial + 1 } := ⟨fun h => ⟨rfl, h⟩, fun h => ⟨⟨rfl, rfl⟩, h⟩⟩
        exact hserial.trans (keepsOthers_changeProperty _ _ _ (Option.some_ne_none _))
      · exact keepsOthers_refl t
  exact hresources.trans (hsettings _)

/-- No client changes a property of the root. -/
def RootKept (_ : State) : Action → Prop
  | .changeProperty none _ _ => False
  | _ => True

theorem keepsOthers_step {a : Action} (h : s.Sound) (hready : s.ready = true) (ha : RootKept s a) (hs : step s a = some t) :
    t.ready = true ∧ KeepsOthers s t := by
  unfold step at hs
  cases a with
  | createWindow w =>
    obtain ⟨-, hd⟩ := Option.ite_none_right_eq_some.1 hs
    cases hd
    exact ⟨hready, fun h => ⟨rfl, h⟩, fun h => ⟨⟨rfl, rfl⟩, h⟩⟩
  | destroyWindow w =>
    have hcalm := calm_step h (.destroyWindow w) hs
    exact ⟨hcalm.ready.trans hready, hcalm.keepsOthers⟩
  | setSelectionOwner name window client =>
    have hcalm := calm_step h (.setSelectionOwner name window client) hs
    exact ⟨hcalm.ready.trans hready, hcalm.keepsOthers⟩
  | closeClient client =>
    have hcalm := calm_step h (.closeClient client) hs
    exact ⟨hcalm.ready.trans hready, hcalm.keepsOthers⟩
  | changeProperty window name value =>
    obtain ⟨-, hd⟩ := Option.ite_none_right_eq_some.1 hs
    cases hd
    refine ⟨hready, ?_⟩
    cases window with
    | none => exact absurd ha id
    | some w =>
      have hsame (property : PropertyName) :
          (s.setProperty (some w) name value).properties none property = s.properties none property :=
        State.setProperty_of_ne s _ (.inl (Option.some_ne_none w).symm)
      exact ⟨fun hs => ⟨hsame _, (resourcesOurs_congr (hsame _) rfl).trans hs⟩, check_of_same rfl (hsame _) (hsame _)⟩
  | ready env a =>
    obtain ⟨⟨hfalse, -⟩, -⟩ := Option.ite_none_right_eq_some.1 hs
    rw [hready] at hfalse
    cases hfalse
  | setDpi dpi a =>
    obtain ⟨-, hd⟩ := Option.ite_none_right_eq_some.1 hs
    cases hd
    unfold State.lorieSetDpi
    split
    · exact ⟨hready, keepsOthers_refl s⟩
    · have hset : KeepsOthers s { s with monitorResolution := dpi } := ⟨fun h => ⟨rfl, h⟩, fun h => ⟨⟨rfl, rfl⟩, h⟩⟩
      exact ⟨(same_publish _ a).ready.trans hready, hset.trans (keepsOthers_publish _ a)⟩
  | setColorScheme value a =>
    obtain ⟨-, hd⟩ := Option.ite_none_right_eq_some.1 hs
    cases hd
    unfold State.lorieSetColorScheme
    split
    · exact ⟨hready, keepsOthers_refl s⟩
    · have hset : KeepsOthers s { s with colorScheme := value } := ⟨fun h => ⟨rfl, h⟩, fun h => ⟨⟨rfl, rfl⟩, h⟩⟩
      exact ⟨(same_publish _ a).ready.trans hready, hset.trans (keepsOthers_publish _ a)⟩

/-- **What others wrote on the root stays**: a resource database that is not the one of the density, and properties of another
window manager, are in place until a client changes them, whatever the host and the clients do otherwise. -/
theorem others_stay {atom : String → Nat} {root : Nat} {monitorResolution : Int}
    (h : Reach step Free (State.start atom root monitorResolution) s) (hready : s.ready = true) (hrun : Reach step RootKept s t) :
    (s.resourcesOurs = false → t.properties none .resourceManager = s.properties none .resourceManager) ∧
      (s.CheckForeign → t.properties none .supportingWmCheck = s.properties none .supportingWmCheck ∧
        t.properties none .netSupported = s.properties none .netSupported) := by
  obtain ⟨⟨hsound, hunready⟩, -⟩ :=
    custody_of_reach (E := Free) (fun _ _ _ => trivial) (fun _ _ _ => .inr fun _ _ => trivial) h
  have hkeeps : KeepsOthers s t := hrun.rel keepsOthers_refl (fun _ _ _ => KeepsOthers.trans)
    (I := fun t => (t.Sound ∧ t.Unready) ∧ t.ready = true) ⟨⟨hsound, hunready⟩, hready⟩
    (fun t a u ht ha hs =>
      have hstep := step_custody (E := Free) ht.1.1 ht.1.2 (fun _ _ _ => trivial) (.inr fun _ _ => trivial) hs
      ⟨⟨hstep.1, hstep.2.1⟩, (keepsOthers_step ht.1.1 ht.2 ha hs).1⟩)
    fun t a u ht ha hs => (keepsOthers_step ht.1.1 ht.2 ha hs).2
  exact ⟨fun hs => (hkeeps.resources hs).1, fun hs => (hkeeps.check hs).1⟩

/-- A client replaces the resource database, and the host changes the density. -/
def databaseReplaced : List Action :=
  [.ready ⟨none, none, none⟩ ⟨⟨true, true, none⟩, ⟨true, true⟩, ⟨true, true, none⟩, fun _ => true⟩,
    .changeProperty none .resourceManager (some ⟨.string, .bytes [1, 2]⟩)]

theorem others_stay_replaced : ∃ s t, exec step (State.start (fun _ => 0) 1 96) databaseReplaced = some s ∧
    step s (.setDpi 192 ⟨true, true⟩) = some t ∧ t.monitorResolution = 192 ∧
      t.properties none .resourceManager = s.properties none .resourceManager := by
  have hany : (exec step (State.start (fun _ => 0) 1 96) databaseReplaced).any (fun s => s.ready && !s.resourcesOurs &&
      (step s (.setDpi 192 ⟨true, true⟩)).any fun t => t.monitorResolution = 192) = true := by decide
  obtain ⟨s, hs, hfacts⟩ := (Option.any_eq_true _ _).1 hany
  rw [Bool.and_eq_true, Bool.and_eq_true, Bool.not_eq_true'] at hfacts
  obtain ⟨⟨hready, hours⟩, hstep⟩ := hfacts
  obtain ⟨t, ht, hdpi⟩ := (Option.any_eq_true _ _).1 hstep
  have hkept : RootKept s (.setDpi 192 ⟨true, true⟩) := trivial
  have hrun : Reach step RootKept s t := Reach.refl.tail hkept ht
  exact ⟨s, t, hs, ht, of_decide_eq_true hdpi, (others_stay (Reach.of_exec databaseReplaced hs) hready hrun).1 hours⟩

end Others

/-! ## What the managers publish -/

theorem settingsBytes_decode {dpi scheme : Int} (serial : UInt32) (h : InRange dpi scheme) :
    Settings.decode (settingsBytes dpi serial scheme) = some (densitySettings dpi serial scheme) := by
  unfold settingsBytes
  rw [lorieDensitySettings_eq List.length_replicate h]
  show Settings.decode (List.take _ (page _ _)) = _
  unfold page
  rw [List.take_left]
  exact Settings.decode_encode _

section Current

variable {s t : State}

/-- The resource database is the one for the density of now. -/
def State.DatabaseCurrent (s : State) : Prop :=
  s.properties none .resourceManager = some ⟨.string, .bytes (resourceText s.monitorResolution)⟩ ∧
    s.resources = resourceText s.monitorResolution

/-- The property of a window is for the density and the scheme of now. -/
def State.SettingsCurrent (s : State) (w : Nat) : Prop :=
  s.properties (some w) .xsettings =
    some ⟨.xsettings, .bytes (settingsBytes s.monitorResolution s.serial s.colorScheme)⟩

/-- What is published is current, from `ddxReady` on. -/
structure State.Current (s : State) : Prop where
  range : InRange s.monitorResolution s.colorScheme
  start : s.ready = false → s.properties none .resourceManager = none
  database : s.ready = true → s.DatabaseCurrent
  settings : ∀ w, s.settingsWindow = some w → w ∈ s.windows → s.SettingsCurrent w

theorem publish_current {a : PublishAnswers} (ha : a.resources = true ∧ a.settings = true) (hours : s.resourcesOurs = true) :
    (s.publish a).DatabaseCurrent ∧ (∀ w, s.settingsWindow = some w → w ∈ s.windows → (s.publish a).SettingsCurrent w) ∧
      (s.publish a).monitorResolution = s.monitorResolution ∧ (s.publish a).colorScheme = s.colorScheme ∧
      (s.publish a).settingsWindow = s.settingsWindow := by
  obtain ⟨hresources, hsettings⟩ := ha
  obtain ⟨u, hu⟩ : ∃ u, u = s.publishResources true := ⟨_, rfl⟩
  have hdatabase : u.DatabaseCurrent ∧ u.monitorResolution = s.monitorResolution ∧ u.colorScheme = s.colorScheme ∧
      u.settingsWindow = s.settingsWindow ∧ u.windows = s.windows := by
    unfold State.publishResources at hu
    rw [if_pos hours] at hu
    rw [hu]
    exact ⟨⟨rfl, rfl⟩, rfl, rfl, rfl, rfl⟩
  obtain ⟨⟨hproperty, htext⟩, hdpi, hscheme, hwindow, hwindows⟩ := hdatabase
  unfold State.publish
  rw [hresources, hsettings, ← hu]
  unfold State.publishSettings
  cases hsome : u.settingsWindow with
  | none =>
    refine ⟨⟨hproperty, htext⟩, fun w hw => ?_, hdpi, hscheme, hwindow⟩
    rw [← hwindow, hsome] at hw
    cases hw
  | some owner =>
    dsimp only
    by_cases hmem : owner ∈ u.windows
    · rw [if_pos hmem]
      refine ⟨⟨hproperty, htext⟩, fun w hw hlive => ?_, hdpi, hscheme, hsome.symm.trans hwindow⟩
      have hsame : w = owner := by
        rw [← hwindow, hsome] at hw
        exact (Option.some.inj hw).symm
      subst hsame
      unfold State.SettingsCurrent State.changeProperty State.setProperty
      simp only [if_true, Function.update_self]
    · rw [if_neg hmem]
      refine ⟨⟨hproperty, htext⟩, fun w hw hlive => ?_, hdpi, hscheme, hwindow⟩
      rw [← hwindow, hsome] at hw
      rw [← Option.some.inj hw, ← hwindows] at hlive
      exact absurd hlive hmem

/-- Nobody but the managers changes what they publish, and the changes succeed. -/
def Undisturbed (s : State) : Action → Prop
  | .changeProperty none name _ => name ≠ .resourceManager
  | .changeProperty (some w) name _ => name = .xsettings → s.settingsWindow ≠ some w
  | .ready _ a => a.publish.resources = true ∧ a.publish.settings = true
  | .setDpi _ a => a.resources = true ∧ a.settings = true
  | .setColorScheme _ a => a.resources = true ∧ a.settings = true
  | _ => True

instance (s : State) (a : Action) : Decidable (Undisturbed s a) := by
  unfold Undisturbed
  split <;> infer_instance

theorem State.Calm.current (h : s.Calm t) (hs : s.Current) : t.Current where
  range := by
    rw [h.monitorResolution, h.colorScheme]
    exact hs.range
  start hready := h.resourceManager.trans (hs.start (h.ready ▸ hready))
  database hready := by
    obtain ⟨hproperty, htext⟩ := hs.database (h.ready ▸ hready)
    unfold DatabaseCurrent
    rw [h.resourceManager, h.resources, h.monitorResolution]
    exact ⟨hproperty, htext⟩
  settings w hw hlive := by
    have hsettings : s.settingsWindow = some w := by
      rcases h.settingsWindow with hsame | hnone
      · exact hsame ▸ hw
      · rw [hnone] at hw
        cases hw
    unfold SettingsCurrent
    rw [h.xsettings w hlive, h.monitorResolution, h.serial, h.colorScheme]
    exact hs.settings w hsettings (h.windows hlive)

/-- A command of the host publishes the new values. -/
theorem current_publish {a : PublishAnswers} (ha : a.resources = true ∧ a.settings = true)
    (hrange : InRange s.monitorResolution s.colorScheme) (hours : s.resourcesOurs = true) (hready : s.ready = true) :
    (s.publish a).Current := by
  obtain ⟨hdatabase, hsettings, hdpi, hscheme, hwindow⟩ := publish_current ha hours
  have hsame := same_publish s a
  refine ⟨by rw [hdpi, hscheme]; exact hrange, fun hfalse => ?_, fun _ => hdatabase, fun w hw hlive => ?_⟩
  · rw [hsame.ready, hready] at hfalse
    cases hfalse
  · exact hsettings w (hwindow ▸ hw) (hsame.windows ▸ hlive)

theorem resourcesOurs_of_current (h : s.DatabaseCurrent) : s.resourcesOurs = true := by
  obtain ⟨hproperty, htext⟩ := h
  unfold State.resourcesOurs
  rw [hproperty, htext]
  exact decide_eq_true rfl

/-- The window manager starts beside the settings. -/
structure State.Aside (s t : State) : Prop where
  monitorResolution : t.monitorResolution = s.monitorResolution
  serial : t.serial = s.serial
  colorScheme : t.colorScheme = s.colorScheme
  resources : t.resources = s.resources
  settingsWindow : t.settingsWindow = s.settingsWindow
  resourceManager : t.properties none .resourceManager = s.properties none .resourceManager
  xsettings : ∀ w, t.properties (some w) .xsettings = s.properties (some w) .xsettings

theorem State.Aside.trans {r s t : State} (h₁ : r.Aside s) (h₂ : s.Aside t) : r.Aside t :=
  ⟨h₂.monitorResolution.trans h₁.monitorResolution, h₂.serial.trans h₁.serial, h₂.colorScheme.trans h₁.colorScheme,
    h₂.resources.trans h₁.resources, h₂.settingsWindow.trans h₁.settingsWindow, h₂.resourceManager.trans h₁.resourceManager,
    fun w => (h₂.xsettings w).trans (h₁.xsettings w)⟩

theorem aside_refl (s : State) : s.Aside s := ⟨rfl, rfl, rfl, rfl, rfl, rfl, fun _ => rfl⟩

theorem aside_changeProperty (s : State) (success : Bool) (window : Option Nat) {name : PropertyName} (value : Property)
    (h : name ≠ .resourceManager ∧ name ≠ .xsettings) : s.Aside (s.changeProperty success window name value) := by
  unfold State.changeProperty
  split
  · exact ⟨rfl, rfl, rfl, rfl, rfl, State.setProperty_of_ne s _ (.inr h.1.symm),
      fun w => State.setProperty_of_ne s _ (.inr h.2.symm)⟩
  · exact aside_refl s

theorem aside_lorieWindowManagerReady (hobserving : s.settingsWindow ≠ none → s.observing = true) (env : State.Environment)
    (a : State.ReadyAnswers) : s.Aside (s.lorieWindowManagerReady env a) := by
  unfold State.lorieWindowManagerReady
  split
  · exact aside_refl s
  · rcases claim_cases s .manager a.manager with ⟨t, ht, hrecord⟩ | ⟨w, hw, ht⟩
    · rw [ht]
      rcases hrecord with rfl | ⟨-, rfl⟩
      · exact aside_refl _
      · exact ⟨rfl, rfl, rfl, rfl, rfl, rfl, fun _ => rfl⟩
    · rw [ht]
      dsimp only
      have hannounce (t : State) : t.Aside (t.announce .manager w) := ⟨rfl, rfl, rfl, rfl, rfl, rfl, fun _ => rfl⟩
      have hpublish (t : State) : t.Aside (t.publishManager w a.changes) :=
        (aside_changeProperty _ _ _ _ (by decide)).trans ((aside_changeProperty _ _ _ _ (by decide)).trans
          ((aside_changeProperty _ _ _ _ (by decide)).trans (aside_changeProperty _ _ _ _ (by decide))))
      refine State.Aside.trans ?_ ((hpublish _).trans (hannounce _))
      rw [@callbacks_own _ .manager w]
      · exact ⟨rfl, rfl, rfl, rfl, rfl, rfl, fun _ => rfl⟩
      · exact hobserving
      · rfl
      · have howner := congrFun (owner_setSelection s .manager ⟨some w, some 0⟩) .manager
        rw [Function.update_self] at howner
        exact howner

/-- The settings window is there before anything is published. -/
theorem claimSettings_unpublished (h : s.settingsWindow = none) (a : State.ClaimAnswers) :
    (s.claimSettings a).monitorResolution = s.monitorResolution ∧ (s.claimSettings a).colorScheme = s.colorScheme ∧
      (s.claimSettings a).resources = s.resources ∧ (s.claimSettings a).properties = s.properties ∧
      ∀ w, (s.claimSettings a).settingsWindow = some w → w ∈ (s.claimSettings a).windows := by
  unfold State.claimSettings
  rcases claim_cases s .settings a with ⟨t, ht, hrecord⟩ | ⟨w, hw, ht⟩
  · rw [ht]
    dsimp only
    have hnone : t.settingsWindow = none := by
      rcases hrecord with rfl | ⟨-, rfl⟩ <;> exact h
    have hsome : ∀ w, t.settingsWindow = some w → w ∈ t.windows := fun w hw => by
      rw [hnone] at hw
      cases hw
    rcases hrecord with rfl | ⟨-, rfl⟩ <;> exact ⟨rfl, rfl, rfl, rfl, hsome⟩
  · rw [ht]
    dsimp only
    rw [@callbacks_own _ .settings w]
    · exact ⟨rfl, rfl, rfl, rfl, fun v hv => Option.some.inj hv ▸ List.mem_cons_self⟩
    · exact fun _ => rfl
    · rfl
    · have howner := congrFun (owner_setSelection s .settings ⟨some w, some 0⟩) .settings
      rw [Function.update_self] at howner
      exact howner

theorem aside_announceSettings (s : State) : s.Aside s.announceSettings := by
  unfold State.announceSettings
  split <;> exact ⟨rfl, rfl, rfl, rfl, rfl, rfl, fun _ => rfl⟩

theorem lorieDensityInit_current {env : State.Environment} {a : State.ReadyAnswers}
    (hproperty : s.properties none .resourceManager = none)
    (ha : a.publish.resources = true ∧ a.publish.settings = true) (hdpi : 24 ≤ s.monitorResolution ∧ s.monitorResolution ≤ 1536) :
    InRange (s.lorieDensityInit env a).monitorResolution (s.lorieDensityInit env a).colorScheme ∧
      (s.lorieDensityInit env a).DatabaseCurrent ∧
      ∀ w, (s.lorieDensityInit env a).settingsWindow = some w → (s.lorieDensityInit env a).SettingsCurrent w := by
  obtain ⟨u, hu⟩ : ∃ u, u = if env.settings = some "1" then (s.startDensity env).claimSettings a.settings
    else s.startDensity env := ⟨_, rfl⟩
  have hstart : InRange (s.startDensity env).monitorResolution (s.startDensity env).colorScheme := by
    refine ⟨hdpi, ?_⟩
    show 0 ≤ (if env.scheme = some "1" then 1 else if env.scheme = some "2" then 2 else 0 : Int) ∧ _ ≤ (2 : Int)
    unfold State.startDensity
    dsimp only
    split
    · decide
    · split <;> decide
  have hfacts : u.monitorResolution = s.monitorResolution ∧ u.colorScheme = (s.startDensity env).colorScheme ∧
      u.properties = s.properties ∧ ∀ w, u.settingsWindow = some w → w ∈ u.windows := by
    rw [hu]
    split
    · obtain ⟨h₁, h₂, -, h₃, h₄⟩ := claimSettings_unpublished (s := s.startDensity env) rfl a.settings
      exact ⟨h₁, h₂, h₃, h₄⟩
    · exact ⟨rfl, rfl, rfl, fun w hw => by cases hw⟩
  obtain ⟨hures, huscheme, huproperties, hulive⟩ := hfacts
  have hours : u.resourcesOurs = true := by
    unfold State.resourcesOurs
    rw [huproperties, hproperty]
  obtain ⟨hdatabase, hsettings, hpdpi, hpscheme, hpwindow⟩ := publish_current ha hours
  have haside := aside_announceSettings (u.publish a.publish)
  have hinit : s.lorieDensityInit env a = (u.publish a.publish).announceSettings := by
    unfold State.lorieDensityInit
    rw [hu]
  rw [hinit, haside.monitorResolution, haside.colorScheme, hpdpi, hpscheme, hures, huscheme]
  refine ⟨hstart, ?_, fun w hw => ?_⟩
  · unfold State.DatabaseCurrent
    rw [haside.resourceManager, haside.resources, haside.monitorResolution]
    exact hdatabase
  · rw [haside.settingsWindow, hpwindow] at hw
    unfold State.SettingsCurrent
    rw [haside.xsettings, haside.monitorResolution, haside.serial, haside.colorScheme]
    exact hsettings w hw (hulive w hw)

theorem current_ready {env : State.Environment} {a : State.ReadyAnswers} (h : s.Sound) (hu : s.Unready) (hs : s.Current)
    (hready : s.ready = false) (hfresh : ∀ w ∈ a.settings.window, w ≠ s.root ∧ w ∉ s.windows ∧ w ∉ s.madeWindows)
    (ha : a.publish.resources = true ∧ a.publish.settings = true) : (s.ddxReady env a).Current := by
  obtain ⟨hrange, hdatabase, hsettings⟩ := @lorieDensityInit_current s env a (hs.start hready) ha hs.range.1
  obtain ⟨h₁, -⟩ := h.takes (E := Free) (lorieDensityInit_takes (hu hready .settings) env a) (hu hready .settings) hfresh
    fun _ _ => trivial
  have haside := aside_lorieWindowManagerReady h₁.observing env a
  refine ⟨?_, nofun, fun _ => ?_, fun w hw _ => ?_⟩
  · show InRange (State.lorieWindowManagerReady _ env a).monitorResolution (State.lorieWindowManagerReady _ env a).colorScheme
    rw [haside.monitorResolution, haside.colorScheme]
    exact hrange
  · show (State.lorieWindowManagerReady _ env a).DatabaseCurrent
    unfold State.DatabaseCurrent
    rw [haside.resourceManager, haside.resources, haside.monitorResolution]
    exact hdatabase
  · show (State.lorieWindowManagerReady _ env a).SettingsCurrent w
    have hw : (State.lorieWindowManagerReady _ env a).settingsWindow = some w := hw
    rw [haside.settingsWindow] at hw
    unfold State.SettingsCurrent
    rw [haside.xsettings, haside.monitorResolution, haside.serial, haside.colorScheme]
    exact hsettings w hw

theorem current_step {a : Action} (h : s.Sound) (hu : s.Unready) (hs : s.Current) (ha : Undisturbed s a)
    (hstep : step s a = some t) : t.Current := by
  cases a with
  | createWindow w =>
    obtain ⟨⟨-, -, hnew⟩, hd⟩ := Option.ite_none_right_eq_some.1 hstep
    cases hd
    refine ⟨hs.range, hs.start, hs.database, fun v hv hlive => ?_⟩
    have hne : v ≠ w := fun hvw => hnew (hvw ▸ State.custody_made.1 ⟨.settings, h.kept.kept_made .settings v hv⟩)
    exact hs.settings v hv ((List.mem_cons.1 hlive).resolve_left hne)
  | destroyWindow w => exact (calm_step h (.destroyWindow w) hstep).current hs
  | setSelectionOwner name window client => exact (calm_step h (.setSelectionOwner name window client) hstep).current hs
  | closeClient client => exact (calm_step h (.closeClient client) hstep).current hs
  | changeProperty window name value =>
    obtain ⟨-, hd⟩ := Option.ite_none_right_eq_some.1 hstep
    cases hd
    have hdatabase : (s.setProperty window name value).properties none .resourceManager =
        s.properties none .resourceManager := by
      refine State.setProperty_of_ne s value ?_
      cases window with
      | none => exact .inr fun hname => ha hname.symm
      | some w => exact .inl (Option.some_ne_none w).symm
    refine ⟨hs.range, fun hready => hdatabase.trans (hs.start hready), fun hready => ?_, fun w hw hlive => ?_⟩
    · obtain ⟨hproperty, htext⟩ := hs.database hready
      exact ⟨hdatabase.trans hproperty, htext⟩
    · refine (State.setProperty_of_ne s value ?_).trans (hs.settings w hw hlive)
      cases window with
      | none => exact .inl (Option.some_ne_none w)
      | some v =>
        by_cases hname : name = .xsettings
        · exact .inl fun hwv => ha hname (by rw [← hwv]; exact hw)
        · exact .inr fun h => hname h.symm
  | ready env a =>
    obtain ⟨⟨hready, hfresh⟩, hd⟩ := Option.ite_none_right_eq_some.1 hstep
    cases hd
    exact current_ready h hu hs hready (fun w hw => ⟨(hfresh.1 w hw).1, (hfresh.1 w hw).2.1, (hfresh.1 w hw).2.2.1⟩) ha
  | setDpi dpi a =>
    obtain ⟨hready, hd⟩ := Option.ite_none_right_eq_some.1 hstep
    cases hd
    have hours := resourcesOurs_of_current (hs.database hready)
    unfold State.lorieSetDpi
    split
    · exact hs
    · have hrange : InRange dpi s.colorScheme := ⟨by omega, hs.range.2⟩
      exact @current_publish { s with monitorResolution := dpi } a ha hrange hours hready
  | setColorScheme value a =>
    obtain ⟨hready, hd⟩ := Option.ite_none_right_eq_some.1 hstep
    cases hd
    have hours := resourcesOurs_of_current (hs.database hready)
    unfold State.lorieSetColorScheme
    split
    · exact hs
    · have hrange : InRange s.monitorResolution value := ⟨hs.range.1, by omega, by omega⟩
      exact @current_publish { s with colorScheme := value } a ha hrange hours hready

/-- **What is published is the density and the colour scheme of now**: as long as nobody else changes these properties and there
is memory for them, in every run the resource database names the density, and the property of the settings window reads as the
settings for it. -/
theorem published_current {atom : String → Nat} {root : Nat} {dpi : Int} (hdpi : 24 ≤ dpi ∧ dpi ≤ 1536)
    (h : Reach step Undisturbed (State.start atom root dpi) s) (hready : s.ready = true) :
    s.properties none .resourceManager = some ⟨.string, .bytes (resourceText s.monitorResolution)⟩ ∧
      ∀ w, s.settingsWindow = some w → w ∈ s.windows → ∃ bytes,
        s.properties (some w) .xsettings = some ⟨.xsettings, .bytes bytes⟩ ∧
          Settings.decode bytes = some (densitySettings s.monitorResolution s.serial s.colorScheme) := by
  have hstart : (State.start atom root dpi).Current := by
    refine ⟨⟨hdpi, ?_⟩, fun _ => rfl, ?_, fun w hw => ?_⟩
    · exact (by decide : (0 : Int) ≤ 0 ∧ (0 : Int) ≤ 2)
    · exact fun h => by cases h
    · cases hw
  have hunready : (State.start atom root dpi).Unready := fun _ name => by cases name <;> rfl
  have hcurrent : (s.Sound ∧ s.Unready) ∧ s.Current := h.invariant
    (I := fun s => (s.Sound ∧ s.Unready) ∧ s.Current) ⟨⟨sound_start atom root dpi, hunready⟩, hstart⟩
    fun t a u ht ha hs =>
      have hstep := step_custody (E := Free) ht.1.1 ht.1.2 (fun _ _ _ => trivial) (.inr fun _ _ => trivial) hs
      ⟨⟨hstep.1, hstep.2.1⟩, current_step ht.1.1 ht.1.2 ht.2 ha hs⟩
  refine ⟨(hcurrent.2.database hready).1, fun w hw hlive => ⟨_, hcurrent.2.settings w hw hlive, ?_⟩⟩
  exact settingsBytes_decode _ hcurrent.2.range

/-- The host changes the density and the scheme. -/
def hostChanges : List Action :=
  [.ready ⟨some "1", some "1", none⟩ ⟨⟨true, true, some 10⟩, ⟨true, true⟩, ⟨true, true, none⟩, fun _ => true⟩,
    .setDpi 192 ⟨true, true⟩, .setColorScheme 2 ⟨true, true⟩]

theorem published_current_changes : ∃ s, Reach step Undisturbed (State.start (fun _ => 0) 1 96) s ∧
    s.properties none .resourceManager = some ⟨.string, .bytes (resourceText 192)⟩ ∧
      ∃ bytes, s.properties (some 10) .xsettings = some ⟨.xsettings, .bytes bytes⟩ ∧
        Settings.decode bytes = some (densitySettings 192 3 2) := by
  have hany : (exec (fun s a => if Undisturbed s a then step s a else none) (State.start (fun _ => 0) 1 96) hostChanges).any
      (fun s => s.ready && s.settingsWindow = some 10 && 10 ∈ s.windows && s.monitorResolution = 192 && s.serial = 3 &&
        s.colorScheme = 2) = true := by decide
  obtain ⟨s, hs, hfacts⟩ := (Option.any_eq_true _ _).1 hany
  simp only [Bool.and_eq_true, decide_eq_true_eq] at hfacts
  obtain ⟨⟨⟨⟨⟨hready, hwindow⟩, hlive⟩, hdpi⟩, hserial⟩, hscheme⟩ := hfacts
  have hreach : Reach step Undisturbed (State.start (fun _ => 0) 1 96) s := Reach.of_exec_guarded hostChanges hs
  obtain ⟨hdatabase, hsettings⟩ := published_current (by decide) hreach hready
  rw [hdpi] at hdatabase
  obtain ⟨bytes, hbytes, hdecode⟩ := hsettings 10 hwindow hlive
  rw [hdpi, hserial, hscheme] at hdecode
  exact ⟨s, hreach, hdatabase, bytes, hbytes, hdecode⟩

end Current

end Lorie.Managers
