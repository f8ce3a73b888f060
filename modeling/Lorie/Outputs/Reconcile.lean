import Lorie.Lib.Folds
import Lorie.Outputs.Placement

/-!
# Reconciliation reaches a fixed point

`Settled` says that the window of an output, its transients and the screen are in their places.

- `settled_reconcile`: where everything is in its place, nothing is requested;
- `reconcile_settles`: one pass brings everything into its place;
- `geometry_reconciled`: both together, for the only live individual output.
-/

namespace Lorie.Outputs.Placement

open Lorie.Lib Lorie.Windows Leases

namespace State

variable {s : State}

/-! ## A screen that is settled -/

/-- Everything is in its place: reconciliation finds nothing to do. -/
structure Settled (env : Env) (s : State) (output window : Nat) : Prop where
  x : 0 ≤ (s.place window).x
  y : 0 ≤ (s.place window).y
  size : s.proposedSize env output window = ((s.place window).width, (s.place window).height)
  arrived : ∀ w ∈ s.desktop.family window, w ≠ window →
    Arrived (s.outputs.separated output) (s.place window) (s.place w)
  right : ∀ w ∈ window :: s.desktop.family window,
    (s.place w).x + (s.place w).width ≤ (s.place s.desktop.root).width
  bottom : ∀ w ∈ window :: s.desktop.family window,
    (s.place w).y + (s.place w).height ≤ (s.place s.desktop.root).height

theorem placeOwner_self (env : Env) {window : Nat} {x y width height : Int} (hx : x = (s.place window).x)
    (hy : y = (s.place window).y) (hwidth : width = (s.place window).width) (hheight : height = (s.place window).height) :
    s.placeOwner env window x y width height = s := by
  unfold placeOwner
  rw [moveContent_self hx hy]
  exact if_neg fun h => h.elim (fun h => h hwidth) fun h => h hheight

theorem growScreen_self {placement : FamilyPlacement} (hr : placement.right ≤ (s.place s.desktop.root).width)
    (hb : placement.bottom ≤ (s.place s.desktop.root).height) : s.growScreen placement = s :=
  if_neg fun h => h.elim (fun h => h (max_eq_left hr)) fun h => h (max_eq_left hb)

/-- What the walk over transients in their places finds. -/
theorem family_arrived (placement : FamilyPlacement) {right bottom : Int} {l : List Nat}
    (harrived : ∀ w ∈ l, w ≠ placement.owner → Arrived placement.external (s.place placement.owner) (s.place w))
    (hright : ∀ w ∈ l, (s.place w).x + (s.place w).width ≤ right)
    (hbottom : ∀ w ∈ l, (s.place w).y + (s.place w).height ≤ bottom) (hr : placement.right ≤ right)
    (hb : placement.bottom ≤ bottom) :
    (l.foldl placeTransient (s, placement)).1 = s ∧ (l.foldl placeTransient (s, placement)).2.right ≤ right ∧
      (l.foldl placeTransient (s, placement)).2.bottom ≤ bottom := by
  induction l generalizing placement with
  | nil => exact ⟨rfl, hr, hb⟩
  | cons w l ih =>
    obtain ⟨hstate, howner, hexternal, hbound⟩ := placeTransient_arrived (harrived w List.mem_cons_self)
    obtain ⟨hr', hb'⟩ := hbound right bottom hr hb fun _ =>
      ⟨hright w List.mem_cons_self, hbottom w List.mem_cons_self⟩
    rw [List.foldl_cons]
    generalize placeTransient (s, placement) w = r at hstate howner hexternal hr' hb' ⊢
    obtain ⟨t, p⟩ := r
    dsimp only at hstate
    subst hstate
    refine ih p ?_ (fun w hw => hright w (List.mem_cons_of_mem _ hw))
      (fun w hw => hbottom w (List.mem_cons_of_mem _ hw)) hr' hb'
    intro v hv hne
    rw [howner] at hne ⊢
    rw [hexternal]
    exact harrived v (List.mem_cons_of_mem _ hv) hne

/-- **Where everything is in its place, nothing is requested and nothing changes.** -/
theorem settled_reconcile {env : Env} {output window : Nat} (h : Settled env s output window) :
    s.reconcile env output window = s := by
  have hx : max 0 (s.place window).x = (s.place window).x := max_eq_right h.x
  have hy : max 0 (s.place window).y = (s.place window).y := max_eq_right h.y
  have howner := placeOwner_self env hx hy rfl rfl
  have hfamily := family_arrived ⟨window, max 0 (s.place window).x + (s.place window).width,
    max 0 (s.place window).y + (s.place window).height, 0, s.outputs.separated output⟩ h.arrived
    (fun w hw => h.right w (List.mem_cons_of_mem _ hw)) (fun w hw => h.bottom w (List.mem_cons_of_mem _ hw))
    (by rw [hx]; exact h.right window List.mem_cons_self) (by rw [hy]; exact h.bottom window List.mem_cons_self)
  unfold reconcile
  rw [h.size]
  dsimp only
  rw [howner, family_foldl]
  generalize (s.desktop.family window).foldl placeTransient _ = r at hfamily
  obtain ⟨t, placement⟩ := r
  obtain ⟨rfl, hright, hbottom⟩ := hfamily
  exact growScreen_self hright hbottom

/-! ## One pass -/

/-- The size that was proposed is proposed again. -/
theorem proposedSize_same {t : State} (h : Same s t) {env : Env} {output window : Nat}
    (hsize : s.proposedSize env output window = ((t.place window).width, (t.place window).height)) :
    t.proposedSize env output window = ((t.place window).width, (t.place window).height) := by
  have howns : (t.outputs.heap output).ownsSize = (s.outputs.heap output).ownsSize :=
    (congrArg OutputSelection.ownsSize (h.settings output) :)
  have hwidth : (t.outputs.heap output).width = (s.outputs.heap output).width :=
    (congrArg OutputSelection.width (h.settings output) :)
  have hheight : (t.outputs.heap output).height = (s.outputs.heap output).height :=
    (congrArg OutputSelection.height (h.settings output) :)
  unfold proposedSize at hsize ⊢
  dsimp only at hsize ⊢
  rw [howns, hwidth, hheight, h.desktop.constraints]
  split
  · rename_i hown
    rwa [if_pos hown] at hsize
  · rfl

/-- The window of the output is in its place. -/
theorem placeOwner_place {window : Nat} (hw : window ∈ s.desktop.lastChild.windows) (env : Env) (x y width height : Int) :
    Same s (s.placeOwner env window x y width height) ∧
      ((s.placeOwner env window x y width height).place window).x = x ∧
      ((s.placeOwner env window x y width height).place window).y = y ∧
      ((s.placeOwner env window x y width height).place window).width = width ∧
      ((s.placeOwner env window x y width height).place window).height = height ∧
      extent ((s.placeOwner env window x y width height).place s.desktop.root) = extent (s.place s.desktop.root) := by
  have hmoved := moveContent_movedTo hw x y
  have hroot : window ≠ s.desktop.root := fun e => (List.nodup_cons.1 s.desktop.nodup).1 (e ▸ hw)
  unfold placeOwner
  generalize s.moveContent window x y = t at hmoved ⊢
  dsimp only
  have hroot' : window ≠ t.desktop.root := by rwa [hmoved.same.desktop.root]
  split
  · have hplace := configureSize_place (s := t) env hroot' width height
    refine ⟨hmoved.same.trans (same_configureSize env t window width height), ?_, ?_, ?_, ?_, ?_⟩
    · rw [hplace]
      exact hmoved.x
    · rw [hplace]
      exact hmoved.y
    · rw [hplace]
    · rw [hplace]
    · rw [← hmoved.extent, ← hmoved.same.desktop.root]
      exact congrArg extent (configureSize_root env hroot' width height)
  · rename_i h
    refine ⟨hmoved.same, hmoved.x, hmoved.y, ?_, ?_, hmoved.extent _⟩
    · exact (not_not.1 fun e => h (.inl e)).symm
    · exact (not_not.1 fun e => h (.inr e)).symm

/-- The screen contains what was placed. -/
theorem growScreen_place (placement : FamilyPlacement) (hwidth : 0 < (s.place s.desktop.root).width)
    (hheight : 0 < (s.place s.desktop.root).height) :
    Same s (s.growScreen placement) ∧
      (∀ w, w ≠ s.desktop.root → (s.growScreen placement).place w = s.place w) ∧
      ((s.growScreen placement).place s.desktop.root).width = max (s.place s.desktop.root).width placement.right ∧
      ((s.growScreen placement).place s.desktop.root).height = max (s.place s.desktop.root).height placement.bottom := by
  unfold growScreen
  dsimp only
  split
  · rename_i h
    unfold lorieConfigureNotify
    dsimp only
    rw [if_pos ⟨by omega, by omega, by omega⟩]
    refine ⟨⟨⟨_, rfl⟩, rfl, fun _ => rfl⟩, fun w hw => ?_, ?_, ?_⟩
    · exact (Desktop.put_place _ _ _).trans (if_neg hw)
    · unfold place
      rw [Desktop.put_place, if_pos rfl]
    · unfold place
      rw [Desktop.put_place, if_pos rfl]
  · rename_i h
    refine ⟨.refl s, fun _ _ => rfl, ?_, ?_⟩
    · exact (not_not.1 fun e => h (.inl e)).symm
    · exact (not_not.1 fun e => h (.inr e)).symm

/-- The members of a family are in top-level windows of their own. -/
def DistinctTops (d : Desktop) (members : List Nat) : Prop :=
  ∀ v ∈ members, ∀ w ∈ members, d.topLevel v = d.topLevel w → v = w

theorem DistinctTops.moved {d e : Desktop} {members : List Nat} (h : DistinctTops d members) (hm : d.Moved e) :
    DistinctTops e members := by
  intro v hv w hw htop
  rw [hm.topLevel, hm.topLevel] at htop
  exact h v hv w hw htop

section Family

variable (t : State) (window : Nat) (external : Bool)

/-- The walk over the family with so many windows ahead: the window of the output and the root are where they were. -/
structure Placing (n : Nat) (r : State × FamilyPlacement) : Prop where
  same : Same t r.1
  owner : r.2.owner = window
  external : r.2.external = external
  count : r.2.count + n ≤ maxFamilyLayers
  place : r.1.place window = t.place window
  root : r.1.place t.desktop.root = t.place t.desktop.root
  right : (t.place window).x + (t.place window).width ≤ r.2.right
  bottom : (t.place window).y + (t.place window).height ≤ r.2.bottom

/-- A transient that was placed. -/
structure Fits (r : State × FamilyPlacement) (w : Nat) : Prop where
  arrived : Arrived external (t.place window) (r.1.place w)
  right : (r.1.place w).x + (r.1.place w).width ≤ r.2.right
  bottom : (r.1.place w).y + (r.1.place w).height ≤ r.2.bottom

variable {t window external}

/-- A step of the walk places one member and leaves the others. -/
theorem placing_step (hw : window ∈ t.desktop.windows)
    (htops : DistinctTops t.desktop (window :: t.desktop.family window))
    {n : Nat} {r : State × FamilyPlacement} {a : Nat} (ha : a ∈ t.desktop.family window)
    (h : Placing t window external (n + 1) r) :
    Placing t window external n (placeTransient r a) ∧
      (a ≠ window → Fits t window external (placeTransient r a) a) ∧
      ∀ b ∈ t.desktop.family window, b ≠ a → (b ≠ window → Fits t window external r b) →
        b ≠ window → Fits t window external (placeTransient r a) b := by
  obtain ⟨s, placement⟩ := r
  obtain ⟨hsame, howner, hexternal, hcount, hplace, hroot, hright, hbottom⟩ := h
  dsimp only at hsame howner hexternal hcount hplace hroot hright hbottom
  by_cases haw : a = window
  · -- the window of the output is counted, and that is all
    have hskip : placeTransient (s, placement) a = (s, { placement with count := placement.count + 1 }) :=
      if_pos (.inr (haw.trans howner.symm))
    rw [hskip]
    refine ⟨⟨hsame, howner, hexternal, ?_, hplace, hroot, hright, hbottom⟩, fun hne => absurd haw hne, ?_⟩
    · dsimp only
      omega
    · intro b _ _ hb hne
      obtain ⟨harrived, hr, hb⟩ := hb hne
      exact ⟨harrived, hr, hb⟩
  · have hmem := t.desktop.family_subset window ha
    have hne : a ≠ placement.owner := fun e => haw (e.trans howner)
    have hp : Placed s placement a (placeTransient (s, placement) a) :=
      placeTransient_placed (by omega) hne (by rwa [hsame.desktop.lastChild])
    -- the other members, the window of the output and the root have other tops
    have hothers : ∀ w ∈ t.desktop.windows, t.desktop.topLevel w ≠ t.desktop.topLevel a →
        (placeTransient (s, placement) a).1.place w = s.place w := by
      intro w hw htop
      refine hp.others w (by rwa [hsame.desktop.windows]) ?_
      rwa [hsame.desktop.topLevel, hsame.desktop.topLevel]
    have hwindow := hothers window hw fun e =>
      haw (htops a (List.mem_cons_of_mem _ ha) window List.mem_cons_self e.symm)
    have hrootTop := hothers t.desktop.root List.mem_cons_self fun e =>
      Desktop.topLevel_ne_root hmem (e.symm.trans (Desktop.climb_root _))
    refine ⟨⟨hsame.trans hp.same, hp.owner.trans howner, hp.external.trans hexternal, ?_, hwindow.trans hplace,
      hrootTop.trans hroot, ?_, ?_⟩, fun _ => ⟨?_, ?_, ?_⟩, ?_⟩
    · rw [hp.count]
      omega
    · rw [hp.right]
      exact le_max_of_le_left hright
    · rw [hp.bottom]
      exact le_max_of_le_left hbottom
    · rw [← hplace, ← howner, ← hexternal]
      exact hp.arrived
    · rw [hp.right]
      exact le_max_right _ _
    · rw [hp.bottom]
      exact le_max_right _ _
    · intro b hb hba hfits hbw
      obtain ⟨harrived, hr, hb'⟩ := hfits hbw
      have hstay := hothers b (List.mem_cons_of_mem _ (t.desktop.family_subset window hb)) fun e =>
        hba (htops b (List.mem_cons_of_mem _ hb) a (List.mem_cons_of_mem _ ha) e)
      refine ⟨?_, ?_, ?_⟩
      · rwa [hstay]
      · rw [hstay, hp.right]
        exact le_max_of_le_left hr
      · rw [hstay, hp.bottom]
        exact le_max_of_le_left hb'

end Family

/-- **One pass brings everything into its place.** -/
theorem reconcile_settles (env : Env) (output : Nat) {window : Nat} (hw : window ∈ s.desktop.lastChild.windows)
    (hwidth : 0 < (s.place s.desktop.root).width) (hheight : 0 < (s.place s.desktop.root).height)
    (hcount : (s.desktop.family window).length ≤ maxFamilyLayers)
    (htops : DistinctTops s.desktop (window :: s.desktop.family window)) :
    Same s (s.reconcile env output window) ∧ Settled env (s.reconcile env output window) output window := by
  unfold reconcile
  generalize hsize : s.proposedSize env output window = size
  obtain ⟨width, height⟩ := size
  dsimp only
  obtain ⟨hsame, hx, hy, hpw, hph, hext⟩ :=
    placeOwner_place hw env (max 0 (s.place window).x) (max 0 (s.place window).y) width height
  generalize s.placeOwner env window _ _ width height = t at hsame hx hy hpw hph hext ⊢
  obtain ⟨hrw, hrh, -⟩ : (t.place s.desktop.root).width = (s.place s.desktop.root).width ∧
      (t.place s.desktop.root).height = (s.place s.desktop.root).height ∧
      (t.place s.desktop.root).considered = (s.place s.desktop.root).considered := by
    simpa [extent] using hext
  have hroot := hsame.desktop.root
  have hne : window ≠ s.desktop.root := fun e => (List.nodup_cons.1 s.desktop.nodup).1 (e ▸ hw)
  have hmem : window ∈ t.desktop.windows := by
    rw [hsame.desktop.windows]
    exact List.mem_cons_of_mem _ hw
  have hfamily := hsame.desktop.family window
  have htops' : DistinctTops t.desktop (window :: t.desktop.family window) := by
    rw [hfamily]
    exact htops.moved hsame.desktop
  -- the walk places the members one after the other
  have hstart : Placing t window (t.outputs.separated output) (t.desktop.family window).length
      (t, ⟨window, max 0 (s.place window).x + width, max 0 (s.place window).y + height, 0,
        t.outputs.separated output⟩) :=
    ⟨.refl t, rfl, rfl, by rw [hfamily]; dsimp only; omega, rfl, rfl, by rw [hx, hpw], by rw [hy, hph]⟩
  obtain ⟨hend, hall⟩ := foldl_settles (Placing t window (t.outputs.separated output))
    (fun r w => w ≠ window → Fits t window (t.outputs.separated output) r w)
    (fun n r a ha h => placing_step hmem htops' ha h) (List.Subset.refl _) hstart
  rw [family_foldl]
  generalize (t.desktop.family window).foldl placeTransient _ = r at hend hall ⊢
  obtain ⟨u, placement⟩ := r
  obtain ⟨husame, -, -, -, huplace, huroot, huright, hubottom⟩ := hend
  dsimp only at husame huplace huroot huright hubottom ⊢
  -- and the screen grows
  have hurootEq : u.desktop.root = s.desktop.root := husame.desktop.root.trans hroot
  rw [hroot] at huroot
  obtain ⟨hgsame, hgplace, hgwidth, hgheight⟩ := growScreen_place (s := u) placement
    (by rw [hurootEq, huroot, hrw]; exact hwidth) (by rw [hurootEq, huroot, hrh]; exact hheight)
  rw [hurootEq] at hgplace hgwidth hgheight
  generalize u.growScreen placement = v at hgsame hgplace hgwidth hgheight ⊢
  have hsv : Same s v := (hsame.trans husame).trans hgsame
  have hvroot : v.desktop.root = s.desktop.root := hsv.desktop.root
  have hvw : v.place window = t.place window := (hgplace window hne).trans huplace
  have hmember : ∀ w ∈ v.desktop.family window, w ≠ window →
      v.place w = u.place w ∧ Fits t window (t.outputs.separated output) (u, placement) w := by
    intro w hwf hww
    rw [(husame.trans hgsame).desktop.family] at hwf
    have hwr : w ≠ s.desktop.root := fun e =>
      (List.nodup_cons.1 t.desktop.nodup).1 (hroot ▸ e ▸ t.desktop.family_subset window hwf)
    exact ⟨hgplace w hwr, hall w hwf (.inl hwf) hww⟩
  refine ⟨hsv, ?_, ?_, ?_, ?_, ?_, ?_⟩
  · rw [hvw, hx]
    exact le_max_left _ _
  · rw [hvw, hy]
    exact le_max_left _ _
  · refine proposedSize_same hsv ?_
    rw [hsize, hvw, hpw, hph]
  · intro w hwf hww
    obtain ⟨hplace, hfits⟩ := hmember w hwf hww
    rw [hplace, hvw, (husame.trans hgsame).separated]
    exact hfits.arrived
  · intro w hwf
    rw [hvroot, hgwidth]
    by_cases hww : w = window
    · rw [hww, hvw]
      exact le_max_of_le_right huright
    · obtain ⟨hplace, hfits⟩ := hmember w ((List.mem_cons.1 hwf).resolve_left hww) hww
      rw [hplace]
      exact le_max_of_le_right hfits.right
  · intro w hwf
    rw [hvroot, hgheight]
    by_cases hww : w = window
    · rw [hww, hvw]
      exact le_max_of_le_right hubottom
    · obtain ⟨hplace, hfits⟩ := hmember w ((List.mem_cons.1 hwf).resolve_left hww) hww
      rw [hplace]
      exact le_max_of_le_right hfits.bottom

/-! ## Windows that ask again -/

/-- The calls of `ConfigureWindow` -/
def configures (s : State) : List Call :=
  s.calls.filter fun call => match call with
    | .screen _ _ => false
    | _ => true

/-- If a window was configured, the output waits for reconciliation. -/
structure Asks (o : Nat) (s t : State) : Prop where
  waits : (s.outputs.heap o).geometryPending = true → (t.outputs.heap o).geometryPending = true
  noted : t.configures = s.configures ∨ (t.outputs.heap o).geometryPending = true

namespace Asks

variable {o : Nat} {t u : State}

theorem refl (o : Nat) (s : State) : Asks o s s := ⟨id, .inl rfl⟩

theorem trans (h : Asks o s t) (h' : Asks o t u) : Asks o s u := by
  refine ⟨fun hs => h'.waits (h.waits hs), ?_⟩
  rcases h'.noted with hu | hu
  · rcases h.noted with ht | ht
    · exact .inl (hu.trans ht)
    · exact .inr (h'.waits ht)
  · exact .inr hu

/-- A window is configured: the hook notes it. -/
theorem of_changed (ho : o ∈ s.outputs.selections) (hw : (s.outputs.heap o).window ≠ 0)
    (h : t.outputs = s.lorieOutputGeometryChanged.outputs) : Asks o s t := by
  have hpending : (t.outputs.heap o).geometryPending = true := by
    rw [h]
    exact geometryPending_changed ho hw
  exact ⟨fun _ => hpending, .inr hpending⟩

end Asks

/-- A screen that grows is no call of `ConfigureWindow`. -/
theorem asks_configureNotify (o : Nat) (s : State) (width height framerate : Int) :
    Asks o s (s.lorieConfigureNotify width height framerate) := by
  unfold lorieConfigureNotify
  dsimp only
  generalize (if framerate = 0 then 30 else framerate) = framerate
  split
  · refine ⟨id, .inl ?_⟩
    unfold configures
    rw [List.filter_append]
    exact List.append_nil _
  · exact .refl o s

section Asks

variable {o : Nat} (ho : o ∈ s.outputs.selections) (hw : (s.outputs.heap o).window ≠ 0)

include ho hw

theorem asks_moveContent {window : Nat} (hmem : window ∈ s.desktop.lastChild.windows) (x y : Int) :
    Asks o s (s.moveContent window x y) := by
  unfold moveContent configurePosition
  dsimp only
  split
  · exact .refl o s
  · rw [if_neg (Desktop.topLevel_ne_root hmem)]
    exact .of_changed ho hw rfl

theorem asks_configureSize (env : Env) {window : Nat} (h : window ≠ s.desktop.root) (width height : Int) :
    Asks o s (s.configureSize env window width height) := by
  unfold configureSize
  dsimp only
  rw [if_neg h]
  exact .of_changed ho hw rfl

theorem asks_placeOwner (env : Env) {window : Nat} (hmem : window ∈ s.desktop.lastChild.windows)
    (x y width height : Int) :
    Asks o s (s.placeOwner env window x y width height) := by
  have hsame := same_moveContent s window x y
  have hasks := asks_moveContent ho hw hmem x y
  have hroot : window ≠ s.desktop.root := fun e => (List.nodup_cons.1 s.desktop.nodup).1 (e ▸ hmem)
  unfold placeOwner
  generalize s.moveContent window x y = t at hsame hasks ⊢
  dsimp only
  split
  · refine hasks.trans (asks_configureSize ?_ ?_ env ?_ width height)
    · rwa [hsame.selections]
    · rwa [hsame.window]
    · rwa [hsame.desktop.root]
  · exact hasks

theorem asks_placeTransient {placement : FamilyPlacement} {window : Nat} (hmem : window ∈ s.desktop.lastChild.windows) :
    Asks o s (placeTransient (s, placement) window).1 := by
  have hsame := same_dialogParent s window
  have hasks : Asks o s (s.lorieWindowInitialDialogParent window).2 := by
    rw [dialogParent_state]
    split
    · exact .refl o s
    · exact ⟨id, .inl rfl⟩
  unfold placeTransient
  dsimp only
  split
  · exact .refl o s
  · refine hasks.trans (asks_moveContent ?_ ?_ ?_ _ _)
    · rwa [hsame.selections]
    · rwa [hsame.window]
    · rwa [hsame.desktop.lastChild]

theorem asks_family (placement : FamilyPlacement) {l : List Nat} (hl : l ⊆ s.desktop.lastChild.windows) :
    Asks o s (l.foldl placeTransient (s, placement)).1 := by
  have hstart : Same s (s, placement).1 ∧ Asks o s (s, placement).1 := ⟨.refl s, .refl o s⟩
  refine (List.foldlRecOn l placeTransient (motive := fun r => Same s r.1 ∧ Asks o s r.1) hstart ?_).2
  rintro ⟨t, placement⟩ ⟨hsame, hasks⟩ w hwl
  refine ⟨hsame.trans (same_placeTransient _ w), hasks.trans (asks_placeTransient ?_ ?_ ?_)⟩
  · rwa [hsame.selections]
  · rwa [hsame.window]
  · rw [hsame.desktop.lastChild]
    exact hl hwl

theorem asks_reconcile (env : Env) (output : Nat) {window : Nat} (hmem : window ∈ s.desktop.lastChild.windows) :
    Asks o s (s.reconcile env output window) := by
  unfold reconcile
  generalize s.proposedSize env output window = size
  obtain ⟨width, height⟩ := size
  dsimp only
  have hsame := (placeOwner_place hmem env (max 0 (s.place window).x) (max 0 (s.place window).y) width height).1
  have hasks := asks_placeOwner ho hw env hmem (max 0 (s.place window).x) (max 0 (s.place window).y) width height
  generalize s.placeOwner env window _ _ width height = t at hsame hasks ⊢
  rw [family_foldl]
  have hfamily := asks_family (s := t) (o := o) (by rwa [hsame.selections]) (by rwa [hsame.window])
    ⟨window, max 0 (s.place window).x + width, max 0 (s.place window).y + height, 0, t.outputs.separated output⟩
    (t.desktop.family_subset window)
  generalize (t.desktop.family window).foldl placeTransient _ = r at hfamily ⊢
  refine hasks.trans (hfamily.trans ?_)
  unfold growScreen
  dsimp only
  split
  · exact asks_configureNotify o _ _ _ _
  · exact .refl o _

end Asks

/-! ## The pass over the outputs -/

/-- The only live individual output. -/
structure Alone (outputs : Leases.State) (o : Nat) : Prop where
  nodup : outputs.selections.Nodup
  mem : o ∈ outputs.selections
  dead : (outputs.heap o).dead = false
  borrowed : (outputs.heap o).borrowed = false
  others : ∀ p ∈ outputs.selections, p ≠ o → (outputs.heap p).dead = true ∨ (outputs.heap p).borrowed = true

theorem Alone.same {o : Nat} {t : State} (h : Alone s.outputs o) (hsame : Same s t) : Alone t.outputs o where
  nodup := hsame.selections ▸ h.nodup
  mem := hsame.selections ▸ h.mem
  dead := (hsame.dead o).trans h.dead
  borrowed := (hsame.borrowed o).trans h.borrowed
  others := by
    intro p hp hne
    rw [hsame.dead, hsame.borrowed]
    exact h.others p (hsame.selections ▸ hp) hne

/-- An output is served: it does not wait any more. -/
def served (s : State) (o : Nat) : State :=
  { s with outputs := s.outputs.modify o fun o => { o with resizePending := false, geometryPending := false } }

theorem same_served (s : State) (o : Nat) : Same s (s.served o) where
  desktop := .refl _
  selections := rfl
  settings := by
    intro p
    unfold served Leases.State.modify
    dsimp only
    rw [Function.update_apply]
    split
    · rename_i h
      rw [h]
      rfl
    · rfl

theorem prepare_skip {env : Env} {o : Nat} (h : (s.outputs.heap o).dead = true ∨ (s.outputs.heap o).borrowed = true) :
    s.prepare env o = s :=
  if_pos (.inr h)

/-- A turn for a live individual output with a window. -/
theorem prepare_eq (env : Env) {o : Nat} (hdead : (s.outputs.heap o).dead = false)
    (hborrowed : (s.outputs.heap o).borrowed = false) (hw : (s.outputs.heap o).window ∈ s.desktop.windows) :
    s.prepare env o =
      if (s.outputs.heap o).resizePending = true ∨ (s.outputs.heap o).geometryPending = true then
        (s.served o).reconcile env o (s.outputs.heap o).window
      else s := by
  have hzero : (s.outputs.heap o).window ≠ 0 := fun e => s.desktop.nonzero (e ▸ hw)
  have hlookup : s.desktop.lookup (s.outputs.heap o).window = some (s.outputs.heap o).window := if_pos ⟨hzero, hw⟩
  unfold prepare
  dsimp only
  rw [hdead, hborrowed, if_neg hzero, hlookup]
  cases (s.outputs.heap o).resizePending <;> cases (s.outputs.heap o).geometryPending <;> rfl

theorem same_prepare (env : Env) {o : Nat} (hdead : (s.outputs.heap o).dead = false)
    (hborrowed : (s.outputs.heap o).borrowed = false) (hw : (s.outputs.heap o).window ∈ s.desktop.windows)
    (hreconcile : Same (s.served o) ((s.served o).reconcile env o (s.outputs.heap o).window)) :
    Same s (s.prepare env o) := by
  rw [prepare_eq env hdead hborrowed hw]
  split
  · exact (same_served s o).trans hreconcile
  · exact .refl s

/-- The pass is the turn of the only live individual output. -/
theorem loriePrepareOutputs_eq {env : Env} {o : Nat} (h : Alone s.outputs o) (hsame : Same s (s.prepare env o)) :
    s.loriePrepareOutputs env = s.prepare env o := by
  refine foldl_only (P := fun t => Same s t) h.mem h.nodup ?_ (.refl s) hsame
  intro t ht p hp hne
  refine prepare_skip ?_
  rw [ht.dead, ht.borrowed]
  exact h.others p hp hne

/-- Windows in their places, whatever waits. -/
theorem Settled.outputs {env : Env} {output window : Nat} {t : State} (h : Settled env s output window) (hsame : Same s t)
    (hdesktop : t.desktop = s.desktop) : Settled env t output window := by
  have hplace : t.place = s.place := by
    unfold place
    rw [hdesktop]
  refine ⟨?_, ?_, ?_, ?_, ?_, ?_⟩
  · rw [hplace]
    exact h.x
  · rw [hplace]
    exact h.y
  · refine proposedSize_same hsame ?_
    rw [hplace]
    exact h.size
  · rw [hplace, hdesktop, hsame.separated]
    exact h.arrived
  · rw [hplace, hdesktop]
    exact h.right
  · rw [hplace, hdesktop]
    exact h.bottom

/-- A pass over windows in their places requests nothing. -/
theorem settled_prepare (env : Env) {o : Nat} (ha : Alone s.outputs o)
    (hw : (s.outputs.heap o).window ∈ s.desktop.windows)
    (h : Settled env s o (s.outputs.heap o).window) :
    (s.loriePrepareOutputs env).calls = s.calls ∧ (s.loriePrepareOutputs env).desktop = s.desktop := by
  have hserved : (s.served o).reconcile env o (s.outputs.heap o).window = s.served o :=
    settled_reconcile (h.outputs (same_served s o) rfl)
  have hsame := same_prepare env ha.dead ha.borrowed hw (by rw [hserved]; exact .refl _)
  rw [loriePrepareOutputs_eq ha hsame, prepare_eq env ha.dead ha.borrowed hw]
  split
  · rw [hserved]
    exact ⟨rfl, rfl⟩
  · exact ⟨rfl, rfl⟩

/-! ## What reconciliation is for -/

/-- The window and its transients can be reached on the screen. -/
structure Reconciled (s : State) (output window : Nat) : Prop where
  coordinates : 0 ≤ (s.place window).x ∧ 0 ≤ (s.place window).y
  size : (s.outputs.heap output).ownsSize = true →
    let constraints := lorieWindowConstraints s.desktop.atom (s.desktop.heap window).toWindow
    (constraints.minWidth ≤ (s.place window).width ∧ (s.place window).width ≤ constraints.maxWidth) ∧
      constraints.minHeight ≤ (s.place window).height ∧ (s.place window).height ≤ constraints.maxHeight
  inside : s.outputs.separated output = false → ∀ w ∈ s.desktop.family window, w ≠ window →
    Inside (s.place w).x (s.place w).width (s.place window).x (s.place window).width ∧
      Inside (s.place w).y (s.place w).height (s.place window).y (s.place window).height
  screen : ∀ w ∈ window :: s.desktop.family window,
    (0 ≤ (s.place w).x ∧ (s.place w).x + (s.place w).width ≤ (s.place s.desktop.root).width) ∧
      0 ≤ (s.place w).y ∧ (s.place w).y + (s.place w).height ≤ (s.place s.desktop.root).height

theorem Settled.reconciled {env : Env} {output window : Nat} (h : Settled env s output window) :
    Reconciled s output window where
  coordinates := ⟨h.x, h.y⟩
  size := by
    intro hown
    obtain ⟨⟨-, hwidth, -⟩, ⟨-, hheight, -⟩, -⟩ :=
      SizeHints.usable_constraints s.desktop.atom (s.desktop.heap window).toWindow
    have hsize := h.size
    unfold proposedSize at hsize
    dsimp only at hsize
    rw [if_pos hown] at hsize
    obtain ⟨hw, hh⟩ := Prod.mk.inj hsize
    dsimp only [SizeHints.ofList] at hwidth hheight ⊢
    omega
  inside := by
    intro hseparated w hw hne
    have harrived := h.arrived w hw hne
    rw [hseparated] at harrived
    exact ⟨inside_of_placeAxis harrived.x, inside_of_placeAxis harrived.y⟩
  screen := by
    intro w hw
    have hnonneg : 0 ≤ (s.place w).x ∧ 0 ≤ (s.place w).y := by
      by_cases hww : w = window
      · rw [hww]
        exact ⟨h.x, h.y⟩
      · have harrived := h.arrived w ((List.mem_cons.1 hw).resolve_left hww) hww
        exact ⟨harrived.x ▸ placeAxis_nonneg h.x, harrived.y ▸ placeAxis_nonneg h.y⟩
    exact ⟨⟨hnonneg.1, h.right w hw⟩, hnonneg.2, h.bottom w hw⟩

/-- The root is in its place, if it has the size that is proposed. -/
theorem settled_root {env : Env} {output : Nat} (hx : (s.place s.desktop.root).x = 0) (hy : (s.place s.desktop.root).y = 0)
    (hsize : s.proposedSize env output s.desktop.root =
      ((s.place s.desktop.root).width, (s.place s.desktop.root).height)) :
    Settled env s output s.desktop.root := by
  have hfamily : s.desktop.family s.desktop.root = [] := s.desktop.visits_root _
  refine ⟨hx.ge, hy.ge, hsize, ?_, ?_, ?_⟩
  · rw [hfamily]
    exact fun w hw => absurd hw List.not_mem_nil
  · rw [hfamily]
    intro w hw
    rw [List.mem_singleton.1 hw, hx, zero_add]
  · rw [hfamily]
    intro w hw
    rw [List.mem_singleton.1 hw, hy, zero_add]

/-- The first pass settles the window of the only live individual output. -/
theorem prepare_settles {env : Env} {o : Nat} (ha : Alone s.outputs o)
    (hpending : (s.outputs.heap o).resizePending = true ∨ (s.outputs.heap o).geometryPending = true)
    (hwindow : (s.outputs.heap o).window ∈ s.desktop.windows)
    (hroot : (s.outputs.heap o).window = s.desktop.root →
      (s.place s.desktop.root).x = 0 ∧ (s.place s.desktop.root).y = 0 ∧
        s.proposedSize env o s.desktop.root = ((s.place s.desktop.root).width, (s.place s.desktop.root).height))
    (hscreen : 0 < (s.place s.desktop.root).width ∧ 0 < (s.place s.desktop.root).height)
    (hcount : (s.desktop.family (s.outputs.heap o).window).length ≤ maxFamilyLayers)
    (htops : DistinctTops s.desktop ((s.outputs.heap o).window :: s.desktop.family (s.outputs.heap o).window)) :
    Same s (s.loriePrepareOutputs env) ∧ Settled env (s.loriePrepareOutputs env) o (s.outputs.heap o).window ∧
      ((s.loriePrepareOutputs env).configures ≠ s.configures →
        ((s.loriePrepareOutputs env).outputs.heap o).geometryPending = true) := by
  have hserved := same_served s o
  have hcalls : (s.served o).configures = s.configures := rfl
  have hpass : Same (s.served o) ((s.served o).reconcile env o (s.outputs.heap o).window) ∧
      Settled env ((s.served o).reconcile env o (s.outputs.heap o).window) o (s.outputs.heap o).window ∧
      Asks o (s.served o) ((s.served o).reconcile env o (s.outputs.heap o).window) := by
    rcases List.mem_cons.1 hwindow with h | h
    · -- the root stays as it is
      obtain ⟨hx, hy, hsize⟩ := hroot h
      have hsettled : Settled env (s.served o) o s.desktop.root :=
        (settled_root hx hy hsize).outputs hserved rfl
      rw [h, settled_reconcile hsettled]
      exact ⟨.refl _, hsettled, .refl o _⟩
    · obtain ⟨hsame, hsettled⟩ :=
        reconcile_settles (s := s.served o) env o h hscreen.1 hscreen.2 hcount htops
      have hzero : ((s.served o).outputs.heap o).window ≠ 0 := by
        rw [hserved.window]
        exact fun e => s.desktop.nonzero (e ▸ hwindow)
      exact ⟨hsame, hsettled, asks_reconcile (s := s.served o) (o := o) ha.mem hzero env o h⟩
  obtain ⟨hsame, hsettled, hasks⟩ := hpass
  have hturn := prepare_eq env ha.dead ha.borrowed hwindow
  rw [if_pos hpending] at hturn
  rw [loriePrepareOutputs_eq ha (same_prepare env ha.dead ha.borrowed hwindow hsame), hturn]
  exact ⟨hserved.trans hsame, hsettled, fun hne => hasks.noted.resolve_left fun e => hne (e.trans hcalls)⟩

/-- **Reconciliation reaches a fixed point in one pass**: the window of the only live individual output and its family are
in their places on the screen, the output waits again if a window was configured, and another pass, whether it is asked for
or not, requests nothing and leaves the windows as they are. The root cannot be configured, and must be in its place. -/
theorem geometry_reconciled (env : Env) (s : State) (o : Nat) (ha : Alone s.outputs o)
    (hpending : (s.outputs.heap o).resizePending = true ∨ (s.outputs.heap o).geometryPending = true)
    (hwindow : (s.outputs.heap o).window ∈ s.desktop.windows)
    (hroot : (s.outputs.heap o).window = s.desktop.root →
      (s.place s.desktop.root).x = 0 ∧ (s.place s.desktop.root).y = 0 ∧
        s.proposedSize env o s.desktop.root = ((s.place s.desktop.root).width, (s.place s.desktop.root).height))
    (hscreen : 0 < (s.place s.desktop.root).width ∧ 0 < (s.place s.desktop.root).height)
    (hcount : (s.desktop.family (s.outputs.heap o).window).length ≤ maxFamilyLayers)
    (htops : DistinctTops s.desktop ((s.outputs.heap o).window :: s.desktop.family (s.outputs.heap o).window)) :
    ∃ t, s.loriePrepareOutputs env = t ∧ Reconciled t o (s.outputs.heap o).window ∧
      (t.configures ≠ s.configures → (t.outputs.heap o).geometryPending = true) ∧
      ∀ u, u = t ∨ u = t.lorieOutputGeometryChanged →
        (u.loriePrepareOutputs env).calls = t.calls ∧ (u.loriePrepareOutputs env).desktop = t.desktop := by
  obtain ⟨hsame, hsettled, hasks⟩ := prepare_settles ha hpending hwindow hroot hscreen hcount htops
  refine ⟨_, rfl, hsettled.reconciled, hasks, ?_⟩
  generalize s.loriePrepareOutputs env = t at hsame hsettled ⊢
  have hagain : ∀ u, Same t u → u.desktop = t.desktop → u.calls = t.calls →
      (u.loriePrepareOutputs env).calls = t.calls ∧ (u.loriePrepareOutputs env).desktop = t.desktop := by
    intro u hu hdesktop hcalls
    have hw : (u.outputs.heap o).window = (s.outputs.heap o).window := (hsame.trans hu).window o
    have hquiet := settled_prepare env (ha.same (hsame.trans hu))
      (by rw [hw, (hsame.trans hu).desktop.windows]; exact hwindow) (by rw [hw]; exact hsettled.outputs hu hdesktop)
    exact ⟨hquiet.1.trans hcalls, hquiet.2.trans hdesktop⟩
  rintro u (rfl | rfl)
  · exact hagain _ (.refl _) rfl rfl
  · exact hagain _ (same_geometryChanged t) rfl rfl

/-! ## A window with a dialog -/

/-- A window of the example -/
def surface (parent : Nat) (x y originX originY width height : Int) (properties : Name → Option Property) : Surface where
  id := 0
  parent := parent
  inputOutput := true
  overrideRedirect := false
  realized := true
  x := x
  y := y
  width := width
  height := height
  properties := properties
  number := 0
  wasRealized := true
  originX := originX
  originY := originY
  borderWidth := 1
  considered := false

/-- The root 1, the client 11 in the frame 10, and its dialog 20 -/
def dialogDesktop : Desktop where
  atom := Name.ctorIdx
  managerWindow := some 2
  focus := none
  root := 1
  lastChild := .node 10 (.node 11 .nil .nil) (.node 20 .nil .nil)
  heap := fun w =>
    if w = 10 then surface 1 (-30) 10 (-30) 10 310 225 fun _ => none
    else if w = 11 then surface 10 (-25) 30 5 20 300 200 fun _ => none
    else if w = 20 then
      surface 1 700 500 700 500 100 80 fun
        | .wmTransientFor => some ⟨Name.ctorIdx .window, 32, [11]⟩
        | .netWmWindowType => some ⟨Name.ctorIdx .atom, 32, [Name.ctorIdx .typeDialog]⟩
        | _ => none
    else surface 0 0 0 0 0 800 600 fun _ => none
  linked := ⟨rfl, ⟨rfl, trivial, trivial⟩, rfl, trivial, trivial⟩
  nodup := by decide
  nonzero := by decide
  parent_root := rfl

/-- An output that owns the size of the client and asks for 400 by 900 -/
def dialogState : State where
  outputs :=
    { heap := fun _ =>
        { OutputSelection.zero with
          id := 7
          window := 11
          resizePending := true
          ownsSize := true
          width := 400
          height := 900 }
      selections := [0]
      events := []
      device := fun _ => false }
  desktop := dialogDesktop
  framerate := 60
  calls := []

/-- A host that takes every size, and windows that stay where they are in their parent. -/
def plainEnv : Env where
  windowSize := fun _ width height => (width, height)
  gravity := fun _ _ _ _ _ => (0, 0)

/-- The frame is moved, the client resized, the dialog centered, and the screen grows. -/
theorem geometry_reconciled_dialog :
    ∃ t, dialogState.loriePrepareOutputs plainEnv = t ∧ Reconciled t 0 11 ∧
      (t.configures ≠ dialogState.configures → (t.outputs.heap 0).geometryPending = true) ∧
      ∀ u, u = t ∨ u = t.lorieOutputGeometryChanged →
        (u.loriePrepareOutputs plainEnv).calls = t.calls ∧ (u.loriePrepareOutputs plainEnv).desktop = t.desktop :=
  geometry_reconciled plainEnv dialogState 0 ⟨by decide, by decide, rfl, rfl, by decide⟩ (by decide) (by decide)
    (fun h => absurd h (by decide)) (by decide) (by decide) (by unfold DistinctTops; decide)

example : (dialogState.loriePrepareOutputs plainEnv).calls =
    [.position 10 (-6) 9, .size 11 400 900, .position 20 149 439, .screen 800 930] := by decide

end State

end Lorie.Outputs.Placement
