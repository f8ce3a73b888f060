import Lorie.Outputs.Leases
import Lorie.Windows.Family
import Lorie.Windows.SizeHints

/-!
# The geometry of an individual output

`loriePrepareOutputs` brings the window of an output and its family into the screen: it moves the window to non-negative
coordinates, resizes it if the output owns its size, centers a dialog once, moves each transient into the window and grows
the screen (`window_outputs.c`, `window_placement.h`). Each configured window asks for another reconciliation.

A configured window takes the place that is requested, and what is in it moves along; the screen takes the size that is
requested. The screen has the size of the root window. `calls` is history: what was requested.

- `moveContent_movedTo`: a window and what is in the same top-level window move, and nothing else does;
- `placeTransient_placed`: a transient comes to a place that it keeps (`Arrived`);
- `placeTransient_arrived`: there, it is not moved again.
-/

namespace Lorie.Outputs.Placement

open Lorie.Windows Leases

/-! ## The axes -/

/-- `lorieWindowPositionSpecified` -/
def lorieWindowPositionSpecified (hints : List Nat) : Bool :=
  match hints with
  | [] => false
  | flags :: _ => flags.testBit 0 || flags.testBit 2

/-- `lorieCenterTransientAxis` -/
def lorieCenterTransientAxis (extent origin available : Int) : Int :=
  origin + if extent < available then (available - extent).tdiv 2 else 0

/-- `loriePlaceTransientAxis` -/
def loriePlaceTransientAxis (position extent origin available : Int) : Int :=
  let last := origin + if extent < available then available - extent else 0
  if position < origin then origin else if position > last then last else position

/-! ## The screen -/

/-- What is asked of the X server. -/
inductive Call where
  /-- `ConfigureWindow` with `CWX | CWY` -/
  | position (window : Nat) (x y : Int)
  /-- `ConfigureWindow` with `CWWidth | CWHeight` -/
  | size (window : Nat) (width height : Int)
  /-- `RRScreenSizeSet` -/
  | screen (width height : Int)
  deriving DecidableEq, Repr

structure State where
  outputs : Leases.State
  desktop : Desktop
  /-- `pvfb->root.framerate` -/
  framerate : Int
  /-- History: what was asked. -/
  calls : List Call

structure Env where
  /-- `serverCallbacks.windowSize` -/
  windowSize : WindowConstraints → Int → Int → Int × Int
  /-- How far a window goes when a window that contains it is resized. -/
  gravity : Desktop → Nat → Int → Int → Nat → Int × Int

namespace State

variable (s : State)

/-- The place of a window -/
def place (w : Nat) : Place := (s.desktop.heap w).place

/-- `lorieOutputGeometryChanged`, which the hook of every configured window calls -/
def lorieOutputGeometryChanged : State :=
  { s with outputs := s.outputs.each fun o => if o.window ≠ 0 then { o with geometryPending := true } else o }

/-- A window takes its place, and what is in it moves along. -/
def moved (d : Desktop) (window : Nat) (x y : Int) : Desktop :=
  let dx := x + (d.heap window).borderWidth - (d.heap window).originX
  let dy := y + (d.heap window).borderWidth - (d.heap window).originY
  d.put fun w =>
    let p := (d.heap w).place
    if w ∈ d.subtree window then
      { p with
        x := p.x + dx
        y := p.y + dy
        originX := if w = window then p.originX + dx else p.originX
        originY := if w = window then p.originY + dy else p.originY }
    else p

/-- A window takes its size, and what is in it follows by its gravity. -/
def resized (env : Env) (d : Desktop) (window : Nat) (width height : Int) : Desktop :=
  d.put fun w =>
    let p := (d.heap w).place
    if w = window then { p with width := width, height := height }
    else if w ∈ d.subtree window then
      let (dx, dy) := env.gravity d window width height w
      let p := { p with x := p.x + dx, y := p.y + dy }
      if (d.heap w).parent = window then { p with originX := p.originX + dx, originY := p.originY + dy } else p
    else p

/-- `ConfigureWindow` with a position. The root cannot be configured. -/
def configurePosition (window : Nat) (x y : Int) : State :=
  let s := { s with calls := s.calls ++ [.position window x y] }
  if window = s.desktop.root then s
  else { s.lorieOutputGeometryChanged with desktop := moved s.desktop window x y }

/-- `ConfigureWindow` with a size. -/
def configureSize (env : Env) (window : Nat) (width height : Int) : State :=
  let s := { s with calls := s.calls ++ [.size window width height] }
  if window = s.desktop.root then s
  else { s.lorieOutputGeometryChanged with desktop := resized env s.desktop window width height }

/-- `lorieConfigureNotify`; the mode and the screen take the size. -/
def lorieConfigureNotify (width height framerate : Int) : State :=
  let root := s.place s.desktop.root
  let framerate := if framerate = 0 then 30 else framerate
  if width ≠ 0 ∧ height ≠ 0 ∧ (root.width ≠ width ∨ root.height ≠ height ∨ s.framerate ≠ framerate) then
    { s with
      desktop := s.desktop.put fun w =>
        let p := s.place w
        if w = s.desktop.root then { p with width := width, height := height } else p
      framerate := framerate
      calls := s.calls ++ [.screen width height] }
  else s

/-! ## Transients -/

/-- `moveContent` -/
def moveContent (window : Nat) (x y : Int) : State :=
  let w := s.place window
  if x = w.x ∧ y = w.y then s
  else
    let top := s.desktop.topLevel window
    let t := s.desktop.heap top
    s.configurePosition top (t.originX - t.borderWidth + x - w.x) (t.originY - t.borderWidth + y - w.y)

/-- `*considered = TRUE` -/
def consider (window : Nat) : State :=
  { s with
    desktop := s.desktop.put fun w =>
      if w = window then { s.place w with considered := true } else s.place w }

/-- `WM_NORMAL_HINTS` that name a position -/
def positionSpecified (window : Nat) : Bool :=
  match property (s.desktop.heap window).toWindow .wmNormalHints with
  | some hints =>
    hints.type = s.desktop.atom .wmSizeHints && hints.format = 32 && lorieWindowPositionSpecified hints.data
  | none => false

/-- `lorieWindowInitialDialogParent` -/
def lorieWindowInitialDialogParent (window : Nat) : Option Nat × State :=
  let d := s.desktop
  let w := d.heap window
  if w.considered then (none, s)
  else
    let s := s.consider window
    if d.managerWindow.isNone ∨ w.overrideRedirect ∨ !w.inputOutput ∨ w.parent ≠ d.root ∨
        !d.hasAtom window .netWmWindowType .typeDialog then (none, s)
    else
      match d.transientFor window with
      | none => (none, s)
      | some parent =>
        if parent = window ∨ parent = d.root ∨ !(d.heap parent).realized ∨ !(d.heap parent).inputOutput then (none, s)
        else if s.positionSpecified window then (none, s)
        else (some parent, s)

/-- `FamilyPlacement` -/
structure FamilyPlacement where
  owner : Nat
  right : Int
  bottom : Int
  count : Nat
  external : Bool
  deriving DecidableEq, Repr

/-- The position of a transient along an axis. -/
def placeAxis (external : Bool) (position extent origin available : Int) : Int :=
  if external then max 0 position else loriePlaceTransientAxis position extent origin available

/-- `placeTransient` -/
def placeTransient : State × FamilyPlacement → Nat → State × FamilyPlacement
  | (s, placement), window =>
    let counted := { placement with count := placement.count + 1 }
    if placement.count ≥ maxFamilyLayers ∨ window = placement.owner then (s, counted)
    else
      let (parent, s) := s.lorieWindowInitialDialogParent window
      let owner := s.place placement.owner
      let w := s.place window
      let x := match parent with
        | some parent => lorieCenterTransientAxis w.width (s.place parent).x (s.place parent).width
        | none => w.x
      let y := match parent with
        | some parent => lorieCenterTransientAxis w.height (s.place parent).y (s.place parent).height
        | none => w.y
      let x := placeAxis placement.external x w.width owner.x owner.width
      let y := placeAxis placement.external y w.height owner.y owner.height
      let s := s.moveContent window x y
      let w := s.place window
      (s, { counted with right := max placement.right (x + w.width), bottom := max placement.bottom (y + w.height) })

/-! ## Outputs -/

/-- The size that the output proposes, within the limits of the window. -/
def proposedSize (env : Env) (output window : Nat) : Int × Int :=
  let o := s.outputs.heap output
  if o.ownsSize then
    let constraints := lorieWindowConstraints s.desktop.atom (s.desktop.heap window).toWindow
    let (width, height) := env.windowSize constraints o.width o.height
    (max constraints.minWidth (min constraints.maxWidth width),
      max constraints.minHeight (min constraints.maxHeight height))
  else ((s.place window).width, (s.place window).height)

/-- The window takes its position and its size. -/
def placeOwner (env : Env) (window : Nat) (x y width height : Int) : State :=
  -- Move the containing top-level (including any WM frame), not its child content.
  let s := s.moveContent window x y
  if width ≠ (s.place window).width ∨ height ≠ (s.place window).height then
    s.configureSize env window width height
  else s

/-- The screen grows to what was placed. -/
def growScreen (placement : FamilyPlacement) : State :=
  let root := s.place s.desktop.root
  let screenWidth := max root.width placement.right
  let screenHeight := max root.height placement.bottom
  if screenWidth ≠ root.width ∨ screenHeight ≠ root.height then s.lorieConfigureNotify screenWidth screenHeight 60
  else s

/-- `loriePrepareOutputs` for the window of an output -/
def reconcile (env : Env) (output window : Nat) : State :=
  let (width, height) := s.proposedSize env output window
  let x := max 0 (s.place window).x
  let y := max 0 (s.place window).y
  let s := s.placeOwner env window x y width height
  let (s, placement) := Desktop.lorieWindowFamily (fun s => s.1.desktop) window placeTransient
    (s, ⟨window, x + width, y + height, 0, s.outputs.separated output⟩)
  s.growScreen placement

/-- A turn of `loriePrepareOutputs` -/
def prepare (env : Env) (output : Nat) : State :=
  let o := s.outputs.heap output
  if (!o.resizePending ∧ !o.geometryPending) ∨ o.dead ∨ o.borrowed then s
  else
    let s : State :=
      { s with outputs := s.outputs.modify output fun o => { o with resizePending := false, geometryPending := false } }
    if o.window = 0 then if o.resizePending then s.lorieConfigureNotify o.width o.height 60 else s
    else
      match s.desktop.lookup o.window with
      | some window => s.reconcile env output window
      | none => s

/-- `loriePrepareOutputs` -/
def loriePrepareOutputs (env : Env) : State := s.outputs.selections.foldl (fun s output => s.prepare env output) s

end State

/-! ## A position that stays -/

/-- In the extent of the owner along an axis, or at its origin if larger. -/
def Inside (position extent origin available : Int) : Prop :=
  (extent ≤ available → origin ≤ position ∧ position + extent ≤ origin + available) ∧
    (available < extent → position = origin)

section Axis

variable {external : Bool} {position extent origin available : Int}

/-- A position that was found is found again. -/
theorem placeAxis_placeAxis :
    State.placeAxis external (State.placeAxis external position extent origin available) extent origin available =
      State.placeAxis external position extent origin available := by
  unfold State.placeAxis loriePlaceTransientAxis
  cases external with
  | true =>
    simp only [if_true]
    omega
  | false =>
    simp only [Bool.false_eq_true, if_false]
    omega

theorem placeAxis_nonneg (h : 0 ≤ origin) : 0 ≤ State.placeAxis external position extent origin available := by
  unfold State.placeAxis loriePlaceTransientAxis
  cases external with
  | true =>
    simp only [if_true]
    omega
  | false =>
    simp only [Bool.false_eq_true, if_false]
    omega

/-- A position that stays is inside. -/
theorem inside_of_placeAxis (h : State.placeAxis false position extent origin available = position) :
    Inside position extent origin available := by
  unfold State.placeAxis loriePlaceTransientAxis at h
  unfold Inside
  simp only [Bool.false_eq_true, if_false] at h
  omega

end Axis

/-! ## What stays the same -/

/-- The fields of an output that reconciliation does not change. -/
def settings (o : OutputSelection) : OutputSelection := { o with resizePending := false, geometryPending := false }

/-- The windows are at other places, and outputs wait for reconciliation or do not. -/
structure Same (s t : State) : Prop where
  desktop : s.desktop.Moved t.desktop
  selections : t.outputs.selections = s.outputs.selections
  settings : ∀ o, settings (t.outputs.heap o) = settings (s.outputs.heap o)

namespace Same

variable {s t u : State}

theorem refl (s : State) : Same s s := ⟨.refl _, rfl, fun _ => rfl⟩

theorem trans (h : Same s t) (h' : Same t u) : Same s u where
  desktop := h.desktop.trans h'.desktop
  selections := h'.selections.trans h.selections
  settings := fun o => (h'.settings o).trans (h.settings o)

theorem dead (h : Same s t) (o : Nat) : (t.outputs.heap o).dead = (s.outputs.heap o).dead :=
  (congrArg OutputSelection.dead (h.settings o) :)

theorem window (h : Same s t) (o : Nat) : (t.outputs.heap o).window = (s.outputs.heap o).window :=
  (congrArg OutputSelection.window (h.settings o) :)

theorem borrowed (h : Same s t) (o : Nat) : (t.outputs.heap o).borrowed = (s.outputs.heap o).borrowed :=
  (congrArg OutputSelection.borrowed (h.settings o) :)

theorem separated (h : Same s t) (o : Nat) : t.outputs.separated o = s.outputs.separated o := by
  have hparent : ∀ p, (t.outputs.heap p).parent = (s.outputs.heap p).parent := fun p =>
    (congrArg OutputSelection.parent (h.settings p) :)
  have hid : (t.outputs.heap o).id = (s.outputs.heap o).id := (congrArg OutputSelection.id (h.settings o) :)
  unfold Leases.State.separated
  simp only [h.selections, h.dead, hparent, hid]

end Same

/-! ## Windows that are configured -/

namespace State

/-- The part of a place that a move keeps -/
def extent (p : Place) : Int × Int × Bool := (p.width, p.height, p.considered)

variable {s : State}

/-- The hook of a configured window. -/
theorem same_geometryChanged (s : State) : Same s s.lorieOutputGeometryChanged where
  desktop := .refl _
  selections := rfl
  settings := by
    intro o
    unfold lorieOutputGeometryChanged Leases.State.each
    dsimp only
    split
    · split <;> rfl
    · rfl

theorem geometryPending_changed {o : Nat} (ho : o ∈ s.outputs.selections) (hw : (s.outputs.heap o).window ≠ 0) :
    (s.lorieOutputGeometryChanged.outputs.heap o).geometryPending = true := by
  unfold lorieOutputGeometryChanged Leases.State.each
  dsimp only
  rw [if_pos ho, if_pos hw]

section Moved

variable {d : Desktop} {window w : Nat} {x y : Int}

theorem moved_x (h : w ∈ d.subtree window) :
    ((moved d window x y).heap w).x = (d.heap w).x + (x + (d.heap window).borderWidth - (d.heap window).originX) := by
  unfold moved
  simp only [if_pos h, Desktop.put, Surface.put, Surface.place]

theorem moved_y (h : w ∈ d.subtree window) :
    ((moved d window x y).heap w).y = (d.heap w).y + (y + (d.heap window).borderWidth - (d.heap window).originY) := by
  unfold moved
  simp only [if_pos h, Desktop.put, Surface.put, Surface.place]

theorem moved_extent : extent ((moved d window x y).heap w).place = extent (d.heap w).place := by
  unfold moved
  dsimp only [Desktop.put_place]
  split <;> rfl

theorem moved_others (h : w ∉ d.subtree window) : ((moved d window x y).heap w).place = (d.heap w).place := by
  unfold moved
  dsimp only [Desktop.put_place]
  rw [if_neg h]

end Moved

/-- A window and what moves with it are at the position that was asked for. -/
structure MovedTo (s t : State) (window : Nat) (x y : Int) : Prop where
  same : Same s t
  x : (t.place window).x = x
  y : (t.place window).y = y
  extent : ∀ w, extent (t.place w) = extent (s.place w)
  others : ∀ w ∈ s.desktop.windows, s.desktop.topLevel w ≠ s.desktop.topLevel window → t.place w = s.place w

theorem moveContent_self {window : Nat} {x y : Int} (hx : x = (s.place window).x) (hy : y = (s.place window).y) :
    s.moveContent window x y = s :=
  if_pos ⟨hx, hy⟩

theorem same_moveContent (s : State) (window : Nat) (x y : Int) : Same s (s.moveContent window x y) := by
  unfold moveContent configurePosition
  dsimp only
  split
  · exact .refl s
  · split
    · exact ⟨.refl _, rfl, fun _ => rfl⟩
    · exact (same_geometryChanged s).trans ⟨⟨_, rfl⟩, rfl, fun _ => rfl⟩

theorem moveContent_movedTo {window : Nat} (hw : window ∈ s.desktop.lastChild.windows) (x y : Int) :
    MovedTo s (s.moveContent window x y) window x y := by
  have hmem : window ∈ s.desktop.windows := List.mem_cons_of_mem _ hw
  unfold moveContent
  dsimp only
  split
  · rename_i h
    exact ⟨.refl s, h.1.symm, h.2.symm, fun _ => rfl, fun _ _ _ => rfl⟩
  · have hroot : s.desktop.topLevel window ≠ s.desktop.root := Desktop.topLevel_ne_root hw
    unfold configurePosition
    dsimp only
    rw [if_neg hroot]
    have hself := Desktop.mem_subtree_self hmem
    have hx : (s.place window).x = (s.desktop.heap window).x := rfl
    have hy : (s.place window).y = (s.desktop.heap window).y := rfl
    refine ⟨?_, (moved_x hself).trans (by omega), (moved_y hself).trans (by omega), fun w => moved_extent, ?_⟩
    · exact (same_geometryChanged s).trans ⟨⟨_, rfl⟩, rfl, fun _ => rfl⟩
    · exact fun w hw' hne => moved_others fun h => hne ((Desktop.mem_subtree_topLevel hw hw').1 h)

/-- A window that is not the root takes the size that was asked for. -/
theorem configureSize_place (env : Env) {window : Nat} (h : window ≠ s.desktop.root) (width height : Int) :
    (s.configureSize env window width height).place window = { s.place window with width := width, height := height } := by
  unfold configureSize
  dsimp only
  rw [if_neg h]
  unfold place resized
  rw [Desktop.put_place, if_pos rfl]

/-- The root keeps its place. -/
theorem configureSize_root (env : Env) {window : Nat} (h : window ≠ s.desktop.root) (width height : Int) :
    (s.configureSize env window width height).place s.desktop.root = s.place s.desktop.root := by
  have hsub : s.desktop.root ∉ s.desktop.subtree window := by
    unfold Desktop.subtree
    rw [if_neg h]
    exact fun hmem => (List.nodup_cons.1 s.desktop.nodup).1 (Forest.subtree_subset _ _ hmem)
  unfold configureSize
  dsimp only
  rw [if_neg h]
  unfold place resized
  rw [Desktop.put_place, if_neg h.symm, if_neg hsub]

theorem same_configureSize (env : Env) (s : State) (window : Nat) (width height : Int) :
    Same s (s.configureSize env window width height) := by
  unfold configureSize
  dsimp only
  split
  · exact ⟨.refl _, rfl, fun _ => rfl⟩
  · exact (same_geometryChanged s).trans ⟨⟨_, rfl⟩, rfl, fun _ => rfl⟩

/-! ## A transient that is placed -/

theorem consider_place (s : State) (window w : Nat) :
    (s.consider window).place w = if w = window then { s.place w with considered := true } else s.place w :=
  Desktop.put_place _ _ _

/-- The parent of a dialog is looked for once. -/
theorem dialogParent_state (s : State) (window : Nat) :
    (s.lorieWindowInitialDialogParent window).2 = if (s.place window).considered then s else s.consider window := by
  unfold lorieWindowInitialDialogParent
  dsimp only
  split
  · rename_i h
    exact (if_pos h).symm
  · rename_i h
    refine Eq.trans ?_ (if_neg h).symm
    split
    · rfl
    · split
      · rfl
      · split
        · rfl
        · split <;> rfl

theorem same_dialogParent (s : State) (window : Nat) : Same s (s.lorieWindowInitialDialogParent window).2 := by
  rw [dialogParent_state]
  split
  · exact .refl s
  · exact ⟨⟨_, rfl⟩, rfl, fun _ => rfl⟩

/-- Only the placed window was considered. -/
theorem dialogParent_place (s : State) (window w : Nat) :
    (s.lorieWindowInitialDialogParent window).2.place w =
      if w = window then { s.place w with considered := true } else s.place w := by
  rw [dialogParent_state]
  split
  · rename_i h
    split
    · rename_i hw
      subst hw
      rw [← h]
    · rfl
  · exact consider_place s window w

/-- A transient in its place: it was considered, and its position stays. -/
structure Arrived (external : Bool) (owner p : Place) : Prop where
  considered : p.considered = true
  x : placeAxis external p.x p.width owner.x owner.width = p.x
  y : placeAxis external p.y p.height owner.y owner.height = p.y

/-- A transient is placed. -/
structure Placed (s : State) (placement : FamilyPlacement) (window : Nat) (r : State × FamilyPlacement) : Prop where
  same : Same s r.1
  owner : r.2.owner = placement.owner
  external : r.2.external = placement.external
  count : r.2.count = placement.count + 1
  right : r.2.right = max placement.right ((r.1.place window).x + (r.1.place window).width)
  bottom : r.2.bottom = max placement.bottom ((r.1.place window).y + (r.1.place window).height)
  arrived : Arrived placement.external (s.place placement.owner) (r.1.place window)
  others : ∀ w ∈ s.desktop.windows, s.desktop.topLevel w ≠ s.desktop.topLevel window → r.1.place w = s.place w

theorem placeTransient_placed {placement : FamilyPlacement} {window : Nat} (hcount : placement.count < maxFamilyLayers)
    (hne : window ≠ placement.owner) (hw : window ∈ s.desktop.lastChild.windows) :
    Placed s placement window (placeTransient (s, placement) window) := by
  unfold placeTransient
  dsimp only
  rw [if_neg (by omega)]
  have hsame := same_dialogParent s window
  have hplace := dialogParent_place s window
  generalize s.lorieWindowInitialDialogParent window = r at hsame hplace
  obtain ⟨parent, t⟩ := r
  dsimp only at hsame hplace ⊢
  generalize (match parent with
    | some parent => lorieCenterTransientAxis (t.place window).width (t.place parent).x (t.place parent).width
    | none => (t.place window).x) = x
  generalize (match parent with
    | some parent => lorieCenterTransientAxis (t.place window).height (t.place parent).y (t.place parent).height
    | none => (t.place window).y) = y
  have howner : t.place placement.owner = s.place placement.owner :=
    (hplace _).trans (if_neg hne.symm)
  have hwindows : t.desktop.lastChild.windows = s.desktop.lastChild.windows := by rw [hsame.desktop.lastChild]
  have hmoved := moveContent_movedTo (hwindows ▸ hw)
    (placeAxis placement.external x (t.place window).width (t.place placement.owner).x (t.place placement.owner).width)
    (placeAxis placement.external y (t.place window).height (t.place placement.owner).y (t.place placement.owner).height)
  generalize t.moveContent window _ _ = u at hmoved ⊢
  obtain ⟨hwidth, hheight, hconsidered⟩ : (u.place window).width = (t.place window).width ∧
      (u.place window).height = (t.place window).height ∧ (u.place window).considered = (t.place window).considered := by
    simpa [extent] using hmoved.extent window
  refine ⟨hsame.trans hmoved.same, rfl, rfl, rfl, ?_, ?_, ⟨?_, ?_, ?_⟩, ?_⟩
  · rw [hmoved.x]
  · rw [hmoved.y]
  · rw [hconsidered, hplace, if_pos rfl]
  · rw [hmoved.x, hwidth, ← howner]
    exact placeAxis_placeAxis
  · rw [hmoved.y, hheight, ← howner]
    exact placeAxis_placeAxis
  · intro v hv htop
    have hvw : v ≠ window := fun e => htop (e ▸ rfl)
    have hmem : v ∈ t.desktop.windows := by rwa [hsame.desktop.windows]
    rw [hmoved.others v hmem (by rwa [hsame.desktop.topLevel, hsame.desktop.topLevel]), hplace, if_neg hvw]

theorem same_placeTransient (r : State × FamilyPlacement) (window : Nat) : Same r.1 (placeTransient r window).1 := by
  obtain ⟨s, placement⟩ := r
  unfold placeTransient
  dsimp only
  split
  · exact .refl s
  · exact (same_dialogParent s window).trans (same_moveContent _ _ _ _)

/-- The walk of a reconciliation is a fold over the family. -/
theorem family_foldl (s : State) (placement : FamilyPlacement) (window : Nat) :
    Desktop.lorieWindowFamily (fun s : State × FamilyPlacement => s.1.desktop) window placeTransient (s, placement) =
      (s.desktop.family window).foldl placeTransient (s, placement) :=
  Desktop.visitFamily_eq (fun r w => (same_placeTransient r w).desktop) window (s, placement)

/-- A transient that is in its place stays there. -/
theorem placeTransient_arrived {placement : FamilyPlacement} {window : Nat}
    (h : window ≠ placement.owner → Arrived placement.external (s.place placement.owner) (s.place window)) :
    (placeTransient (s, placement) window).1 = s ∧
      (placeTransient (s, placement) window).2.owner = placement.owner ∧
      (placeTransient (s, placement) window).2.external = placement.external ∧
      ∀ right bottom, placement.right ≤ right → placement.bottom ≤ bottom →
        (window ≠ placement.owner → (s.place window).x + (s.place window).width ≤ right ∧
          (s.place window).y + (s.place window).height ≤ bottom) →
        (placeTransient (s, placement) window).2.right ≤ right ∧
          (placeTransient (s, placement) window).2.bottom ≤ bottom := by
  unfold placeTransient
  dsimp only
  split
  · exact ⟨rfl, rfl, rfl, fun right bottom hr hb _ => ⟨hr, hb⟩⟩
  · rename_i hne
    have hne : window ≠ placement.owner := fun e => hne (.inr e)
    obtain ⟨hconsidered, hx, hy⟩ := h hne
    have hparent : s.lorieWindowInitialDialogParent window = (none, s) := if_pos hconsidered
    rw [hparent]
    dsimp only
    rw [moveContent_self hx hy]
    refine ⟨rfl, rfl, rfl, fun right bottom hr hb hw => ?_⟩
    obtain ⟨hright, hbottom⟩ := hw hne
    rw [← hx] at hright
    rw [← hy] at hbottom
    exact ⟨max_le hr hright, max_le hb hbottom⟩

end State

end Lorie.Outputs.Placement
