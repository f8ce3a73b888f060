import Lorie.Outputs.Leases
import Lorie.Windows.FamilyGeometry

/-!
# The images of windows

`loriePublishOutputs` collects the layers of every output from a cache of images, one for each window (`imageFor`,
`appendLayer`), publishes the outputs that changed, and then drops the images that no output used (`pruneImages`). The
cache redirects the windows that it shows, and knows the pixmap of each and what was drawn into it.

The X server answers for pixmaps, Composite and Damage, separately while each output is handled. A window object is named
by the number in its record; its XID can be used again.

History: `calls`, the calls into Composite, and `sent`, with the selection that each message is for.
-/

namespace Lorie.Outputs.Images

open Lorie.Windows

/-! ## The state -/

/-- `WindowImage`. `damage` says whether the region is not empty. -/
structure WindowImage where
  /-- The XID, and 0 for the root -/
  window : Nat
  pixmap : Option Nat
  damage : Option Bool
  changed : Bool
  used : Bool
  redirected : Bool
  deriving DecidableEq, Repr

/-- `changed`, or damage that is not empty -/
def WindowImage.marked (i : WindowImage) : Bool := i.changed || i.damage = some true

/-- A new image -/
def WindowImage.new (id : Nat) : WindowImage := ⟨id, none, none, true, false, false⟩

/-- A call into Composite for a window object -/
inductive Call where
  /-- `compRedirectWindow`, and whether it was successful -/
  | redirect (number : Nat) (success : Bool)
  /-- `compUnredirectWindow` -/
  | unredirect (number : Nat)
  deriving DecidableEq, Repr

structure Cache where
  images : List WindowImage
  calls : List Call

/-- What `loriePublishOutputs` keeps in an `OutputSelection` -/
structure Published where
  seen : Bool
  family : LorieFamilyGeometry
  familyPublished : Bool
  contentWidth : Nat
  contentHeight : Nat
  /-- `layers`, of which there are `layerCount`. They have no buffers yet. -/
  layers : List Layer
  revision : Nat

/-- The memory of a new selection -/
def Published.zero : Published := ⟨false, .zero, false, 0, 0, [], 0⟩

inductive Message where
  | event (e : Event)
  /-- `lorieSendFamilyGeometry` -/
  | family (output : Nat) (geometry : LorieFamilyGeometry)

structure State where
  leases : Leases.State
  published : Nat → Published
  cache : Cache
  /-- History: what was sent, and for which selection -/
  sent : List (Nat × Message)

/-- What the X server answers while an output is handled -/
structure Server (R : Type) where
  calloc : Nat → Bool
  compRedirectWindow : Nat → Bool
  /-- Of a window that the cache has redirected, or has not -/
  GetWindowPixmap : Nat → Bool → Nat
  screenPixmap : Nat
  DamageCreate : Nat → Bool
  pixmapSize : Nat → Nat × Nat
  /-- `drawable.depth` -/
  depth : Nat → Nat
  lorieExportPixmap : Nat → Option Nat
  regions : Regions R

/-! ## Images -/

variable {R : Type}

section Images

variable (d : Desktop) (v : Server R)

/-- `image->window` of a window -/
def imageId (w : Nat) : Nat := if w = d.root then 0 else w

/-- The first image of a window changes. -/
def modifyImage (id : Nat) (f : WindowImage → WindowImage) : List WindowImage → List WindowImage
  | [] => []
  | i :: images => if i.window = id then f i :: images else i :: modifyImage id f images

/-- The image of a window -/
def findImage (id : Nat) (images : List WindowImage) : Option WindowImage := images.find? fun i => i.window = id

/-- The pixmap that an image is to show -/
def imagePixmap (w : Nat) (redirected : Bool) : Option Nat :=
  if (d.heap w).realized then
    let pixmap := v.GetWindowPixmap w redirected
    if imageId d w ≠ 0 ∧ pixmap = v.screenPixmap then none else some pixmap
  else none

/-- An image takes a pixmap. -/
def WindowImage.setPixmap (i : WindowImage) (w : Nat) (pixmap : Option Nat) : WindowImage :=
  if i.pixmap = pixmap then i
  else
    { i with
      pixmap := pixmap
      changed := true
      damage := if pixmap.isSome ∧ v.DamageCreate w then some false else none }

/-- The image is asked to be redirected. -/
def WindowImage.asks (i : WindowImage) (w : Nat) : Bool := imageId d w ≠ 0 && !i.redirected

/-- `imageFor` of an image that there is -/
def WindowImage.refresh (i : WindowImage) (w : Nat) : WindowImage :=
  let redirected := if i.asks d w then v.compRedirectWindow w else i.redirected
  let i := { i with used := true, redirected := redirected }
  i.setPixmap v w (imagePixmap d v w i.redirected)

/-- `imageFor` -/
def imageFor (cache : Cache) (w : Nat) : Option (WindowImage × Cache) :=
  let id := imageId d w
  let images :=
    match findImage id cache.images with
    | some i => some (i, cache.images)
    | none => if v.calloc w then some (.new id, .new id :: cache.images) else none
  images.map fun (i, images) =>
    (i.refresh d v w,
      { images := modifyImage id (·.refresh d v w) images
        calls :=
          if i.asks d w then cache.calls ++ [.redirect (d.heap w).number (v.compRedirectWindow w)] else cache.calls })

/-! ## Layers -/

/-- `FamilyFrame`; the images are named by their windows. -/
structure FamilyFrame where
  images : List Nat
  changed : Bool
  layers : List (Layer × Nat)

def FamilyFrame.zero : FamilyFrame := ⟨[], false, []⟩

/-- The layer of a window whose image has a pixmap -/
def layerOf (owner w pixmap : Nat) : Layer where
  window := w
  x := (d.heap w).x - (d.heap owner).x
  y := (d.heap w).y - (d.heap owner).y
  width := (v.pixmapSize pixmap).1
  height := (v.pixmapSize pixmap).2
  alpha := v.depth w = 32
  bufferId := 0

/-- `appendLayer` -/
def appendLayer (owner : Nat) (childrenOnly : Bool) (s : Cache × FamilyFrame) (w : Nat) : Cache × FamilyFrame :=
  if childrenOnly ∧ w = owner then s
  else if s.2.layers.length = maxFamilyLayers then s
  else
    match imageFor d v s.1 w with
    | none => s
    | some (i, cache) =>
      match i.pixmap with
      | none => (cache, s.2)
      | some pixmap =>
        (cache,
          { images := s.2.images ++ [i.window]
            changed := s.2.changed || i.marked
            layers := s.2.layers ++ [(layerOf d v owner w pixmap, pixmap)] })

end Images

namespace State

/-! ## Publishing -/

section Publish

variable (d : Desktop) (s : State) (v : Server R) (o : Nat)

/-- `OutputSelection` -/
def node : Leases.OutputSelection := s.leases.heap o

/-- What is kept in a selection changes. -/
def keep (f : Published → Published) : State :=
  { s with published := Function.update s.published o (f (s.published o)) }

/-- The window of an output, when the output is not dead and the window exists -/
def window? : Option Nat :=
  if (s.node o).dead then none
  else if (s.node o).window = 0 then some d.root
  else d.lookup (s.node o).window

/-- The layers of an output on a window -/
def layers (window : Nat) (cache : Cache) : Cache × FamilyFrame :=
  if (d.heap window).realized then
    if (s.node o).parent ≠ 0 then
      Desktop.lorieWindowFamily (fun _ => d) window (appendLayer d v window true) (cache, .zero)
    else if s.leases.separated o then appendLayer d v window false (cache, .zero) window
    else if (s.node o).window ≠ 0 then
      Desktop.lorieWindowFamily (fun _ => d) window (appendLayer d v window false) (cache, .zero)
    else appendLayer d v window false (cache, .zero) window
  else (cache, .zero)

/-- What `loriePublishOutputs` collects for an output -/
def collected : Cache × FamilyFrame :=
  match s.window? d o with
  | some window => s.layers d v o window s.cache
  | none => (s.cache, .zero)

/-- An output is seen, or its window is gone. -/
def look : State :=
  match s.window? d o with
  | some _ => s.keep o fun p => { p with seen := true }
  | none => if (s.published o).seen then { s with leases := s.leases.modify o fun x => { x with dead := true } } else s

/-- The family geometry that is to be published. A failed `dixLookupWindow` leaves no window behind, which
`lorieWindowFamilyGeometry` does not survive. -/
def familyGeometry : Option LorieFamilyGeometry :=
  if (s.node o).dead then some .zero
  else (s.window? d o).map fun window => lorieWindowFamilyGeometry v.regions d window true

/-- The family geometry of a dependent output -/
def publishFamily : Option State :=
  if (s.node o).parent ≠ 0 ∧ ((s.node o).geometryPending ∨ !(s.published o).familyPublished ∨ (s.node o).dead) then
    (s.familyGeometry d v o).map fun geometry =>
      let t : State := { s with leases := s.leases.modify o fun x => { x with geometryPending := false } }
      if !(s.published o).familyPublished ∨ geometry ≠ (s.published o).family then
        { t.keep o fun p => { p with family := geometry, familyPublished := true } with
          sent := s.sent ++ [(o, .family (s.node o).id geometry)] }
      else t
  else some s

/-- What is published of an output: the layers, each with the buffer that exports its pixmap -/
def familyOf (window : Nat) (frame : FamilyFrame) : Family where
  drawable := window
  width := (d.heap window).width.toNat
  height := (d.heap window).height.toNat
  layers := frame.layers.map fun l => (l.1, v.lorieExportPixmap l.2)
  presentation := (s.node o).presentation
  viewport := (s.node o).viewport

/-- The next frame event of an output -/
def frameOf (window : Nat) (frame : FamilyFrame) : Frame :=
  Selection.frame ⟨(s.node o).id, (s.node o).window, (s.published o).revision⟩ (s.familyOf d v o window frame) []

/-- The frame of an output is published, after its layers. -/
def publishFrame (window : Nat) (frame : FamilyFrame) : State :=
  let f := s.frameOf d v o window frame
  let t := s.keep o fun p =>
    { p with
      layers := frame.layers.map (·.1), revision := f.revision, contentWidth := f.width, contentHeight := f.height }
  { t with
    leases := t.leases.modify o fun x => { x with changed := false }
    sent := s.sent ++ (frameEvents (s.node o).id f).map fun e => (o, .event e) }

/-- Whether the frame of an output is published -/
def due (frame : FamilyFrame) : Bool :=
  (s.node o).changed || frame.changed || (s.published o).layers ≠ frame.layers.map (·.1)

/-- What `loriePublishOutputs` does for an output -/
def publishOutput : Option State :=
  let window := (s.window? d o).getD d.root
  let (cache, frame) := s.collected d v o
  (({ s with cache := cache }.look d o).publishFamily d v o).map fun (t : State) =>
    if t.due o frame then t.publishFrame d v o window frame else t

/-- Every output is handled; the images are not pruned yet. -/
def publishOutputs (v : Nat → Server R) : List Nat → State → Option State
  | [], s => some s
  | o :: outputs, s => (s.publishOutput d (v o) o).bind (publishOutputs v outputs)

/-- `pruneImages` -/
def pruneImages (cache : Cache) : Cache where
  images := (cache.images.filter (·.used)).map fun i => { i with changed := false, damage := i.damage.map fun _ => false }
  calls := cache.calls ++ (cache.images.filter fun i =>
    !i.used && i.redirected && (d.lookup i.window).isSome).map fun i => .unredirect (d.heap i.window).number

/-- No image is used. -/
def unuse (cache : Cache) : Cache := { cache with images := cache.images.map fun i => { i with used := false } }

/-- `loriePublishOutputs`; `none` when it crashes -/
def loriePublishOutputs (v : Nat → Server R) : Option State :=
  (publishOutputs d v s.leases.selections { s with cache := unuse s.cache }).map fun s =>
    { s with cache := pruneImages d s.cache }

end Publish

end State

end Lorie.Outputs.Images
