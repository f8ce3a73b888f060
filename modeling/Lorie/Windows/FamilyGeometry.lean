import Lorie.Outputs.Model
import Lorie.Windows.Family

/-!
# The geometry of a family

`lorieWindowFamilyGeometry` (`window_family_geometry.c`): the painted extent and the input region of the windows that
`lorieWindowFamily` visits, relative to the owner. Regions are the X server's.
-/

namespace Lorie.Windows

open Outputs

/-- `LORIE_SHELL_INPUT_LIMIT` -/
def shellInputLimit : Nat := 128

/-- `LorieFamilyGeometry`; `inputCount` is the length of `input`. -/
structure LorieFamilyGeometry where
  width : Int
  height : Int
  inputComplete : Bool
  paint : ShellRect
  input : List ShellRect
  deriving DecidableEq, Repr

/-- `LorieFamilyGeometry geometry = {0}` -/
def LorieFamilyGeometry.zero : LorieFamilyGeometry := ⟨0, 0, false, ⟨0, 0, 0, 0⟩, []⟩

/-- The regions of the X server and of its windows -/
structure Regions (R : Type) where
  null : R
  translate : R → Int → Int → R
  intersect : R → R → R
  union : R → R → R
  rects : R → List ShellRect
  /-- `window->winSize` -/
  winSize : Nat → R
  wInputShape : Nat → Option R

/-- `FamilyGeometry` -/
structure FamilyGeometry (R : Type) where
  geometry : LorieFamilyGeometry
  input : R
  count : Nat
  painted : Bool

section Geometry

variable {R : Type} (regions : Regions R) (d : Desktop) (owner : Nat) (childrenOnly : Bool)

/-- The input region of a window, relative to the owner -/
def inputRegion (w : Nat) : R :=
  let region := regions.translate (regions.winSize w) (-(d.heap w).x) (-(d.heap w).y)
  let region :=
    match regions.wInputShape w with
    | some shape => regions.intersect region shape
    | none => region
  regions.translate region ((d.heap w).x - (d.heap owner).x) ((d.heap w).y - (d.heap owner).y)

/-- The extent of the windows, with one more -/
def grow (painted : Bool) (g paint : ShellRect) : ShellRect :=
  if painted then
    ⟨min g.left paint.left, min g.top paint.top, max g.right paint.right, max g.bottom paint.bottom⟩
  else paint

/-- `collect` -/
def collect (family : FamilyGeometry R) (w : Nat) : FamilyGeometry R :=
  if childrenOnly ∧ w = owner then family
  else
    let count := family.count + 1
    if count > maxFamilyLayers then
      { family with count := count, geometry := { family.geometry with inputComplete := false } }
    else
      let x := (d.heap w).x - (d.heap owner).x
      let y := (d.heap w).y - (d.heap owner).y
      let paint : ShellRect := ⟨x, y, x + (d.heap w).width, y + (d.heap w).height⟩
      { geometry := { family.geometry with paint := grow family.painted family.geometry.paint paint }
        input := regions.union family.input (inputRegion regions d owner w)
        count := count
        painted := true }

/-- `lorieWindowFamilyGeometry` -/
def lorieWindowFamilyGeometry : LorieFamilyGeometry :=
  let geometry : LorieFamilyGeometry :=
    { LorieFamilyGeometry.zero with
      width := (d.heap owner).width, height := (d.heap owner).height, inputComplete := true }
  let family : FamilyGeometry R := ⟨geometry, regions.null, 0, false⟩
  let family :=
    if (d.heap owner).realized then
      Desktop.lorieWindowFamily (fun _ => d) owner (collect regions d owner childrenOnly) family
    else family
  let rects := regions.rects family.input
  if rects.length > shellInputLimit then { family.geometry with inputComplete := false }
  else if family.geometry.inputComplete then { family.geometry with input := rects }
  else family.geometry

end Geometry

end Lorie.Windows
