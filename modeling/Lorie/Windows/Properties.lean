import Mathlib.Data.List.Basic

/-!
# Windows and their properties

What `window_model.c` reads of a window: its place, its geometry and its properties. A property has a type, a format and the
values of its format: 32-bit words, or bytes. The names that are looked up here are interned; what a client calls otherwise
is `other`. The numbers of the atoms are given by `atom`.

- `isApplication`: the windows of the catalog;
- `lorieWindowIcon`, `lorieWindowSizeHints`, `lorieWindowRole`: what the catalog says about them.
-/

namespace Lorie.Windows

/-! ## Properties -/

/-- The names that `window_model.c` interns. -/
inductive Name where
  -- properties
  | wmName | wmClass | wmHints | wmNormalHints | wmTransientFor | wmState
  | netWmName | netWmIcon | netWmWindowType | netWmState | netActiveWindow | wmClientLeader
  -- types
  | window | atom | cardinal | string | wmSizeHints
  -- values
  | typeSplash | typeDialog | typeDesktop | typeDock
  | fullscreen | maximizedHorz | maximizedVert | hidden | demandsAttention | modal
  -- messages
  | wmChangeState | netWmMoveResize
  /-- Any other name -/
  | other
  deriving DecidableEq, Repr

/-- `PropertyRec`; `size` is the number of values. -/
structure Property where
  type : Nat
  format : Nat
  data : List Nat
  deriving DecidableEq, Repr

namespace Property

def size (p : Property) : Nat := p.data.length

end Property

/-- `WindowRec`, as far as it is read here. -/
structure Window where
  id : Nat
  parent : Nat
  /-- `drawable.class == InputOutput` -/
  inputOutput : Bool
  overrideRedirect : Bool
  realized : Bool
  x : Int
  y : Int
  width : Int
  height : Int
  properties : Name → Option Property
  /-- History: which window it is, however often its number is used. -/
  number : Nat
  /-- History: it was realized. -/
  wasRealized : Bool

section Reading

variable (atom : Name → Nat) (w : Window)

/-- `property` -/
def property (name : Name) : Option Property := w.properties name

/-- `reference` -/
def reference (name : Name) : Nat :=
  match property w name with
  | some value =>
    match value.data with
    | [id] => if value.type = atom .window ∧ value.format = 32 then id else 0
    | _ => 0
  | none => 0

/-- `hasAtom` -/
def hasAtom (name item : Name) : Bool :=
  match property w name with
  | some value => value.type = atom .atom && value.format = 32 && value.data.contains (atom item)
  | none => false

/-- `urgent` -/
def urgent : Bool :=
  match property w .wmHints with
  | some hints => hints.type = atom .wmHints && hints.format = 32 && (hints.data.head?.getD 0).testBit 8
  | none => false

/-- `WM_HINTS` with an iconic initial state -/
def iconic : Bool :=
  match property w .wmHints with
  | some hints =>
    hints.type = atom .wmHints && hints.format = 32 && 3 ≤ hints.size && (hints.data.getD 0 0).testBit 1 &&
      hints.data.getD 2 0 = 3
  | none => false

/-- `isApplication`; `root` is the root window. -/
def isApplication (root : Nat) : Bool :=
  if w.id = root ∨ !w.inputOutput ∨ w.overrideRedirect ∨ reference atom w .wmTransientFor ≠ 0 then false
  else if hasAtom atom w .netWmWindowType .typeDesktop ∨ hasAtom atom w .netWmWindowType .typeDock then false
  else if hasAtom atom w .netWmWindowType .typeSplash then true
  else if (property w .wmState).isSome then true
  else w.parent = root && ((property w .wmClass).isSome || (property w .wmName).isSome || (property w .netWmName).isSome)

end Reading

/-! ## Size hints -/

/-- `LORIE_WINDOW_SIZE_LIMIT` -/
def sizeLimit : Nat := 16384

/-- `LorieResizeRules` -/
structure ResizeRules where
  baseWidth : Nat
  baseHeight : Nat
  widthIncrement : Nat
  heightIncrement : Nat
  minAspectX : Nat
  minAspectY : Nat
  maxAspectX : Nat
  maxAspectY : Nat
  aspectBaseWidth : Nat
  aspectBaseHeight : Nat
  deriving DecidableEq, Repr

/-- `LorieWindowConstraints` -/
structure WindowConstraints where
  minWidth : Nat
  minHeight : Nat
  maxWidth : Nat
  maxHeight : Nat
  resize : ResizeRules
  deriving DecidableEq, Repr

section Hints

variable (hints : List Nat)

def hint (i : Nat) : Nat := hints.getD i 0

/-- `hints[0] & flag`, where the flag is a bit -/
def hintFlag (bit : Nat) : Bool := (hint hints 0).testBit bit

/-- The smallest and the largest size along an axis, before they are compared. -/
def sizeBounds (axis : Nat) : Nat × Nat :=
  let minimum :=
    if hints.length ≥ 7 ∧ hintFlag hints 4 then
      let value := hint hints (5 + axis)
      if value > 0 ∧ value ≤ sizeLimit then value else 1
    else 1
  let maximum :=
    if hints.length ≥ 9 ∧ hintFlag hints 5 then
      let value := hint hints (7 + axis)
      if value > 0 ∧ value ≤ 2147483647 then min value sizeLimit else sizeLimit
    else sizeLimit
  if maximum < minimum then (1, sizeLimit) else (minimum, maximum)

/-- `lorieWindowSizeAxis` -/
def lorieWindowSizeAxis (requested axis : Nat) : Nat :=
  let (minimum, maximum) := sizeBounds hints axis
  if requested < minimum then minimum else if requested > maximum then maximum else requested

/-- What `lorieWindowSizeHints` finds along an axis: base, aspect base, smallest size and increment. -/
structure Axis where
  base : Nat
  aspectBase : Nat
  minimum : Nat
  increment : Nat

def sizeHintsAxis (axis : Nat) : Axis :=
  let minimum := lorieWindowSizeAxis hints 1 axis
  let maximum := lorieWindowSizeAxis hints 2147483647 axis
  let increment :=
    if hints.length ≥ 11 ∧ hintFlag hints 6 ∧ hint hints (9 + axis) > 0 ∧ hint hints (9 + axis) ≤ sizeLimit then
      hint hints (9 + axis)
    else 1
  if hints.length ≥ 17 ∧ hintFlag hints 8 ∧ hint hints (15 + axis) ≤ sizeLimit then
    let base := hint hints (15 + axis)
    { base := base
      aspectBase := base
      minimum := if !hintFlag hints 4 ∧ base > 0 ∧ base ≤ maximum then base else minimum
      increment := increment }
  else if hints.length ≥ 7 ∧ hintFlag hints 4 then
    { base := minimum, aspectBase := 0, minimum := minimum, increment := increment }
  else { base := 0, aspectBase := 0, minimum := minimum, increment := increment }

/-- The aspect ratios are there and in order. -/
def aspectValid : Bool :=
  hints.length ≥ 15 && hintFlag hints 7 && [11, 12, 13, 14].all (fun i => hint hints i > 0 && hint hints i ≤ 2147483647) &&
    hint hints 11 * hint hints 14 ≤ hint hints 13 * hint hints 12

/-- `lorieWindowSizeHints` -/
def lorieWindowSizeHints : WindowConstraints :=
  if hints = [] then
    { minWidth := lorieWindowSizeAxis hints 1 0
      minHeight := lorieWindowSizeAxis hints 1 1
      maxWidth := lorieWindowSizeAxis hints 2147483647 0
      maxHeight := lorieWindowSizeAxis hints 2147483647 1
      resize := ⟨0, 0, 0, 0, 0, 0, 0, 0, 0, 0⟩ }
  else
    let x := sizeHintsAxis hints 0
    let y := sizeHintsAxis hints 1
    let aspect (i : Nat) := if aspectValid hints then hint hints i else 0
    { minWidth := x.minimum
      minHeight := y.minimum
      maxWidth := lorieWindowSizeAxis hints 2147483647 0
      maxHeight := lorieWindowSizeAxis hints 2147483647 1
      resize :=
        { baseWidth := x.base
          baseHeight := y.base
          widthIncrement := x.increment
          heightIncrement := y.increment
          minAspectX := aspect 11
          minAspectY := aspect 12
          maxAspectX := aspect 13
          maxAspectY := aspect 14
          aspectBaseWidth := x.aspectBase
          aspectBaseHeight := y.aspectBase } }

end Hints

/-- `lorieWindowConstraints` -/
def lorieWindowConstraints (atom : Name → Nat) (w : Window) : WindowConstraints :=
  match property w .wmNormalHints with
  | some hints => lorieWindowSizeHints (if hints.type = atom .wmSizeHints ∧ hints.format = 32 then hints.data else [])
  | none => lorieWindowSizeHints []

/-! ## Role -/

/-- `LorieWindowRole` -/
inductive WindowRole where
  | application | splash | unclassified | dialog
  deriving DecidableEq, Repr

/-- `lorieWindowRole` -/
def lorieWindowRole (splash dialog typed wmClass wmState : Bool) : WindowRole :=
  if splash then .splash
  else if dialog then .dialog
  else if typed || wmClass || wmState then .application
  else .unclassified

/-- The role of a window -/
def windowRole (atom : Name → Nat) (w : Window) : WindowRole :=
  lorieWindowRole (hasAtom atom w .netWmWindowType .typeSplash) (hasAtom atom w .netWmWindowType .typeDialog)
    (property w .netWmWindowType).isSome (property w .wmClass).isSome (property w .wmState).isSome

/-! ## Icon -/

/-- `LORIE_WINDOW_ICON_SIZE` -/
def iconSize : Nat := 64

/-- One image of `_NET_WM_ICON` -/
structure Image where
  width : Nat
  height : Nat
  pixels : List Nat
  deriving DecidableEq, Repr

namespace Image

def side (image : Image) : Nat := max image.width image.height

/-- The image is better than the best one so far. -/
def better (image : Image) : Option Image → Bool
  | none => true
  | some best => (best.side < iconSize && image.side > best.side) || (image.side ≥ iconSize && image.side < best.side)

/-- The image fitted into the icon -/
def fit (image : Image) : List Nat :=
  let width := max 1 (image.width * iconSize / image.side)
  let height := max 1 (image.height * iconSize / image.side)
  let left := (iconSize - width) / 2
  let top := (iconSize - height) / 2
  (List.range (iconSize * iconSize)).map fun i =>
    let x := i % iconSize - left
    let y := i / iconSize - top
    if left ≤ i % iconSize ∧ x < width ∧ top ≤ i / iconSize ∧ y < height then
      image.pixels.getD (y * image.height / height * image.width + x * image.width / width) 0
    else 0

end Image

/-- The loop of `lorieWindowIcon`: the best image, if every length is right. Every image takes at least three words. -/
def bestImage : Nat → List Nat → Option Image → Option Image
  | _, [], best => best
  | fuel + 1, width :: height :: data, best =>
    if width = 0 ∨ height = 0 ∨ width > data.length / height then none
    else
      let image : Image := ⟨width, height, data.take (width * height)⟩
      bestImage fuel (data.drop (width * height)) (if image.better best then some image else best)
  | _, _, _ => none

/-- The empty icon -/
def noIcon : List Nat := List.replicate (iconSize * iconSize) 0

/-- `lorieWindowIcon`; `none` is the result 0. -/
def lorieWindowIcon (data : Option (List Nat)) : Option (List Nat) :=
  match data with
  | none => none
  | some data => if data.length > 1024 * 1024 then none else (bestImage data.length data none).map Image.fit

/-- The icon of a window -/
def windowIcon (atom : Name → Nat) (w : Window) : Option (List Nat) :=
  lorieWindowIcon ((property w .netWmIcon).bind fun value =>
    if value.type = atom .cardinal ∧ value.format = 32 then some value.data else none)

/-! ## Names -/

/-- The bytes before the first zero: what is compared of a title. -/
def cString (bytes : List Nat) : List Nat := bytes.takeWhile (· ≠ 0)

/-- An array of `n` bytes that starts with some bytes. -/
def padded (n : Nat) (bytes : List Nat) : List Nat := bytes ++ List.replicate (n - bytes.length) 0

/-- `title[256]` -/
def windowTitle (w : Window) : List Nat :=
  let value :=
    match property w .netWmName with
    | some value => if value.format = 8 then some value else property w .wmName
    | none => property w .wmName
  match value with
  | some value => padded 256 (if value.format = 8 then value.data.take 255 else [])
  | none => padded 256 []

/-- The two strings of `WM_CLASS`, where each fits into its array with a zero. -/
def windowClass (atom : Name → Nat) (w : Window) : List Nat × List Nat :=
  let strings :=
    match property w .wmClass with
    | some value =>
      if value.type = atom .string ∧ value.format = 8 then
        let first := cString value.data
        if first.length < value.size then
          let second := cString (value.data.drop (first.length + 1))
          (if first.length < 128 then first else [],
            if second.length < 128 ∧ second.length < value.size - first.length - 1 then second else [])
        else ([], [])
      else ([], [])
    | none => ([], [])
  (padded 128 strings.1, padded 128 strings.2)

end Lorie.Windows
