import Lorie.Lib.Region
import Lorie.GpuCopy.Queue
import Mathlib.Algebra.Group.Nat.Defs

/-!
# The offloaded Present copy

`present_execute_copy` hands the copy of a presented pixmap to the renderer (`lorieTryScheduleGpuCopy`) or makes it on
the CPU (`present_copy_region`); the renderer executes a queued copy in `applyPendingGpuCopiesLocked`.

- `lorieTryScheduleGpuCopy`: every way to fall back to the CPU, and the entry that is queued otherwise;
- `applyCopy`: what the entry writes into the destination buffer, a draw for each rectangle that samples the source;
- `presentCopyRegion`: what the CPU writes, from the X server's documented behaviour;
- `damage`: the region reported for the window.

Coordinates of pixels are integers. The draws' coordinates are floats in the source, each of them an integer of less
than 24 bits.
-/

namespace Lorie.Present

open Lorie.Lib

/-! ## The data -/

/-- `BoxRec` has the fields of `LorieGpuCopyRect`. -/
abbrev BoxRec := LorieGpuCopyRect

/-- The points of a box of 16-bit coordinates. -/
def box (b : BoxRec) : Box Int := ⟨b.x1.toInt, b.y1.toInt, b.x2.toInt, b.y2.toInt⟩

/-- `RegionRec`: no box is empty. -/
structure RegionRec where
  rects : List BoxRec
  valid : ∀ b ∈ rects, b.x1 < b.x2 ∧ b.y1 < b.y2

/-- The boxes of a region over the integers. -/
def RegionRec.boxes (r : RegionRec) : List (Box Int) := r.rects.map box

/-- `LORIEBUFFER_REGULAR`, `LORIEBUFFER_FD` and `LORIEBUFFER_AHARDWAREBUFFER` -/
inductive BufferType where
  | regular
  | fd
  | ahardwarebuffer
  deriving DecidableEq, Repr

/-- The formats that `allocate` accepts. -/
inductive BufferFormat where
  | b8g8r8a8
  | r8g8b8a8
  | r8g8b8x8
  deriving DecidableEq, Repr

/-- `LorieBuffer_Desc` -/
structure LorieBuffer where
  id : UInt64
  width : Nat
  height : Nat
  type : BufferType
  format : BufferFormat
  deriving DecidableEq, Repr

/-- `LorieBuffer_isRgba` -/
def LorieBuffer.isRgba (b : LorieBuffer) : Bool := b.format ≠ .b8g8r8a8

/-- A pixmap and its `LoriePixmapPriv`. The X protocol bounds its size by `32767`, and its buffer has its size. -/
structure Pixmap where
  width : Nat
  height : Nat
  screen_x : Int16
  screen_y : Int16
  buffer : Option LorieBuffer
  mem : Bool
  width_lt : width < 2 ^ 15
  height_lt : height < 2 ^ 15
  fits : ∀ b, buffer = some b → b.width = width ∧ b.height = height

/-- The pixels of a drawable of the given size. -/
def extents (width height : Nat) : Box Int := ⟨0, 0, width, height⟩

structure Window where
  x : Int16
  y : Int16
  clipList : RegionRec
  /-- `GetWindowPixmap(window)` -/
  pixmap : Pixmap

/-- What `present_execute_copy` reads of a `present_vblank`. -/
structure Vblank where
  window : Window
  pixmap : Pixmap
  update : Option RegionRec
  x_off : Int16
  y_off : Int16

/-! ## Scheduling -/

/-- The parts of `pvfb` and of the connection that decide about a fallback. -/
structure Screen where
  gpuPresentDisabled : Bool
  legacyDrawing : Bool
  connectionAlive : Bool
  surfaceAvailable : Bool
  /-- Whether an `AHardwareBuffer` can be allocated for a regular buffer. -/
  convertible : Bool
  writeIndex : UInt32
  readIndex : UInt32

/-- Why a copy is left to the CPU: the reasons of `lorieExplainGpuFallback`. -/
inductive GpuFallback where
  /-- `1, "capability"` -/
  | capability
  /-- `2, "viewer-unavailable"` -/
  | viewerUnavailable
  /-- `4, "source-not-ahb"` -/
  | sourceNotAhb
  /-- `8, "destination-not-ahb"` -/
  | destinationNotAhb
  /-- `16, "rectangles"` -/
  | rectangles
  /-- `32, "queue-full"` -/
  | queueFull
  deriving DecidableEq, Repr

/-- `LorieBuffer_convert` to a shareable type; it leaves the buffer as it is when it fails. -/
def LorieBuffer.convert (convertible : Bool) (b : LorieBuffer) (type : BufferType) : LorieBuffer :=
  if b.type = .regular ∧ convertible then { b with type := type, format := .r8g8b8x8 } else b

/-- `lorieEnsureGpuSampleable` -/
def lorieEnsureGpuSampleable (s : Screen) (p : Pixmap) (type : BufferType) : Option LorieBuffer :=
  match p.buffer with
  | none => none
  | some b =>
    if p.mem then none
    else
      let b' := b.convert s.convertible type
      if b'.type = type then some b' else none

/-- A queued copy, and the two buffers that it names. -/
structure Scheduled where
  request : CopyRequest
  source : LorieBuffer
  target : LorieBuffer

/-- The entry names one buffer as its source and as its target. -/
def Scheduled.inPlace (sc : Scheduled) : Bool := sc.request.srcBufferId = sc.request.dstBufferId

/-- The boxes that are copied: those of the update region, or the whole pixmap. -/
def copyBoxes (pixmap : Pixmap) : Option RegionRec → List BoxRec
  | some update => update.rects
  | none => [⟨0, 0, Int16.ofNat pixmap.width, Int16.ofNat pixmap.height⟩]

/-- `lorieTryScheduleGpuCopy` -/
def lorieTryScheduleGpuCopy (s : Screen) (pixmap dst : Pixmap) (update : Option RegionRec) (x_off y_off : Int16) :
    Except GpuFallback Scheduled :=
  if s.gpuPresentDisabled || s.legacyDrawing then .error .capability
  else if !s.connectionAlive || !s.surfaceAvailable then .error .viewerUnavailable
  else
    match lorieEnsureGpuSampleable s pixmap .ahardwarebuffer with
    | none => .error .sourceNotAhb
    | some srcBuffer =>
      match lorieEnsureGpuSampleable s dst .ahardwarebuffer with
      | none => .error .destinationNotAhb
      | some dstBuffer =>
        let boxes := copyBoxes pixmap update
        if boxes.length = 0 ∨ maxRects < boxes.length then .error .rectangles
        else if UInt32.ofNat queueCapacity ≤ s.writeIndex - s.readIndex then .error .queueFull
        else .ok ⟨⟨srcBuffer.id, dstBuffer.id, x_off, y_off, boxes⟩, srcBuffer, dstBuffer⟩

namespace Vblank

/-- The offset of the pixmap within the destination, before it is cut to 16 bits. -/
def offset (v : Vblank) : Point Int :=
  ⟨v.x_off.toInt + v.window.x.toInt - v.window.pixmap.screen_x.toInt,
    v.y_off.toInt + v.window.y.toInt - v.window.pixmap.screen_y.toInt⟩

/-- `gpuCopyXOff` -/
def gpuCopyXOff (v : Vblank) : Int16 := Int16.ofInt v.offset.x

/-- `gpuCopyYOff` -/
def gpuCopyYOff (v : Vblank) : Int16 := Int16.ofInt v.offset.y

/-- The call of `lorieTryScheduleGpuCopy` in `present_execute_copy`. -/
def schedule (v : Vblank) (s : Screen) : Except GpuFallback Scheduled :=
  lorieTryScheduleGpuCopy s v.pixmap v.window.pixmap v.update v.gpuCopyXOff v.gpuCopyYOff

/-- The region that `present_execute_copy` passes to `DamageDamageRegion` after a copy was scheduled. -/
def damage (v : Vblank) : List (Box Int) :=
  match v.update with
  | some update => inter update.boxes v.window.clipList.boxes
  | none => v.window.clipList.boxes

end Vblank

/-! ## Pixels -/

/-- The four bytes of a pixel in memory. -/
structure Pixel where
  b0 : UInt8
  b1 : UInt8
  b2 : UInt8
  b3 : UInt8
  deriving DecidableEq, Repr

/-- A colour as the graphics device sees it. -/
structure Color where
  red : UInt8
  green : UInt8
  blue : UInt8
  alpha : UInt8
  deriving DecidableEq, Repr

/-- The colour of a pixel. The fourth byte of `r8g8b8x8` is treated as the fourth channel. -/
def Pixel.color (isRgba : Bool) (p : Pixel) : Color :=
  if isRgba then ⟨p.b0, p.b1, p.b2, p.b3⟩ else ⟨p.b2, p.b1, p.b0, p.b3⟩

/-- The pixel of a colour. -/
def Color.pixel (isRgba : Bool) (c : Color) : Pixel :=
  if isRgba then ⟨c.red, c.green, c.blue, c.alpha⟩ else ⟨c.blue, c.green, c.red, c.alpha⟩

/-- `swapRedBlue` of a draw -/
def Color.swap (swapRedBlue : Bool) (c : Color) : Color := if swapRedBlue then { c with red := c.blue, blue := c.red } else c

/-- The contents of a buffer. -/
abbrev Contents := Point Int → Pixel

/-! ## Executing a queued copy -/

/-- The fields of `LorieGraphicsDraw` that `applyPendingGpuCopiesLocked` sets; `width` and `height` are `sw` and `sh`. -/
structure LorieGraphicsDraw where
  sx : Int
  sy : Int
  sw : Int
  sh : Int
  x : Int
  y : Int
  clipWidth : Int
  clipHeight : Int
  swapRedBlue : Bool

/-- The draw of one rectangle of an entry. -/
def copyDraw (sc : Scheduled) (rect : LorieGpuCopyRect) : LorieGraphicsDraw where
  sx := rect.x1.toInt
  sy := rect.y1.toInt
  sw := rect.x2.toInt - rect.x1.toInt
  sh := rect.y2.toInt - rect.y1.toInt
  x := rect.x1.toInt + sc.request.xOff.toInt
  y := rect.y1.toInt + sc.request.yOff.toInt
  clipWidth := sc.target.width
  clipHeight := sc.target.height
  swapRedBlue := sc.source.isRgba != sc.target.isRgba

/-- The pixels that a draw writes. -/
def LorieGraphicsDraw.Writes (d : LorieGraphicsDraw) (p : Point Int) : Prop :=
  (Box.mk d.x d.y (d.x + d.sw) (d.y + d.sh)).Mem p ∧ (Box.mk 0 0 d.clipWidth d.clipHeight).Mem p

instance (d : LorieGraphicsDraw) (p : Point Int) : Decidable (d.Writes p) :=
  inferInstanceAs (Decidable ((Box.mk d.x d.y (d.x + d.sw) (d.y + d.sh)).Mem p ∧
    (Box.mk 0 0 d.clipWidth d.clipHeight).Mem p))

/-- The pixels that executing a queued copy writes. -/
def Scheduled.Writes (sc : Scheduled) (p : Point Int) : Prop :=
  ∃ rect ∈ sc.request.rects, (copyDraw sc rect).Writes p

/-- The colour of a texel of the source. What a device reads outside of the image is not specified, and neither is what
it reads of an image that the same pass writes. -/
def texel (sc : Scheduled) (src : Contents) (unspecified : Point Int → Color) (q : Point Int) : Color :=
  if (extents sc.source.width sc.source.height).Mem q ∧ !sc.inPlace then (src q).color sc.source.isRgba
  else unspecified q

/-- `draw` of a pass on the target: the unscaled source rectangle, within the clip rectangle. -/
def draw (sc : Scheduled) (unspecified : Point Int → Color) (src : Contents) (d : LorieGraphicsDraw) (dst : Contents) :
    Contents := fun p =>
  if d.Writes p then
    ((texel sc src unspecified (p - ⟨d.x, d.y⟩ + ⟨d.sx, d.sy⟩)).swap d.swapRedBlue).pixel sc.target.isRgba
  else dst p

/-- What `applyPendingGpuCopiesLocked` writes for a queued copy. -/
def applyCopy (sc : Scheduled) (unspecified : Point Int → Color) (src dst : Contents) : Contents :=
  sc.request.rects.foldl (fun dst rect => draw sc unspecified src (copyDraw sc rect) dst) dst

/-! ## The CPU copy -/

/-- The restriction to an update region, when there is one. -/
def InUpdate : Option RegionRec → Point Int → Prop
  | some update, q => Covers update.boxes q
  | none, _ => True

instance : (update : Option RegionRec) → (q : Point Int) → Decidable (InUpdate update q)
  | some update, q => inferInstanceAs (Decidable (Covers update.boxes q))
  | none, _ => isTrue trivial

namespace Vblank

/-- The window is on the presented pixmap itself: a client presents the pixmap that `CompositeNameWindowPixmap` gave it. -/
def InPlace (v : Vblank) : Prop :=
  ∃ b ∈ v.pixmap.buffer, ∃ b' ∈ v.window.pixmap.buffer, b.id = b'.id

/-- The origin of the destination on the screen. -/
def origin (v : Vblank) : Point Int := ⟨v.window.pixmap.screen_x.toInt, v.window.pixmap.screen_y.toInt⟩

/-- The pixels of the destination. -/
def target (v : Vblank) : Box Int := extents v.window.pixmap.width v.window.pixmap.height

/-- The pixels of the destination that the CPU writes: the pixmap at its offset, restricted to the update region and to
the window's clip list. -/
def CpuWrites (v : Vblank) (p : Point Int) : Prop :=
  v.target.Mem p ∧ Covers v.window.clipList.boxes (p + v.origin) ∧
    (extents v.pixmap.width v.pixmap.height).Mem (p - v.offset) ∧ InUpdate v.update (p - v.offset)

instance (v : Vblank) (p : Point Int) : Decidable (v.CpuWrites p) :=
  inferInstanceAs (Decidable (v.target.Mem p ∧ Covers v.window.clipList.boxes (p + v.origin) ∧
    (extents v.pixmap.width v.pixmap.height).Mem (p - v.offset) ∧ InUpdate v.update (p - v.offset)))

/-- `present_copy_region`; a copy within one drawable reads every pixel before it is written. -/
def presentCopyRegion (v : Vblank) (src dst : Contents) : Contents := fun p =>
  if v.CpuWrites p then src (p - v.offset) else dst p

/-- Executing the copy writes what the CPU would write, whatever the contents of the two buffers are. -/
def CopiedAlike (v : Vblank) (sc : Scheduled) : Prop :=
  ∀ unspecified src dst, (v.InPlace → src = dst) → applyCopy sc unspecified src dst = v.presentCopyRegion src dst

end Vblank

end Lorie.Present
