import Lorie.Cursor.Model

/-!
# The picture of a cursor

`Picture` is what a cursor looks like: the default of the host, nothing, or an image with a hot spot, whose pixels are
multiplied by their alpha as in X.

- `CursorRec.picture`: what X shows;
- `Variables.shown`: what the variables of `cursor.c` stand for;
- `lorieCursorSet_drawn`: `lorieCursorSet` stays within its memory, and then they are the same.
-/

namespace Lorie.Cursor

open Lib (write Paints)
open Windows.SizeHints (Memory)

inductive Picture where
  | default
  | hidden
  | image (width height hotspotX hotspotY : Nat) (pixels : List (BitVec 32))
  deriving DecidableEq, Repr

/-! ## What X shows -/

/-- The bit of a bitmap at a row and a column -/
def bitAt (msbFirst : Bool) (bitmap : Nat → Option (BitVec 8)) (width y x : Nat) : Bool :=
  ((bitmap (y * bitmapBytePad width + x / 8)).getD 0).getLsbD (if msbFirst then 7 - x % 8 else x % 8)

/-- The pixel of a colour with 16 bits for each part -/
def opaquePixel (red green blue : BitVec 16) : BitVec 32 :=
  pack 255 fun k => if k = 0 then blue.toNat / 256 else if k = 1 then green.toNat / 256 else red.toNat / 256

namespace CursorRec

variable (msbFirst : Bool) (cursor : CursorRec)

/-- A pixel of the image -/
def pixel (bits : CursorBits) (i : Nat) : BitVec 32 :=
  match bits.argb with
  | some argb => clamp ((argb i).getD 0)
  | none =>
    let y := i / bits.width
    let x := i % bits.width
    if !bitAt msbFirst bits.mask bits.width y x then 0
    else if bitAt msbFirst bits.source bits.width y x then opaquePixel cursor.foreRed cursor.foreGreen cursor.foreBlue
    else opaquePixel cursor.backRed cursor.backGreen cursor.backBlue

/-- The image of a cursor that has one. One that is too large, or has its hot spot outside, is left to the host. -/
def image (bits : CursorBits) : Picture :=
  if bits.width = 0 ∨ bits.height = 0 ∨ bits.emptyMask then .hidden
  else if bits.width ≤ cursorSizeLimit ∧ bits.height ≤ cursorSizeLimit ∧ bits.xhot < bits.width ∧ bits.yhot < bits.height then
    .image bits.width bits.height bits.xhot bits.yhot ((List.range (bits.width * bits.height)).map (cursor.pixel msbFirst bits))
  else .default

end CursorRec

/-- What X shows, after a cursor was set or not: the cursor of the server is the one of the host. -/
def picture (msbFirst : Bool) : Option (Option CursorRec × Bool) → Picture
  | none => .default
  | some (none, _) => .hidden
  | some (some _, true) => .default
  | some (some cursor, false) =>
    match cursor.bits with
    | none => .hidden
    | some bits => cursor.image msbFirst bits

/-! ## What the variables stand for -/

/-- The picture of a cursor record and its pixels -/
def pictureOf (info : LorieCursorInfo) (pixels : List (BitVec 32)) : Picture :=
  match info.kind with
  | .default => .default
  | .hidden => .hidden
  | .image => .image info.width info.height info.hotspotX info.hotspotY
      ((pixels.take (info.width * info.height)).map premultiply)

def Variables.shown (v : Variables) : Picture := pictureOf v.cursorInfo v.cursorPixels

/-! ## The two bitmaps -/

section Bitmaps

variable {msbFirst : Bool} {x : Nat}

theorem columnBit_eq (x : Nat) : columnBit msbFirst x = BitVec.twoPow 8 (if msbFirst then 7 - x % 8 else x % 8) := by
  have hcases : ∀ (n : Fin 8) (first : Bool),
      (if first then 0x80#8 >>> n.val else 1#8 <<< n.val) = BitVec.twoPow 8 (if first then 7 - n.val else n.val) := by
    decide
  exact hcases ⟨x % 8, Nat.mod_lt _ (by decide)⟩ msbFirst

/-- The bit that `lorieCursorMonoPixel` tests -/
theorem and_columnBit (byte : BitVec 8) (x : Nat) :
    byte &&& columnBit msbFirst x ≠ 0 ↔ byte.getLsbD (if msbFirst then 7 - x % 8 else x % 8) = true := by
  have hlt : (if msbFirst then 7 - x % 8 else x % 8) < 8 := by
    split <;> omega
  rw [columnBit_eq, BitVec.and_twoPow]
  generalize (if msbFirst then 7 - x % 8 else x % 8) = n at hlt
  have hpos : BitVec.twoPow 8 n ≠ 0 := by
    rw [Ne, ← BitVec.toNat_inj, BitVec.toNat_twoPow_of_lt hlt]
    exact (Nat.two_pow_pos n).ne'
  split
  · next hbit => exact iff_of_true hpos hbit
  · next hbit => exact iff_of_false (fun h => h rfl) hbit

/-- The high byte of a part of a colour -/
theorem and_high (n : Nat) : n &&& 0xff00 = n / 256 % 256 * 256 := by
  have hmask : (0xff00 : Nat) = (2 ^ 8 - 1) <<< 8 := by decide
  have hbyte : n / 256 % 256 * 256 = (n >>> 8 % 2 ^ 8) <<< 8 := by
    rw [Nat.shiftLeft_eq, Nat.shiftRight_eq_div_pow]
    rfl
  apply Nat.eq_of_testBit_eq
  intro i
  rw [hmask, hbyte, Nat.testBit_and, Nat.testBit_shiftLeft, Nat.testBit_shiftLeft, Nat.testBit_two_pow_sub_one,
    Nat.testBit_mod_two_pow, Nat.testBit_shiftRight]
  by_cases h : 8 ≤ i
  · rw [Nat.add_sub_cancel' h]
    simp [h, Bool.and_comm]
  · simp [h]

theorem high_lt (n : BitVec 16) : n.toNat / 256 < 256 := by
  have := n.isLt
  omega

/-- A part of a colour at its place in the pixel -/
theorem high_shift (n : BitVec 16) : (n.setWidth 32 &&& 0xff00#32) <<< 8 = (n.setWidth 32 >>> 8) <<< 16 ∧
    n.setWidth 32 &&& 0xff00#32 = (n.setWidth 32 >>> 8) <<< 8 := by
  have hlt := n.isLt
  have hand : (n.setWidth 32 &&& 0xff00#32).toNat = n.toNat / 256 * 256 := by
    have hmask : (0xff00#32).toNat = 0xff00 := by decide
    rw [BitVec.toNat_and, BitVec.toNat_setWidth_of_le (by decide), hmask, and_high, Nat.mod_eq_of_lt (high_lt n)]
  have hshift : (n.setWidth 32 >>> 8).toNat = n.toNat / 256 := by
    rw [BitVec.toNat_ushiftRight, BitVec.toNat_setWidth_of_le (by decide), Nat.shiftRight_eq_div_pow]
  constructor
  · apply BitVec.eq_of_toNat_eq
    simp only [BitVec.toNat_shiftLeft, hand, hshift, Nat.shiftLeft_eq]
    omega
  · apply BitVec.eq_of_toNat_eq
    simp only [BitVec.toNat_shiftLeft, hand, hshift, Nat.shiftLeft_eq]
    omega

/-- `0xff000000 | foreground` -/
theorem opaque_rgb (red green blue : BitVec 16) : 0xff000000#32 ||| rgb red green blue = opaquePixel red green blue := by
  let v (k : Nat) : BitVec 32 := (if k = 0 then blue else if k = 1 then green else red).setWidth 32 >>> 8
  have hv : ∀ k, (v k).toNat = (if k = 0 then blue else if k = 1 then green else red).toNat / 256 := by
    intro k
    rw [BitVec.toNat_ushiftRight, BitVec.toNat_setWidth_of_le (by decide), Nat.shiftRight_eq_div_pow]
  have hpack := or_pack (a := 255#32) (v := v) (by decide) fun k => by
    rw [hv]
    exact high_lt _
  simp only [hv] at hpack
  unfold rgb
  rw [(high_shift red).1, (high_shift green).2]
  have hplaces : ∀ a x y z : BitVec 32, a ||| (x ||| y ||| z) = a ||| z <<< 0 ||| y ||| x := by
    intro a x y z
    rw [BitVec.shiftLeft_zero, BitVec.or_comm x y, BitVec.or_assoc y x z, BitVec.or_comm x z, ← BitVec.or_assoc y z x,
      BitVec.or_comm y z, ← BitVec.or_assoc, ← BitVec.or_assoc]
  rw [hplaces]
  exact hpack.trans (pack_congr fun k _ => by split <;> [rfl; split <;> rfl])

end Bitmaps

/-! ## The loops -/

section Loops

variable {bits : CursorBits} {cursor : CursorRec} {v : Variables} {msbFirst : Bool}

/-- The memory of `cursorPixels` -/
def pixelLimit : Nat := cursorSizeLimit * cursorSizeLimit

/-- The byte of a column is in its row. -/
theorem byte_lt {y x : Nat} (hy : y < bits.height) (hx : x < bits.width) :
    y * bitmapBytePad bits.width + x / 8 < bitmapBytePad bits.width * bits.height := by
  have hrow : x / 8 < bitmapBytePad bits.width := by
    unfold bitmapBytePad
    omega
  calc y * bitmapBytePad bits.width + x / 8 < y * bitmapBytePad bits.width + bitmapBytePad bits.width := by omega
    _ = (y + 1) * bitmapBytePad bits.width := (Nat.succ_mul _ _).symm
    _ ≤ bits.height * bitmapBytePad bits.width := Nat.mul_le_mul_right _ hy
    _ = bitmapBytePad bits.width * bits.height := Nat.mul_comm _ _

theorem CursorBits.info_valid (hw : bits.width ≠ 0) (hh : bits.height ≠ 0) : lorieCursorValid bits.info = true ↔
    bits.width ≤ cursorSizeLimit ∧ bits.height ≤ cursorSizeLimit ∧ bits.xhot < bits.width ∧ bits.yhot < bits.height := by
  unfold lorieCursorValid CursorBits.info
  simp [hw, hh, and_assoc]

theorem CursorBits.pixelCount (h : lorieCursorValid bits.info = true) :
    lorieCursorPixelCount bits.info = bits.width * bits.height := if_pos h

/-- The pixel that the code computes for a place in the image -/
def CursorRec.stored (msbFirst : Bool) (cursor : CursorRec) (bits : CursorBits) (i : Nat) : BitVec 32 :=
  match bits.argb with
  | some argb => lorieCursorStraightArgb ((argb i).getD 0)
  | none => cursor.pixel msbFirst bits i

theorem argb_paints (msbFirst : Bool) (cursor : CursorRec) {argb : Memory} (hargb : bits.argb = some argb)
    (hwhole : bits.Whole) {i : Nat} (hi : i < bits.width * bits.height) (hlimit : bits.width * bits.height ≤ pixelLimit) :
    Paints pixelLimit (cursor.stored msbFirst bits) (· = i)
      (fun pixels => do write pixels i (lorieCursorStraightArgb (← argb i))) := by
  obtain ⟨pixel, hpixel⟩ := Option.isSome_iff_exists.1 (hwhole.argb argb hargb i hi)
  have hstored : cursor.stored msbFirst bits i = lorieCursorStraightArgb pixel := by
    simp [CursorRec.stored, hargb, hpixel]
  have hpaints := Lib.paints_write (v := cursor.stored msbFirst bits) (Nat.lt_of_lt_of_le hi hlimit)
  rw [hstored] at hpaints
  simpa [hpixel] using hpaints

theorem mono_paints (msbFirst : Bool) (cursor : CursorRec) (hargb : bits.argb = none) (hwhole : bits.Whole) {y x : Nat}
    (hy : y < bits.height) (hx : x < bits.width) (hlimit : bits.width * bits.height ≤ pixelLimit) :
    Paints pixelLimit (cursor.stored msbFirst bits) (· = y * bits.width + x) (fun pixels => do
      write pixels (y * bits.width + x)
        (← lorieCursorMonoPixel bits.source bits.mask (y * bitmapBytePad bits.width + x / 8) (columnBit msbFirst x)
          (rgb cursor.foreRed cursor.foreGreen cursor.foreBlue) (rgb cursor.backRed cursor.backGreen cursor.backBlue))) := by
  obtain ⟨hsource, hmask⟩ := hwhole.bitmaps hargb _ (byte_lt hy hx)
  obtain ⟨source, hsource⟩ := Option.isSome_iff_exists.1 hsource
  obtain ⟨mask, hmask⟩ := Option.isSome_iff_exists.1 hmask
  have hplace : y * bits.width + x < bits.width * bits.height := by
    calc y * bits.width + x < y * bits.width + bits.width := by omega
      _ = (y + 1) * bits.width := (Nat.succ_mul _ _).symm
      _ ≤ bits.height * bits.width := Nat.mul_le_mul_right _ hy
      _ = bits.width * bits.height := Nat.mul_comm _ _
  have hrow : (y * bits.width + x) / bits.width = y := by
    rw [Nat.add_comm, Nat.add_mul_div_right _ _ (by omega), Nat.div_eq_of_lt hx, Nat.zero_add]
  have hcolumn : (y * bits.width + x) % bits.width = x := by
    rw [Nat.add_comm, Nat.add_mul_mod_self_right, Nat.mod_eq_of_lt hx]
  have hpixel : lorieCursorMonoPixel bits.source bits.mask (y * bitmapBytePad bits.width + x / 8) (columnBit msbFirst x)
      (rgb cursor.foreRed cursor.foreGreen cursor.foreBlue) (rgb cursor.backRed cursor.backGreen cursor.backBlue) =
      some (cursor.stored msbFirst bits (y * bits.width + x)) := by
    simp only [lorieCursorMonoPixel, hmask, hsource, Option.bind_eq_bind, Option.bind_some, and_columnBit, CursorRec.stored,
      CursorRec.pixel, hargb, hrow, hcolumn, bitAt, Option.getD_some]
    generalize (if msbFirst then 7 - x % 8 else x % 8) = n
    cases hset : mask.getLsbD n with
    | false => simp
    | true =>
      cases hcolor : source.getLsbD n with
      | false => simpa using opaque_rgb ..
      | true => simpa using opaque_rgb ..
  have hpaints := Lib.paints_write (v := cursor.stored msbFirst bits) (Nat.lt_of_lt_of_le hplace hlimit)
  simpa [hpixel] using hpaints

/-- The loops store the image. -/
theorem stored_of_paints {S : Nat → Prop} {step : List (BitVec 32) → Option (List (BitVec 32))}
    (h : Paints pixelLimit (cursor.stored msbFirst bits) S step) (hS : ∀ i < bits.width * bits.height, S i)
    {pixels : List (BitVec 32)} (hlength : pixels.length = pixelLimit) :
    ∃ painted, step pixels = some painted ∧ painted.length = pixelLimit ∧
      painted.take (bits.width * bits.height) = (List.range (bits.width * bits.height)).map (cursor.stored msbFirst bits) := by
  obtain ⟨painted, hpainted, hlength, hin, -⟩ := h pixels hlength
  refine ⟨painted, hpainted, hlength, List.ext_getElem? fun i => ?_⟩
  rw [List.getElem?_take, List.getElem?_map]
  split
  · next hi => rw [hin i (hS i hi), List.getElem?_range hi, Option.map_some]
  · next hi => rw [List.getElem?_eq_none (by simpa using hi), Option.map_none]

/-- What is stored, multiplied by its alpha, is the pixel of X. -/
theorem premultiply_stored (i : Nat) : premultiply (cursor.stored msbFirst bits i) = cursor.pixel msbFirst bits i := by
  have hopaque (red green blue : BitVec 16) : premultiply (opaquePixel red green blue) = opaquePixel red green blue := by
    apply premultiply_opaque
    apply alpha_pack (by decide)
    intro k
    have := high_lt red
    have := high_lt green
    have := high_lt blue
    split
    · assumption
    · split <;> assumption
  unfold CursorRec.stored CursorRec.pixel
  split
  · exact premultiply_straightArgb _
  · dsimp only
    split
    · decide
    · split
      · exact hopaque ..
      · exact hopaque ..

/-- The variables stand for what X shows. -/
structure Drawn (msbFirst : Bool) (current : Option (Option CursorRec × Bool)) (v : Variables) : Prop where
  length : v.cursorPixels.length = pixelLimit
  valid : lorieCursorValid v.cursorInfo = true
  shown : v.shown = picture msbFirst current

theorem drawn_init (msbFirst : Bool) : Drawn msbFirst none {} := ⟨List.length_replicate, rfl, rfl⟩

/-- The loops store the image of a cursor. -/
theorem stored_image (msbFirst : Bool) (cursor : CursorRec) (hlength : v.cursorPixels.length = pixelLimit)
    (hwhole : bits.Whole) (hw : bits.width ≠ 0) (hh : bits.height ≠ 0) (hvalid : lorieCursorValid bits.info = true) :
    ∃ pixels, v.imagePixels msbFirst cursor bits = some pixels ∧ pixels.length = pixelLimit ∧
      pixels.take (bits.width * bits.height) = (List.range (bits.width * bits.height)).map (cursor.stored msbFirst bits) := by
  obtain ⟨hwidth, hheight, -, -⟩ := (CursorBits.info_valid hw hh).1 hvalid
  have hlimit : bits.width * bits.height ≤ pixelLimit := Nat.mul_le_mul hwidth hheight
  unfold Variables.imagePixels
  cases hargb : bits.argb with
  | some argb =>
    have hpaints := Lib.paints_foldlM fun i hi =>
      argb_paints msbFirst cursor hargb hwhole (List.mem_range.1 hi) hlimit
    obtain ⟨pixels, hpixels, hrest⟩ := stored_of_paints hpaints (fun i hi => ⟨i, List.mem_range.2 hi, rfl⟩) hlength
    refine ⟨pixels, ?_, hrest⟩
    dsimp only [Variables.argbPixels]
    rw [CursorBits.pixelCount hvalid]
    exact hpixels
  | none =>
    have hpaints := Lib.paints_foldlM fun y hy => Lib.paints_foldlM fun x hx =>
      mono_paints msbFirst cursor hargb hwhole (List.mem_range.1 hy) (List.mem_range.1 hx) hlimit
    have hall : ∀ i < bits.width * bits.height,
        ∃ y ∈ List.range bits.height, ∃ x ∈ List.range bits.width, i = y * bits.width + x := by
      intro i hi
      refine ⟨i / bits.width, List.mem_range.2 (Nat.div_lt_of_lt_mul hi), i % bits.width,
        List.mem_range.2 (Nat.mod_lt _ (Nat.pos_of_ne_zero hw)), ?_⟩
      rw [Nat.mul_comm]
      exact (Nat.div_add_mod i bits.width).symm
    obtain ⟨pixels, hpixels, hrest⟩ := stored_of_paints hpaints hall hlength
    exact ⟨pixels, hpixels, hrest⟩

/-- **`lorieCursorSet`** reads and writes within its memory, and the variables stand for the cursor that was set. -/
theorem lorieCursorSet_drawn (msbFirst root : Bool) (hlength : v.cursorPixels.length = pixelLimit) {given : Option CursorRec}
    (hwhole : ∀ c ∈ given, ∀ bits ∈ c.bits, bits.Whole) :
    ∃ w, v.lorieCursorSet msbFirst given root = some w ∧ Drawn msbFirst (some (given, root)) w ∧ w.cursorPending = true ∧
      w.cursorOutput = v.cursorOutput ∧ w.cursorWindow = v.cursorWindow := by
  unfold Variables.lorieCursorSet
  dsimp only
  match given, root with
  | none, _ => exact ⟨_, rfl, ⟨hlength, rfl, rfl⟩, rfl, rfl, rfl⟩
  | some cursor, true => exact ⟨_, rfl, ⟨hlength, rfl, rfl⟩, rfl, rfl, rfl⟩
  | some cursor, false =>
    dsimp only
    rw [if_neg Bool.false_ne_true]
    cases hbits : cursor.bits with
    | none => exact ⟨_, rfl, ⟨hlength, rfl, by simp [Variables.shown, pictureOf, picture, hbits]⟩, rfl, rfl, rfl⟩
    | some bits =>
      dsimp only
      split
      · next hempty =>
        exact ⟨_, rfl, ⟨hlength, rfl, by
          simp [Variables.shown, pictureOf, picture, hbits, CursorRec.image, hempty]⟩, rfl, rfl, rfl⟩
      · next hsome =>
        have hw : bits.width ≠ 0 := fun h => hsome (.inl h)
        have hh : bits.height ≠ 0 := fun h => hsome (.inr (.inl h))
        split
        · next hinvalid =>
          have hlimits := mt (CursorBits.info_valid hw hh).2 (by simpa using hinvalid)
          refine ⟨_, rfl, ⟨hlength, rfl, ?_⟩, rfl, rfl, rfl⟩
          simp only [Variables.shown, pictureOf, picture, hbits, CursorRec.image, if_neg hsome, if_neg hlimits]
        · next hvalid =>
          have hvalid : lorieCursorValid bits.info = true := by simpa using hvalid
          have hlimits := (CursorBits.info_valid hw hh).1 hvalid
          obtain ⟨pixels, hpixels, hlength', htake⟩ :=
            stored_image msbFirst cursor (v := { v with cursorInfo := { kind := .hidden }, cursorPending := true }) hlength
              (hwhole cursor rfl bits hbits) hw hh hvalid
          rw [hpixels]
          refine ⟨_, rfl, ⟨hlength', hvalid, ?_⟩, rfl, rfl, rfl⟩
          simp only [Variables.shown, pictureOf, picture, hbits, CursorRec.image, if_neg hsome, if_pos hlimits, CursorBits.info,
            htake, List.map_map]
          congr 1
          exact List.map_congr_left fun i _ => premultiply_stored i

end Loops

end Lorie.Cursor
