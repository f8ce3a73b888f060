import Lorie.Lib.Numbers
import Mathlib.Data.Nat.Bitwise

/-!
# Pixels of a cursor

`cursor_image.h`: the pixels of an X cursor are multiplied by their alpha or made of two bitmaps, those for the host are not
multiplied.

- `straightArgb_eq`: what the conversion for the host computes, colour by colour;
- `premultiply_straightArgb`: multiplied by their alpha again, the pixels for the host are those of X.
-/

namespace Lorie.Cursor

open Lib (scale)

/-! ## The code -/

/-- `LORIE_CURSOR_SIZE_LIMIT` -/
def cursorSizeLimit : Nat := 512

/-- `LORIE_CURSOR_DEFAULT`, `LORIE_CURSOR_HIDDEN` and `LORIE_CURSOR_IMAGE` -/
inductive Kind where
  | default
  | hidden
  | image
  deriving DecidableEq, Repr

/-- `LorieCursorInfo` -/
structure LorieCursorInfo where
  kind : Kind
  width : Nat := 0
  height : Nat := 0
  hotspotX : Nat := 0
  hotspotY : Nat := 0
  deriving DecidableEq, Repr

def lorieCursorValid (info : LorieCursorInfo) : Bool :=
  match info.kind with
  | .default | .hidden => !(info.width ≠ 0 || info.height ≠ 0 || info.hotspotX ≠ 0 || info.hotspotY ≠ 0)
  | .image => info.width ≠ 0 && info.height ≠ 0 && info.width ≤ cursorSizeLimit && info.height ≤ cursorSizeLimit &&
      info.hotspotX < info.width && info.hotspotY < info.height

def lorieCursorPixelCount (info : LorieCursorInfo) : Nat := if lorieCursorValid info then info.width * info.height else 0

def lorieCursorStraightArgb (pixel : BitVec 32) : BitVec 32 :=
  let alpha := pixel >>> 24
  if alpha = 0 then 0
  else if alpha = 255 then pixel
  else
    [0, 8, 16].foldl (fun result shift =>
      let color := (((pixel >>> shift) &&& 255#32) * 255#32 + alpha / 2#32) / alpha
      result ||| ((if color > 255 then 255 else color) <<< shift)) (alpha <<< 24)

/-- `lorieCursorMonoPixel`, if the bitmaps have such a byte -/
def lorieCursorMonoPixel (source mask : Nat → Option (BitVec 8)) (offset : Nat) (bit : BitVec 8)
    (foreground background : BitVec 32) : Option (BitVec 32) := do
  if (← mask offset) &&& bit ≠ 0 then
    return 0xff000000 ||| (if (← source offset) &&& bit ≠ 0 then foreground else background)
  else return 0

/-! ## The parts of a pixel -/

/-- The alpha of a pixel -/
def alpha (pixel : BitVec 32) : Nat := pixel.toNat / 2 ^ 24

/-- Blue, green and red of a pixel -/
def color (pixel : BitVec 32) (k : Nat) : Nat := pixel.toNat / 256 ^ k % 256

/-- The pixel of an alpha and its colours -/
def pack (alpha : Nat) (color : Nat → Nat) : BitVec 32 :=
  .ofNat 32 (alpha * 2 ^ 24 + color 2 * 2 ^ 16 + color 1 * 2 ^ 8 + color 0)

/-- The colours multiplied by the alpha -/
def premultiply (pixel : BitVec 32) : BitVec 32 := pack (alpha pixel) fun k => scale 255 (alpha pixel) (color pixel k)

/-- No colour is above the alpha. -/
def clamp (pixel : BitVec 32) : BitVec 32 := pack (alpha pixel) fun k => min (color pixel k) (alpha pixel)

section Parts

variable {a : Nat} {c d : Nat → Nat} {pixel : BitVec 32} {k : Nat}

theorem alpha_lt (pixel : BitVec 32) : alpha pixel < 256 := by
  have := pixel.isLt
  unfold alpha
  omega

theorem color_lt (pixel : BitVec 32) (k : Nat) : color pixel k < 256 := Nat.mod_lt _ (by decide)

@[simp] theorem pack_parts (pixel : BitVec 32) : pack (alpha pixel) (color pixel) = pixel := by
  apply BitVec.eq_of_toNat_eq
  have := pixel.isLt
  simp only [pack, alpha, color, BitVec.toNat_ofNat]
  omega

theorem pack_congr (h : ∀ k < 3, c k = d k) : pack a c = pack a d := by
  unfold pack
  rw [h 0 (by decide), h 1 (by decide), h 2 (by decide)]

theorem pack_toNat (ha : a < 256) (hc : ∀ k, c k < 256) :
    (pack a c).toNat = a * 2 ^ 24 + c 2 * 2 ^ 16 + c 1 * 2 ^ 8 + c 0 := by
  have h₀ := hc 0
  have h₁ := hc 1
  have h₂ := hc 2
  simp only [pack, BitVec.toNat_ofNat]
  omega

theorem alpha_pack (ha : a < 256) (hc : ∀ k, c k < 256) : alpha (pack a c) = a := by
  have h₀ := hc 0
  have h₁ := hc 1
  have h₂ := hc 2
  rw [alpha, pack_toNat ha hc]
  omega

theorem color_pack (ha : a < 256) (hc : ∀ k, c k < 256) (hk : k < 3) : color (pack a c) k = c k := by
  have h₀ := hc 0
  have h₁ := hc 1
  have h₂ := hc 2
  rw [color, pack_toNat ha hc]
  obtain rfl | rfl | rfl : k = 0 ∨ k = 1 ∨ k = 2 := by omega
  · omega
  · omega
  · omega

/-- A number shifted over a smaller one -/
theorem shift_or {x y i : Nat} (hx : x < 2 ^ i) : y <<< i ||| x = y * 2 ^ i + x := by
  rw [← Nat.shiftLeft_add_eq_or_of_lt hx, Nat.shiftLeft_eq]

theorem or_reverse (a x y z : Nat) : a ||| x ||| y ||| z = a ||| (z ||| (y ||| x)) := by
  rw [Nat.or_comm z (y ||| x), Nat.or_comm y x, Nat.or_assoc a x y, Nat.or_assoc a (x ||| y) z]

/-- A byte is shifted within its pixel. -/
theorem shift_toNat {v : BitVec 32} {n : Nat} (hv : v.toNat < 256) (hn : n ≤ 24) : (v <<< n).toNat = v.toNat <<< n := by
  rw [BitVec.toNat_shiftLeft, Nat.shiftLeft_eq]
  apply Nat.mod_eq_of_lt
  calc v.toNat * 2 ^ n < 2 ^ 8 * 2 ^ n := Nat.mul_lt_mul_of_pos_right hv (Nat.two_pow_pos n)
    _ = 2 ^ (8 + n) := (Nat.pow_add 2 8 n).symm
    _ ≤ 2 ^ 32 := Nat.pow_le_pow_right (by decide) (by omega)

/-- The parts of a pixel are put together with shifts. -/
theorem or_pack {a : BitVec 32} {v : Nat → BitVec 32} (ha : a.toNat < 256) (hv : ∀ k, (v k).toNat < 256) :
    a <<< 24 ||| v 0 <<< 0 ||| v 1 <<< 8 ||| v 2 <<< 16 = pack a.toNat fun k => (v k).toNat := by
  have h₀ := hv 0
  have h₁ := hv 1
  have h₂ := hv 2
  apply BitVec.eq_of_toNat_eq
  rw [pack_toNat ha hv, BitVec.toNat_or, BitVec.toNat_or, BitVec.toNat_or, shift_toNat ha (by decide),
    shift_toNat h₀ (by decide), shift_toNat h₁ (by decide), shift_toNat h₂ (by decide), Nat.shiftLeft_zero]
  calc a.toNat <<< 24 ||| (v 0).toNat ||| (v 1).toNat <<< 8 ||| (v 2).toNat <<< 16
      = a.toNat <<< 24 ||| ((v 2).toNat <<< 16 ||| ((v 1).toNat <<< 8 ||| (v 0).toNat)) := by
        exact or_reverse ..
    _ = a.toNat * 2 ^ 24 + ((v 2).toNat * 2 ^ 16 + ((v 1).toNat * 2 ^ 8 + (v 0).toNat)) := by
        rw [shift_or (i := 8) h₀, shift_or (i := 16) (by omega), shift_or (i := 24) (by omega)]
    _ = a.toNat * 2 ^ 24 + (v 2).toNat * 2 ^ 16 + (v 1).toNat * 2 ^ 8 + (v 0).toNat := by omega

end Parts

/-! ## Multiplied pixels -/

section Argb

variable (pixel : BitVec 32)

theorem shift_alpha : (pixel >>> 24).toNat = alpha pixel := by
  rw [BitVec.toNat_ushiftRight, Nat.shiftRight_eq_div_pow]
  rfl

/-- A colour divided by the alpha -/
theorem divided_toNat (k : Nat) :
    ((((pixel >>> (8 * k)) &&& 255#32) * 255#32 + (pixel >>> 24) / 2#32) / (pixel >>> 24)).toNat =
      scale (alpha pixel) 255 (color pixel k) := by
  have halpha := alpha_lt pixel
  have hcolor := color_lt pixel k
  have hbyte : ((pixel >>> (8 * k)) &&& 255#32).toNat = color pixel k := by
    rw [BitVec.toNat_and, BitVec.toNat_ushiftRight, Nat.shiftRight_eq_div_pow, Nat.pow_mul]
    exact Nat.and_two_pow_sub_one_eq_mod _ 8
  have hhalf : ((pixel >>> 24) / 2#32).toNat = alpha pixel / 2 := by
    rw [BitVec.toNat_udiv, shift_alpha]
    rfl
  have hproduct : (((pixel >>> (8 * k)) &&& 255#32) * 255#32).toNat = color pixel k * 255 := by
    rw [BitVec.toNat_mul, hbyte]
    exact Nat.mod_eq_of_lt (by simp; omega)
  rw [BitVec.toNat_udiv, BitVec.toNat_add, hproduct, hhalf, shift_alpha, Nat.mod_eq_of_lt (by omega)]
  rfl

/-- The pixel without its alpha, if it has one -/
theorem straightArgb_eq (h : alpha pixel ≠ 0) :
    lorieCursorStraightArgb pixel = pack (alpha pixel) fun k => min 255 (scale (alpha pixel) 255 (color pixel k)) := by
  have hne : pixel >>> 24 ≠ 0 := fun he => h (by rw [← shift_alpha, he]; rfl)
  unfold lorieCursorStraightArgb
  dsimp only
  rw [if_neg hne]
  split
  · next hopaque =>
    have halpha : alpha pixel = 255 := by rw [← shift_alpha, hopaque]; rfl
    have hcolor : ∀ k < 3, min 255 (scale (alpha pixel) 255 (color pixel k)) = color pixel k := by
      intro k _
      have := color_lt pixel k
      rw [halpha, Lib.scale_self (by decide)]
      omega
    rw [pack_congr hcolor, pack_parts]
  · let v (k : Nat) : BitVec 32 :=
      let color := (((pixel >>> (8 * k)) &&& 255#32) * 255#32 + (pixel >>> 24) / 2#32) / (pixel >>> 24)
      if color > 255 then 255 else color
    have hv : ∀ k, (v k).toNat = min 255 (scale (alpha pixel) 255 (color pixel k)) := by
      intro k
      have hdivided := divided_toNat pixel k
      simp only [v, gt_iff_lt, BitVec.lt_def, hdivided]
      split
      · next hlt =>
        have hend : (255 : BitVec 32).toNat = 255 := rfl
        omega
      · next hlt =>
        have hend : (255 : BitVec 32).toNat = 255 := rfl
        rw [hdivided]
        omega
    have hpack := or_pack (a := pixel >>> 24) (v := v) (by rw [shift_alpha]; exact alpha_lt pixel)
      fun k => by rw [hv]; omega
    rw [shift_alpha] at hpack
    simp only [hv] at hpack
    exact hpack

theorem straightArgb_zero (h : alpha pixel = 0) : lorieCursorStraightArgb pixel = 0 := by
  unfold lorieCursorStraightArgb
  have hzero : pixel >>> 24 = 0 := BitVec.eq_of_toNat_eq (by rw [shift_alpha, h]; rfl)
  simp only [hzero, ↓reduceIte]

/-- **Multiplied by its alpha again**, a pixel for the host is the one of X, with no colour above the alpha. -/
theorem premultiply_straightArgb : premultiply (lorieCursorStraightArgb pixel) = clamp pixel := by
  by_cases h : alpha pixel = 0
  · have hclamp : clamp pixel = pack 0 fun _ => 0 := by
      unfold clamp
      rw [h]
      exact pack_congr fun k _ => Nat.min_zero _
    rw [straightArgb_zero pixel h, hclamp]
    decide
  · have hpos : 0 < alpha pixel := Nat.pos_of_ne_zero h
    have hlt := alpha_lt pixel
    have hcolors : ∀ k, min 255 (scale (alpha pixel) 255 (color pixel k)) < 256 := fun k => by omega
    rw [straightArgb_eq pixel h]
    unfold premultiply clamp
    rw [alpha_pack hlt hcolors]
    apply pack_congr
    intro k hk
    rw [color_pack hlt hcolors hk]
    rcases Nat.le_total (color pixel k) (alpha pixel) with hle | hle
    · -- a colour within its alpha comes back
      rw [Nat.min_eq_right (Lib.scale_le hpos hle), Lib.scale_scale hpos (by omega), Nat.min_eq_left hle]
    · -- one above it is as much as the alpha
      rw [Nat.min_eq_left (Lib.le_scale hpos hle), Nat.min_eq_right hle]
      unfold scale
      omega

/-- An opaque pixel is its own product. -/
theorem premultiply_opaque (h : alpha pixel = 255) : premultiply pixel = pixel := by
  unfold premultiply
  rw [h]
  calc pack 255 (fun k => scale 255 255 (color pixel k)) = pack (alpha pixel) (color pixel) := by
        rw [h]
        exact pack_congr fun k _ => Lib.scale_self (by decide) _
    _ = pixel := pack_parts pixel

end Argb

end Lorie.Cursor
