import Lorie.Lib.Numbers
import Lorie.Lib.Paint
import Lorie.Windows.SizeHints
import Mathlib.Data.List.Induction

/-!
# An icon out of the memory of a property

`lorieWindowIcon` as it reads the words of `_NET_WM_ICON` (`window_icon.h`). A word that cannot be read, a pixel outside the
result and a number that leaves its type make the result `none`. The catalog uses `Lorie.Windows.lorieWindowIcon` over a list
(`Lorie.Windows.Properties`), and the memory gives the same (`parse_eq`, `fit_eq`).

- `bestImage_words`, `words_of_bestImage`: the loop goes over the images of the property, if it consists of images;
- `foldl_chosen`: which of them is the best one;
- `icon_fitted`: what is returned, and the pixels of the result.
-/

namespace Lorie.Windows

namespace Icon

open SizeHints (Memory Holds values)
open Lib (unsigned minus quotient unsigned_eq minus_eq quotient_eq)

/-! ## The words in memory -/

/-- `best`, `bw`, `bh` and `bestSide`: the pixels are behind `data + offset`. -/
structure Best where
  offset : Nat
  width : Nat
  height : Nat
  side : Nat
  deriving DecidableEq, Repr

/-- How the first loop ends: with `return 0`, or behind the last word. -/
inductive Parsed where
  | failed
  | ended (best : Option Best)
  deriving DecidableEq, Repr

def better (side : Nat) : Option Best → Bool
  | none => true
  | some best => (best.side < iconSize && side > best.side) || (side ≥ iconSize && side < best.side)

section Reading

variable (words : Memory) (count : Nat)

/-- The image at an offset: where its pixels are, and where they end. -/
def header (offset : Nat) : Option (Option (Best × Nat)) := do
  let left ← minus count offset
  if left < 2 then return none
  else
    let width ← words offset
    let offset ← unsigned 32 (offset + 1)
    let height ← words offset
    let offset ← unsigned 32 (offset + 1)
    if width.toNat = 0 ∨ height.toNat = 0 then return none
    else
      let left ← minus count offset
      let rows ← quotient left height.toNat
      if width.toNat > rows then return none
      else
        let area ← unsigned 32 (width.toNat * height.toNat)
        let next ← unsigned 32 (offset + area)
        let side := if width.toNat > height.toNat then width.toNat else height.toNat
        return some (⟨offset, width.toNat, height.toNat, side⟩, next)

/-- The loop over the images, if it ends after so many of them. -/
def parse : Nat → Nat → Option Best → Option Parsed
  | 0, _, _ => none
  | fuel + 1, offset, best =>
    if offset < count then do
      match ← header words count offset with
      | none => return .failed
      | some (image, next) => parse fuel next (if better image.side best then some image else best)
    else return .ended best

/-- `(uint64_t)size * LORIE_WINDOW_ICON_SIZE / bestSide`, at least 1 -/
def scaled (size bestSide : Nat) : Option Nat := do
  let product ← unsigned 64 (size * iconSize)
  let quotient ← quotient product bestSide
  let size ← unsigned 32 quotient
  return if size = 0 then 1 else size

/-- One pixel of the result -/
def pixel (best : Best) (width height left top : Nat) (result : List (BitVec 32)) (y x : Nat) :
    Option (List (BitVec 32)) := do
  let row ← quotient (← unsigned 32 (y * best.height)) height
  let column ← quotient (← unsigned 32 (x * best.width)) width
  let source ← unsigned 32 ((← unsigned 32 (row * best.width)) + column)
  let value ← words (best.offset + source)
  let line ← unsigned 32 ((← unsigned 32 (top + y)) * iconSize)
  Lib.write result (← unsigned 32 ((← unsigned 32 (line + left)) + x)) value

/-- The image fitted into the result -/
def fit (best : Best) (result : List (BitVec 32)) : Option (List (BitVec 32)) := do
  let width ← scaled best.width best.side
  let height ← scaled best.height best.side
  let left ← minus iconSize width
  let top ← minus iconSize height
  (List.range height).foldlM (fun result y =>
    (List.range width).foldlM (fun result x => pixel words best width height (left / 2) (top / 2) result y x) result) result

end Reading

/-- `memset(result, 0, ...)` -/
def cleared : List (BitVec 32) := List.replicate (iconSize * iconSize) 0

/-- `lorieWindowIcon`: what it returns, and `result` -/
def lorieWindowIcon (data : Option Memory) (count : Nat) : Option (Bool × List (BitVec 32)) :=
  match data with
  | none => some (false, cleared)
  | some words =>
    if count > 1024 * 1024 then some (false, cleared)
    else do
      match ← parse words count (count + 1) 0 none with
      | .ended (some best) => return (true, ← fit words best cleared)
      | _ => return (false, cleared)

/-! ## The images -/

/-- An image whose pixels are all there. -/
structure Block extends Image where
  width_pos : 0 < width
  height_pos : 0 < height
  complete : pixels.length = width * height

namespace Block

/-- The image as it stands in the property. -/
def words (block : Block) : List Nat := block.width :: block.height :: block.pixels

end Block

/-- The better of two images -/
def pick (best : Option Image) (image : Image) : Option Image := if image.better best then some image else best

/-- The loop goes over the images. -/
theorem bestImage_words (blocks : List Block) {fuel : Nat} (hfuel : (blocks.flatMap Block.words).length ≤ fuel)
    (best : Option Image) :
    bestImage fuel (blocks.flatMap Block.words) best = (blocks.map Block.toImage).foldl pick best := by
  induction blocks generalizing fuel best with
  | nil => cases fuel <;> rfl
  | cons b blocks ih =>
    have hlength : ((b :: blocks).flatMap Block.words).length = b.pixels.length + 2 + (blocks.flatMap Block.words).length := by
      simp [Block.words]
      omega
    obtain ⟨fuel, rfl⟩ : ∃ k, fuel = k + 1 := ⟨fuel - 1, by omega⟩
    have hfits : ¬(b.width = 0 ∨ b.height = 0 ∨
        b.width > (b.pixels ++ blocks.flatMap Block.words).length / b.height) := by
      rintro (h | h | h)
      · exact absurd h b.width_pos.ne'
      · exact absurd h b.height_pos.ne'
      · refine absurd h (Nat.not_lt.2 ((Nat.le_div_iff_mul_le b.height_pos).2 ?_))
        rw [← b.complete, List.length_append]
        exact Nat.le_add_right _ _
    rw [show (b :: blocks).flatMap Block.words = b.width :: b.height :: (b.pixels ++ blocks.flatMap Block.words) from rfl,
      bestImage, if_neg hfits]
    dsimp only
    rw [← b.complete, List.take_left, List.drop_left, ih (by omega)]
    rfl

/-- Where the loop finds a best image, there are only images. -/
theorem words_of_bestImage {fuel : Nat} {data : List Nat} {best image : Option Image} (h : bestImage fuel data best = image)
    (hi : image ≠ none) : ∃ blocks : List Block, data = blocks.flatMap Block.words := by
  induction fuel generalizing data best with
  | zero =>
    cases data with
    | nil => exact ⟨[], rfl⟩
    | cons w data =>
      have hnone : bestImage 0 (w :: data) best = none := by cases data <;> rfl
      exact absurd (h.symm.trans hnone) hi
  | succ fuel ih =>
    match data with
    | [] => exact ⟨[], rfl⟩
    | [w] => exact absurd (h.symm.trans (show bestImage (fuel + 1) [w] best = none from rfl)) hi
    | width :: height :: data =>
      rw [bestImage] at h
      by_cases hbad : width = 0 ∨ height = 0 ∨ width > data.length / height
      · rw [if_pos hbad] at h
        exact absurd h.symm hi
      · rw [if_neg hbad] at h
        obtain ⟨hwidth, hheight, hrows⟩ : 0 < width ∧ 0 < height ∧ width ≤ data.length / height := by omega
        obtain ⟨blocks, hblocks⟩ := ih h
        have harea : width * height ≤ data.length := (Nat.le_div_iff_mul_le hheight).1 hrows
        refine ⟨⟨⟨width, height, data.take (width * height)⟩, hwidth, hheight, List.length_take_of_le harea⟩ :: blocks, ?_⟩
        rw [List.flatMap_cons, ← hblocks]
        simp [Block.words]

/-! ## The best image -/

/-- The first of the images with the smallest longer side of at least 64, or the first with the longest one. -/
def Chosen (before : List Image) (best : Image) (behind : List Image) : Prop :=
  if iconSize ≤ best.side then
    (∀ c ∈ before, iconSize ≤ c.side → best.side < c.side) ∧ ∀ c ∈ behind, iconSize ≤ c.side → best.side ≤ c.side
  else (∀ c ∈ before, c.side < best.side) ∧ ∀ c ∈ behind, c.side ≤ best.side

theorem better_some (image best : Image) : image.better (some best) = true ↔
    (best.side < iconSize ∧ best.side < image.side) ∨ (iconSize ≤ image.side ∧ image.side < best.side) := by
  simp [Image.better]

/-- One more image -/
theorem chosen_snoc {before behind : List Image} {best : Image} (h : Chosen before best behind) (image : Image) :
    if image.better (some best) then Chosen (before ++ best :: behind) image [] else Chosen before best (behind ++ [image]) := by
  unfold Chosen at h
  split
  · rename_i hb
    rw [better_some] at hb
    have hall : if iconSize ≤ best.side then ∀ c ∈ before ++ best :: behind, iconSize ≤ c.side → best.side ≤ c.side
        else ∀ c ∈ before ++ best :: behind, c.side ≤ best.side := by
      split at h
      · rename_i hlarge
        rw [if_pos hlarge]
        intro c hc hside
        rcases List.mem_append.1 hc with hc | hc
        · exact (h.1 c hc hside).le
        · rcases List.mem_cons.1 hc with rfl | hc
          · exact le_rfl
          · exact h.2 c hc hside
      · rename_i hsmall
        rw [if_neg hsmall]
        intro c hc
        rcases List.mem_append.1 hc with hc | hc
        · exact (h.1 c hc).le
        · rcases List.mem_cons.1 hc with rfl | hc
          · exact le_rfl
          · exact h.2 c hc
    unfold Chosen
    split at hall
    · rename_i hlarge
      rw [if_pos (by omega)]
      exact ⟨fun c hc hside => by have := hall c hc hside; omega, fun c hc => by cases hc⟩
    · split
      · exact ⟨fun c hc hside => by have := hall c hc; omega, fun c hc => by cases hc⟩
      · exact ⟨fun c hc => by have := hall c hc; omega, fun c hc => by cases hc⟩
  · rename_i hb
    rw [better_some] at hb
    unfold Chosen
    split at h
    · rename_i hlarge
      rw [if_pos hlarge]
      refine ⟨h.1, fun c hc hside => ?_⟩
      rcases List.mem_append.1 hc with hc | hc
      · exact h.2 c hc hside
      · obtain rfl := List.mem_singleton.1 hc
        omega
    · rename_i hsmall
      rw [if_neg hsmall]
      refine ⟨h.1, fun c hc => ?_⟩
      rcases List.mem_append.1 hc with hc | hc
      · exact h.2 c hc
      · obtain rfl := List.mem_singleton.1 hc
        omega

/-- **The best of some images.** -/
theorem foldl_chosen (images : List Image) :
    match images.foldl pick none with
    | none => images = []
    | some best => ∃ before behind, images = before ++ best :: behind ∧ Chosen before best behind := by
  induction images using List.reverseRecOn with
  | nil => rfl
  | append_singleton images image ih =>
    rw [List.foldl_append, List.foldl_cons, List.foldl_nil]
    cases hbest : images.foldl pick none with
    | none =>
      rw [hbest] at ih
      subst ih
      refine ⟨[], [], rfl, ?_⟩
      unfold Chosen
      split
      · exact ⟨fun c hc => absurd hc List.not_mem_nil, fun c hc => absurd hc List.not_mem_nil⟩
      · exact ⟨fun c hc => absurd hc List.not_mem_nil, fun c hc => absurd hc List.not_mem_nil⟩
    | some best =>
      rw [hbest] at ih
      obtain ⟨before, behind, himages, hchosen⟩ := ih
      have hsnoc := chosen_snoc hchosen image
      unfold pick
      by_cases hb : image.better (some best) = true
      · rw [if_pos hb] at hsnoc
        rw [if_pos hb]
        exact ⟨images, [], rfl, himages ▸ hsnoc⟩
      · rw [if_neg hb] at hsnoc
        rw [if_neg hb]
        exact ⟨before, behind ++ [image], by rw [himages, List.append_assoc, List.cons_append], hsnoc⟩

/-! ## The memory against the list -/

section Comparison

variable {words : Memory} {data : List (BitVec 32)}

/-- The image that is remembered -/
def Best.image (data : List Nat) (best : Best) : Image :=
  ⟨best.width, best.height, (data.drop best.offset).take (best.width * best.height)⟩

/-- The pixels are below `count`. -/
structure Inside (count : Nat) (best : Best) : Prop where
  width_pos : 0 < best.width
  height_pos : 0 < best.height
  side : best.side = max best.width best.height
  pixels : best.offset + best.width * best.height ≤ count

/-- The images so far -/
def Parsed.best : Parsed → Option Best
  | failed => none
  | ended best => best

theorem better_image (image : Best) {count : Nat} (hi : Inside count image) {best : Option Best}
    (hb : ∀ b ∈ best, Inside count b) (data : List Nat) :
    better image.side best = (image.image data).better (best.map (Best.image data)) := by
  cases best with
  | none => rfl
  | some best =>
    rw [better, hi.side, (hb best rfl).side]
    rfl

/-- What is found at an offset: no image, or one with its words. -/
theorem header_eq (h : Holds words data) (hsize : data.length ≤ 1024 * 1024) {offset : Nat} (ho : offset < data.length) :
    (header words data.length offset = some none ∧
      ∀ fuel best, bestImage (fuel + 1) ((values data).drop offset) best = none) ∨
    ∃ image next, header words data.length offset = some (some (image, next)) ∧ offset < next ∧ next ≤ data.length ∧
      Inside data.length image ∧
      ∀ fuel best, bestImage (fuel + 1) ((values data).drop offset) best =
        bestImage fuel ((values data).drop next) (pick best (image.image (values data))) := by
  have hlength : (values data).length = data.length := SizeHints.values_length data
  have hvalue : ∀ {i : Nat} (hi : i < data.length), (values data).drop i = data[i].toNat :: (values data).drop (i + 1) := by
    intro i hi
    rw [List.drop_eq_getElem_cons (hlength ▸ hi)]
    simp [values]
  unfold header
  rw [minus_eq ho.le]
  simp only [Option.bind_eq_bind, Option.bind_some]
  by_cases htwo : data.length - offset < 2
  · rw [if_pos htwo]
    refine .inl ⟨rfl, fun fuel best => ?_⟩
    rw [hvalue ho, List.drop_eq_nil_of_le (by omega)]
    rfl
  · have hnext : offset + 1 < data.length := by omega
    rw [if_neg htwo, h offset ho, unsigned_eq (by omega)]
    simp only [Option.bind_some]
    rw [h (offset + 1) hnext, unsigned_eq (by omega)]
    simp only [Option.bind_some]
    rw [hvalue ho, hvalue hnext, minus_eq (show offset + 1 + 1 ≤ data.length from hnext)]
    have hrest : ((values data).drop (offset + 1 + 1)).length = data.length - (offset + 1 + 1) := by
      rw [List.length_drop, hlength]
    generalize hwidth : data[offset].toNat = width
    generalize hheight : data[offset + 1].toNat = height
    by_cases hzero : width = 0 ∨ height = 0
    · rw [if_pos hzero]
      refine .inl ⟨rfl, fun fuel best => ?_⟩
      rw [bestImage, if_pos (hzero.imp_right Or.inl)]
    · obtain ⟨hw, hh⟩ : 0 < width ∧ 0 < height := by omega
      rw [if_neg hzero, Option.bind_some, quotient_eq hh, Option.bind_some]
      by_cases hrows : width > (data.length - (offset + 1 + 1)) / height
      · rw [if_pos hrows]
        refine .inl ⟨rfl, fun fuel best => ?_⟩
        rw [bestImage, if_pos (.inr (.inr (by rwa [hrest])))]
      · have harea : width * height ≤ data.length - (offset + 1 + 1) :=
          (Nat.le_div_iff_mul_le hh).1 (Nat.le_of_not_lt hrows)
        rw [if_neg hrows, unsigned_eq (by omega), Option.bind_some, unsigned_eq (by omega), Option.bind_some]
        refine .inr ⟨_, _, rfl, by omega, by omega, ⟨hw, hh, ?_, ?_⟩, fun fuel best => ?_⟩
        · dsimp only
          split <;> omega
        · dsimp only
          omega
        · rw [bestImage, if_neg (by rw [hrest]; omega)]
          dsimp only
          rw [List.drop_drop]
          rfl

/-- **The loop over the memory is the loop over the list.** -/
theorem parse_eq (h : Holds words data) (hsize : data.length ≤ 1024 * 1024) (fuel offset : Nat) (best : Option Best) (n : Nat)
    (hfuel : data.length < offset + fuel) (ho : offset ≤ data.length) (hb : ∀ b ∈ best, Inside data.length b)
    (hn : data.length ≤ offset + n) :
    ∃ parsed, parse words data.length fuel offset best = some parsed ∧ (∀ b ∈ parsed.best, Inside data.length b) ∧
      parsed.best.map (Best.image (values data)) =
        bestImage n ((values data).drop offset) (best.map (Best.image (values data))) := by
  induction fuel generalizing offset best n with
  | zero => exact absurd hfuel (by omega)
  | succ fuel ih =>
    rw [parse]
    by_cases hend : offset < data.length
    · obtain ⟨n, rfl⟩ : ∃ k, n = k + 1 := ⟨n - 1, by omega⟩
      rw [if_pos hend]
      rcases header_eq h hsize hend with ⟨hheader, hlist⟩ | ⟨image, next, hheader, hlt, hle, hinside, hlist⟩
      · rw [hheader, hlist]
        exact ⟨.failed, rfl, fun b hb => absurd hb (Option.not_mem_none b), rfl⟩
      · rw [hheader, hlist]
        have hbest : ∀ b ∈ if better image.side best then some image else best, Inside data.length b := by
          intro b hmem
          split at hmem
          · obtain rfl := Option.some.inj hmem
            exact hinside
          · exact hb b hmem
        obtain ⟨parsed, hparsed, hin, heq⟩ := ih next _ n (by omega) hle hbest (by omega)
        refine ⟨parsed, hparsed, hin, ?_⟩
        rw [heq, better_image image hinside hb (values data)]
        unfold pick
        split <;> rfl
    · rw [if_neg hend, List.drop_eq_nil_of_le (by rw [SizeHints.values_length]; omega)]
      exact ⟨.ended best, rfl, hb, by cases n <;> rfl⟩

/-! ## The pixels -/

theorem scaled_eq {size side : Nat} (hpos : 0 < size) (hside : size ≤ side) (hlarge : side ≤ 1024 * 1024) :
    scaled size side = some (max 1 (size * iconSize / side)) ∧ max 1 (size * iconSize / side) ≤ iconSize := by
  have hdiv : size * iconSize / side ≤ iconSize := by
    refine Nat.div_le_of_le_mul ?_
    exact Nat.mul_le_mul_right _ hside
  unfold iconSize at *
  refine ⟨?_, by omega⟩
  unfold scaled
  simp only [Option.bind_eq_bind]
  rw [show iconSize = 64 from rfl, unsigned_eq (by omega), Option.bind_some, quotient_eq (by omega), Option.bind_some,
    unsigned_eq (by omega), Option.bind_some]
  refine congrArg some ?_
  generalize size * 64 / side = quotient
  split <;> omega

/-- A sample is inside the image. -/
theorem sample_lt {y height size : Nat} (hy : y < height) (hsize : 0 < size) : y * size / height < size := by
  rw [Nat.div_lt_iff_lt_mul (by omega)]
  calc y * size < height * size := Nat.mul_lt_mul_of_pos_right hy hsize
    _ = size * height := Nat.mul_comm _ _

theorem sample_index {row column width height : Nat} (hrow : row < height) (hcolumn : column < width) :
    row * width + column < width * height := by
  calc row * width + column < row * width + width := by omega
    _ = (row + 1) * width := by rw [Nat.add_mul, Nat.one_mul]
    _ ≤ height * width := Nat.mul_le_mul_right _ hrow
    _ = width * height := Nat.mul_comm _ _

/-- The word that a position of the result gets. -/
def sample (data : List (BitVec 32)) (best : Best) (width height left top i : Nat) : BitVec 32 :=
  data.getD (best.offset + ((i / iconSize - top) * best.height / height * best.width +
    (i % iconSize - left) * best.width / width)) 0

theorem pixel_paints (h : Holds words data) (hsize : data.length ≤ 1024 * 1024) {best : Best} (hi : Inside data.length best)
    {width height left top y x : Nat} (hy : y < height) (hx : x < width) (hleft : left + width ≤ iconSize)
    (htop : top + height ≤ iconSize) :
    Lib.Paints (iconSize * iconSize) (sample data best width height left top) (· = (top + y) * iconSize + left + x)
      fun result => pixel words best width height left top result y x := by
  obtain ⟨hwidth, hheight, -, hpixels⟩ := hi
  have hsmall : best.width ≤ 1024 * 1024 ∧ best.height ≤ 1024 * 1024 := by
    have h1 : best.width * 1 ≤ best.width * best.height := Nat.mul_le_mul_left _ hheight
    have h2 : 1 * best.height ≤ best.width * best.height := Nat.mul_le_mul_right _ hwidth
    omega
  unfold iconSize at hleft htop ⊢
  have hrow := sample_lt hy hheight
  have hcolumn := sample_lt hx hwidth
  have hindex := sample_index hrow hcolumn
  have hline : y * best.height / height * best.width ≤ y * best.height / height * best.width + x * best.width / width :=
    Nat.le_add_right _ _
  have hyh : y * best.height ≤ 64 * (1024 * 1024) := Nat.mul_le_mul (by omega) hsmall.2
  have hxw : x * best.width ≤ 64 * (1024 * 1024) := Nat.mul_le_mul (by omega) hsmall.1
  have hword : best.offset + (y * best.height / height * best.width + x * best.width / width) < data.length := by omega
  have hi : ((top + y) * 64 + left + x) / 64 - top = y ∧ ((top + y) * 64 + left + x) % 64 - left = x := by omega
  have hpixel : ∀ result, pixel words best width height left top result y x =
      Lib.write result ((top + y) * 64 + left + x)
        (sample data best width height left top ((top + y) * 64 + left + x)) := by
    intro result
    unfold pixel sample iconSize
    rw [hi.1, hi.2, List.getD_eq_getElem?_getD, List.getElem?_eq_getElem hword, Option.getD_some]
    simp only [Option.bind_eq_bind]
    rw [unsigned_eq (by omega), Option.bind_some, quotient_eq (by omega), Option.bind_some, unsigned_eq (by omega),
      Option.bind_some, quotient_eq (by omega), Option.bind_some, unsigned_eq (by omega), Option.bind_some,
      unsigned_eq (by omega), Option.bind_some, h _ hword, Option.bind_some, unsigned_eq (by omega), Option.bind_some,
      unsigned_eq (by omega), Option.bind_some, unsigned_eq (by omega), Option.bind_some, unsigned_eq (by omega),
      Option.bind_some]
  intro result hn
  dsimp only
  rw [hpixel]
  exact Lib.paints_write (by omega) result hn

/-- A position of the result in a rectangle. -/
theorem position_iff {left top width height i : Nat} (hleft : left + width ≤ iconSize) :
    (∃ y ∈ List.range height, ∃ x ∈ List.range width, i = (top + y) * iconSize + left + x) ↔
      left ≤ i % iconSize ∧ i % iconSize - left < width ∧ top ≤ i / iconSize ∧ i / iconSize - top < height := by
  unfold iconSize at *
  simp only [List.mem_range]
  constructor
  · rintro ⟨y, hy, x, hx, rfl⟩
    omega
  · rintro ⟨hx, hx', hy, hy'⟩
    exact ⟨i / 64 - top, hy', i % 64 - left, hx', by omega⟩

/-- A sample of the image that is remembered. -/
theorem sample_value {best : Best} {width height left top i : Nat} (hpos : 0 < best.width ∧ 0 < best.height)
    (hx : i % iconSize - left < width) (hy : i / iconSize - top < height) :
    (sample data best width height left top i).toNat =
      (best.image (values data)).pixels.getD ((i / iconSize - top) * best.height / height * best.width +
        (i % iconSize - left) * best.width / width) 0 := by
  have hindex := sample_index (sample_lt hy hpos.2) (sample_lt hx hpos.1)
  unfold sample Best.image values
  dsimp only
  simp only [List.getD_eq_getElem?_getD]
  rw [List.getElem?_take_of_lt hindex, List.getElem?_drop, List.getElem?_map]
  generalize best.offset + _ = j
  cases data[j]? <;> rfl

/-- **The result is the image fitted into the icon.** -/
theorem fit_eq (h : Holds words data) (hsize : data.length ≤ 1024 * 1024) {best : Best} (hi : Inside data.length best) :
    ∃ result, fit words best cleared = some result ∧ result.length = iconSize * iconSize ∧
      values result = (best.image (values data)).fit := by
  have hside : (best.image (values data)).side = best.side := hi.side.symm
  have hsmall : best.width ≤ best.side ∧ best.height ≤ best.side ∧ best.side ≤ 1024 * 1024 := by
    obtain ⟨hwidth, hheight, hside, hpixels⟩ := hi
    have h1 : best.width * 1 ≤ best.width * best.height := Nat.mul_le_mul_left _ hheight
    have h2 : 1 * best.height ≤ best.width * best.height := Nat.mul_le_mul_right _ hwidth
    omega
  obtain ⟨hw, hwidth⟩ := scaled_eq hi.width_pos hsmall.1 hsmall.2.2
  obtain ⟨hh, hheight⟩ := scaled_eq hi.height_pos hsmall.2.1 hsmall.2.2
  unfold fit Image.fit
  rw [hw, hh, hside]
  simp only [Option.bind_eq_bind, Option.bind_some, minus_eq hwidth, minus_eq hheight]
  rw [show (best.image (values data)).width = best.width from rfl,
    show (best.image (values data)).height = best.height from rfl]
  generalize max 1 (best.width * iconSize / best.side) = width at *
  generalize max 1 (best.height * iconSize / best.side) = height at *
  have hleft : (iconSize - width) / 2 + width ≤ iconSize := by omega
  have htop : (iconSize - height) / 2 + height ≤ iconSize := by omega
  generalize (iconSize - width) / 2 = left at *
  generalize (iconSize - height) / 2 = top at *
  have hpaints := Lib.paints_foldlM fun y hy => Lib.paints_foldlM fun x hx =>
    pixel_paints h hsize hi (List.mem_range.1 hy) (List.mem_range.1 hx) hleft htop
  obtain ⟨result, hresult, hlength, hin, hout⟩ := hpaints cleared List.length_replicate
  refine ⟨result, hresult, hlength, List.ext_getElem? fun i => ?_⟩
  unfold values
  rw [List.getElem?_map, List.getElem?_map]
  by_cases hrange : i < iconSize * iconSize
  · rw [List.getElem?_range hrange, Option.map_some]
    split
    · rename_i hrect
      rw [hin i ((position_iff hleft).2 hrect), Option.map_some]
      exact congrArg some (sample_value ⟨hi.width_pos, hi.height_pos⟩ hrect.2.1 hrect.2.2.2)
    · rename_i hrect
      rw [hout i fun hs => hrect ((position_iff hleft).1 hs), cleared, List.getElem?_replicate_of_lt hrange]
      rfl
  · rw [List.getElem?_eq_none (by omega), List.getElem?_eq_none (by rw [List.length_range]; omega)]
    rfl

/-- The memory gives what the list gives. -/
theorem icon_eq (h : Holds words data) :
    ∃ result, result.length = iconSize * iconSize ∧
      match Windows.lorieWindowIcon (some (values data)) with
      | some icon => lorieWindowIcon (some words) data.length = some (true, result) ∧ values result = icon
      | none => lorieWindowIcon (some words) data.length = some (false, result) ∧ result = cleared := by
  have hcleared : cleared.length = iconSize * iconSize := List.length_replicate
  unfold Windows.lorieWindowIcon lorieWindowIcon
  dsimp only
  rw [SizeHints.values_length]
  by_cases hsize : data.length > 1024 * 1024
  · rw [if_pos hsize, if_pos hsize]
    exact ⟨cleared, hcleared, rfl, rfl⟩
  · rw [if_neg hsize, if_neg hsize]
    obtain ⟨parsed, hparsed, hin, heq⟩ := parse_eq h (Nat.le_of_not_lt hsize) (data.length + 1) 0 none data.length (by omega)
      (Nat.zero_le _) (fun b hb => absurd hb (Option.not_mem_none b)) (by omega)
    rw [List.drop_zero, Option.map_none] at heq
    rw [← heq, hparsed, Option.bind_eq_bind, Option.bind_some]
    match parsed, hin with
    | .failed, _ => exact ⟨cleared, hcleared, rfl, rfl⟩
    | .ended none, _ => exact ⟨cleared, hcleared, rfl, rfl⟩
    | .ended (some best), hin =>
      obtain ⟨result, hfit, hlength, hvalues⟩ := fit_eq h (Nat.le_of_not_lt hsize) (hin best rfl)
      refine ⟨result, hlength, ?_, hvalues⟩
      dsimp only
      rw [hfit]
      rfl

end Comparison

/-! ## The icon -/

/-- The pixels of an icon that shows an image: the nearest samples of the image in the centered rectangle of its shape. -/
def Fitted (image : Image) (icon : List Nat) : Prop :=
  let width := max 1 (image.width * 64 / max image.width image.height)
  let height := max 1 (image.height * 64 / max image.width image.height)
  let left := (64 - width) / 2
  let top := (64 - height) / 2
  ∀ y < 64, ∀ x < 64, icon[y * 64 + x]? =
    if left ≤ x ∧ x < left + width ∧ top ≤ y ∧ y < top + height then
      image.pixels[(y - top) * image.height / height * image.width + (x - left) * image.width / width]?
    else some 0

theorem fitted_fit (block : Block) : Fitted block.toImage block.fit := by
  unfold Fitted Image.fit Image.side iconSize
  dsimp only
  generalize max 1 (block.width * 64 / max block.width block.height) = width
  generalize max 1 (block.height * 64 / max block.width block.height) = height
  generalize (64 - width) / 2 = left
  generalize (64 - height) / 2 = top
  intro y hy x hx
  have hposition : (y * 64 + x) % 64 = x ∧ (y * 64 + x) / 64 = y := by omega
  rw [List.getElem?_map, List.getElem?_range (by omega), Option.map_some, hposition.1, hposition.2]
  have hrect : (left ≤ x ∧ x - left < width ∧ top ≤ y ∧ y - top < height) ↔
      left ≤ x ∧ x < left + width ∧ top ≤ y ∧ y < top + height := by omega
  by_cases h : left ≤ x ∧ x < left + width ∧ top ≤ y ∧ y < top + height
  · rw [if_pos h, if_pos (hrect.2 h)]
    have hindex := sample_index (sample_lt (show y - top < height by omega) block.height_pos)
      (sample_lt (show x - left < width by omega) block.width_pos)
    rw [← block.complete] at hindex
    rw [List.getD_eq_getElem?_getD, List.getElem?_eq_getElem hindex]
    rfl
  · rw [if_neg h, if_neg fun hr => h (hrect.1 hr)]

/-- What the list gives for a sequence of images. -/
theorem icon_of_words {blocks : List Block} {words : List Nat} (hwords : words = blocks.flatMap Block.words)
    (hsize : words.length ≤ 1024 * 1024) :
    match Windows.lorieWindowIcon (some words) with
    | none => words = []
    | some icon => ∃ before best behind, blocks.map Block.toImage = before ++ best :: behind ∧ Chosen before best behind ∧
        Fitted best icon := by
  have hlist : Windows.lorieWindowIcon (some words) = ((blocks.map Block.toImage).foldl pick none).map Image.fit := by
    unfold Windows.lorieWindowIcon
    dsimp only
    rw [if_neg (Nat.not_lt.2 hsize)]
    subst hwords
    rw [bestImage_words blocks le_rfl]
  rw [hlist]
  have hchosen := foldl_chosen (blocks.map Block.toImage)
  cases hbest : (blocks.map Block.toImage).foldl pick none with
  | none =>
    rw [hbest] at hchosen
    rw [hwords, List.map_eq_nil_iff.1 hchosen]
    rfl
  | some best =>
    rw [hbest] at hchosen
    obtain ⟨before, behind, himages, hbehind⟩ := hchosen
    obtain ⟨block, -, rfl⟩ := List.mem_map.1 (himages ▸ List.mem_append_right before List.mem_cons_self)
    exact ⟨before, block.toImage, behind, himages, hbehind, fitted_fit block⟩

/-- The list has an icon exactly if it is a sequence of images. -/
theorem icon_iff (words : List Nat) : Windows.lorieWindowIcon (some words) ≠ none ↔
    1 ≤ words.length ∧ words.length ≤ 1024 * 1024 ∧ ∃ blocks : List Block, words = blocks.flatMap Block.words := by
  constructor
  · intro hicon
    unfold Windows.lorieWindowIcon at hicon
    dsimp only at hicon
    by_cases hsize : words.length > 1024 * 1024
    · exact absurd (if_pos hsize) hicon
    · rw [if_neg hsize, ne_eq, Option.map_eq_none_iff] at hicon
      refine ⟨Nat.pos_of_ne_zero fun hzero => hicon ?_, Nat.le_of_not_lt hsize, words_of_bestImage rfl hicon⟩
      rw [List.eq_nil_of_length_eq_zero hzero]
      rfl
  · rintro ⟨hpos, hsize, blocks, hwords⟩ hnone
    have hicon := icon_of_words hwords hsize
    rw [hnone] at hicon
    dsimp only at hicon
    rw [hicon] at hpos
    exact absurd hpos (Nat.not_succ_le_zero 0)

/-- **Icons are parsed, chosen and fitted**: the function ends with every number in its type, reads the words below `count`
alone and writes only the icon. It succeeds exactly if the words are images, and shows the chosen one. -/
theorem icon_fitted (data : List (BitVec 32)) :
    ∃ ok result, (∀ words, Holds words data → lorieWindowIcon (some words) data.length = some (ok, result)) ∧
      result.length = 64 * 64 ∧
      (ok = true ↔ 1 ≤ data.length ∧ data.length ≤ 1024 * 1024 ∧
        ∃ blocks : List Block, values data = blocks.flatMap Block.words) ∧
      (ok = false → ∀ pixel ∈ result, pixel = 0) ∧
      (ok = true → ∀ blocks : List Block, values data = blocks.flatMap Block.words →
        ∃ before best behind, blocks.map Block.toImage = before ++ best :: behind ∧ Chosen before best behind ∧
          Fitted best (values result)) := by
  have hword : Holds (fun i => data[i]?) data := fun i hi => List.getElem?_eq_getElem hi
  obtain ⟨result, hlength, hicon⟩ := icon_eq hword
  -- the list decides, so that all memories that hold it give the same
  have hsame : ∀ words, Holds words data → lorieWindowIcon (some words) data.length =
      lorieWindowIcon (some fun i => data[i]?) data.length := by
    intro words hholds
    obtain ⟨result', -, hicon'⟩ := icon_eq hholds
    cases hlist : Windows.lorieWindowIcon (some (values data)) with
    | none =>
      rw [hlist] at hicon hicon'
      rw [hicon.1, hicon'.1, hicon.2, hicon'.2]
    | some icon =>
      rw [hlist] at hicon hicon'
      have hresult : result' = result := by
        refine List.map_injective_iff.2 (fun a b => BitVec.eq_of_toNat_eq) ?_
        exact hicon'.2.trans hicon.2.symm
      rw [hicon.1, hicon'.1, hresult]
  have hsuccess := icon_iff (values data)
  rw [SizeHints.values_length] at hsuccess
  cases hlist : Windows.lorieWindowIcon (some (values data)) with
  | none =>
    rw [hlist] at hicon hsuccess
    refine ⟨false, result, fun words hholds => (hsame words hholds).trans hicon.1, hlength, ?_, fun _ pixel hpixel => ?_, ?_⟩
    · exact iff_of_false Bool.false_ne_true fun h => hsuccess.2 h rfl
    · rw [hicon.2] at hpixel
      exact List.eq_of_mem_replicate hpixel
    · exact fun h => absurd h Bool.false_ne_true
  | some icon =>
    rw [hlist] at hicon hsuccess
    have himages := hsuccess.1 (Option.some_ne_none icon)
    refine ⟨true, result, fun words hholds => (hsame words hholds).trans hicon.1, hlength, iff_of_true rfl himages, ?_, ?_⟩
    · exact fun h => absurd h.symm Bool.false_ne_true
    · intro _ blocks hwords
      have hfitted := icon_of_words hwords (by rw [SizeHints.values_length]; exact himages.2.1)
      rw [hlist] at hfitted
      rw [hicon.2]
      exact hfitted

end Icon

end Lorie.Windows
