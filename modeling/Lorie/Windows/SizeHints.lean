import Lorie.Windows.Properties
import Mathlib.Algebra.Order.Field.Rat

/-!
# Size hints out of the memory of a property

`window_size.h` as it reads the words of `WM_NORMAL_HINTS`: a word that cannot be read makes the result `none`. The words are
`uint32_t`, the sizes are `int`, and a word becomes a size through its 32 bits. The catalog uses `lorieWindowSizeHints` over a
list (`Lorie.Windows.Properties`); it is the same function (`sizeHints_eq`), and what is shown of lists holds of the memory.

- `sizeBounds_le`, `sizeHintsAxis_usable`, `aspect_usable`: what the list gives;
- `axisLimits_eq`, `sizeHints_eq`: the memory gives the same;
- `size_hints_usable`: the result is usable and depends on the words below `count` alone.
-/

namespace Lorie.Windows

/-! ## The limits of an axis -/

section Limits

variable (hints : List Nat) (axis : Nat)

/-- Limits that contradict each other are given up. -/
theorem limits_le {minimum maximum : Nat} (hmin : 1 ≤ minimum) (hmax : maximum ≤ sizeLimit) :
    1 ≤ (if maximum < minimum then (1, sizeLimit) else (minimum, maximum)).1 ∧
      (if maximum < minimum then (1, sizeLimit) else (minimum, maximum)).1 ≤
        (if maximum < minimum then (1, sizeLimit) else (minimum, maximum)).2 ∧
      (if maximum < minimum then (1, sizeLimit) else (minimum, maximum)).2 ≤ sizeLimit := by
  by_cases h : maximum < minimum
  · rw [if_pos h]
    decide
  · rw [if_neg h]
    exact ⟨hmin, Nat.le_of_not_lt h, hmax⟩

/-- The limits of an axis are in order. -/
theorem sizeBounds_le :
    1 ≤ (sizeBounds hints axis).1 ∧ (sizeBounds hints axis).1 ≤ (sizeBounds hints axis).2 ∧
      (sizeBounds hints axis).2 ≤ sizeLimit := by
  refine limits_le ?_ ?_
  · split
    · dsimp only
      split
      · rename_i h
        exact h.1
      · exact le_rfl
    · exact le_rfl
  · split
    · dsimp only
      split
      · exact Nat.min_le_right _ _
      · exact le_rfl
    · exact le_rfl

/-- The least size that is asked for is the lower limit. -/
theorem sizeAxis_one : lorieWindowSizeAxis hints 1 axis = (sizeBounds hints axis).1 := by
  obtain ⟨hone, hle, -⟩ := sizeBounds_le hints axis
  unfold lorieWindowSizeAxis
  dsimp only
  split
  · rfl
  · split <;> omega

/-- The greatest size that is asked for is the upper limit. -/
theorem sizeAxis_max : lorieWindowSizeAxis hints 2147483647 axis = (sizeBounds hints axis).2 := by
  obtain ⟨-, hle, hlimit⟩ := sizeBounds_le hints axis
  unfold sizeLimit at hlimit
  unfold lorieWindowSizeAxis
  dsimp only
  split
  · omega
  · split <;> omega

/-- What is found along an axis: the least size is between 1 and the greatest, and nothing exceeds the limit. -/
theorem sizeHintsAxis_usable :
    1 ≤ (sizeHintsAxis hints axis).minimum ∧
      (sizeHintsAxis hints axis).minimum ≤ lorieWindowSizeAxis hints 2147483647 axis ∧
      (sizeHintsAxis hints axis).base ≤ sizeLimit ∧ (sizeHintsAxis hints axis).aspectBase ≤ sizeLimit ∧
      (sizeHintsAxis hints axis).increment ≤ sizeLimit := by
  obtain ⟨hone, hle, hlimit⟩ := sizeBounds_le hints axis
  have hincrement : ∀ n : Nat, (if hints.length ≥ 11 ∧ hintFlag hints 6 ∧ n > 0 ∧ n ≤ sizeLimit then n else 1) ≤
      sizeLimit := by
    intro n
    split
    · omega
    · decide
  unfold sizeHintsAxis
  rw [sizeAxis_one, sizeAxis_max]
  dsimp only
  split
  · -- the base size is given
    rename_i hbase
    refine ⟨?_, ?_, hbase.2.2, hbase.2.2, hincrement _⟩
    · dsimp only
      split <;> omega
    · dsimp only
      split <;> omega
  · split
    · exact ⟨hone, hle, hle.trans hlimit, Nat.zero_le _, hincrement _⟩
    · exact ⟨hone, hle, Nat.zero_le _, Nat.zero_le _, hincrement _⟩

/-- Valid aspect ratios are positive and in order. -/
theorem aspect_usable (h : aspectValid hints) :
    0 < hint hints 11 ∧ 0 < hint hints 12 ∧ 0 < hint hints 13 ∧ 0 < hint hints 14 ∧
      hint hints 11 * hint hints 14 ≤ hint hints 13 * hint hints 12 := by
  unfold aspectValid at h
  simp only [Bool.and_eq_true, decide_eq_true_eq, List.all_cons, List.all_nil, gt_iff_lt] at h
  obtain ⟨⟨-, ⟨h11, -⟩, ⟨h12, -⟩, ⟨h13, -⟩, ⟨h14, -⟩, -⟩, hle⟩ := h
  exact ⟨h11, h12, h13, h14, hle⟩

end Limits

/-! ## The words in memory -/

namespace SizeHints

/-- What can be read behind `hints`. -/
abbrev Memory := Nat → Option (BitVec 32)

/-- `LORIE_HINT_*` -/
inductive Flag where
  | minSize | maxSize | resizeInc | aspect | baseSize
  deriving DecidableEq, Repr

/-- The number of the bit -/
def Flag.bit : Flag → Nat
  | minSize => 4
  | maxSize => 5
  | resizeInc => 6
  | aspect => 7
  | baseSize => 8

def Flag.mask (flag : Flag) : BitVec 32 := 1#32 <<< flag.bit

/-- `LorieResizeRules` -/
structure ResizeRules where
  baseWidth : Int
  baseHeight : Int
  widthIncrement : Int
  heightIncrement : Int
  minAspectX : Int
  minAspectY : Int
  maxAspectX : Int
  maxAspectY : Int
  aspectBaseWidth : Int
  aspectBaseHeight : Int
  deriving DecidableEq, Repr

/-- `LorieWindowConstraints` -/
structure WindowConstraints where
  minWidth : Int
  minHeight : Int
  maxWidth : Int
  maxHeight : Int
  resize : ResizeRules
  deriving DecidableEq, Repr

section Reading

variable (words : Memory) (count : Nat)

/-- `count >= needed && (hints[0] & flag)` -/
def flagged (needed : Nat) (flag : Flag) : Option Bool :=
  if needed ≤ count then (words 0).map fun value => value &&& flag.mask ≠ 0 else some false

/-- `hints[i]` behind such a condition -/
def flaggedWord (needed : Nat) (flag : Flag) (i : Nat) : Option (Option (BitVec 32)) := do
  if ← flagged words count needed flag then
    let value ← words i
    return some value
  else return none

/-- The smallest size that the hints name. -/
def axisMinimum (axis : Fin 2) : Option Int := do
  match ← flaggedWord words count 7 .minSize (5 + axis) with
  | some value => return if value > 0 ∧ value ≤ 16384#32 then value.toInt else 1
  | none => return 1

/-- The largest size that the hints name. -/
def axisMaximum (axis : Fin 2) : Option Int := do
  match ← flaggedWord words count 9 .maxSize (7 + axis) with
  | some value =>
    return if value > 0 ∧ value ≤ 2147483647#32 then (if value < 16384#32 then value.toInt else 16384) else 16384
  | none => return 16384

/-- The base size that the hints name. -/
def axisBase (axis : Fin 2) : Option (Option Int) := do
  match ← flaggedWord words count 17 .baseSize (15 + axis) with
  | some value => return if value ≤ 16384#32 then some value.toInt else none
  | none => return none

def axisIncrement (axis : Fin 2) : Option Int := do
  match ← flaggedWord words count 11 .resizeInc (9 + axis) with
  | some value => return if value > 0 ∧ value ≤ 16384#32 then value.toInt else 1
  | none => return 1

/-- A turn of the loop of `lorieWindowSizeHints`: base, aspect base, smallest size and increment. -/
def sizeHintsAxis (minimum maximum : Int) (axis : Fin 2) : Option (Int × Int × Int × Int) := do
  let increment ← axisIncrement words count axis
  match ← axisBase words count axis with
  | some base =>
    let given ← flagged words count 17 .minSize
    return (base, base, if !given ∧ base > 0 ∧ base ≤ maximum then base else minimum, increment)
  | none =>
    let given ← flagged words count 7 .minSize
    return (if given then minimum else 0, 0, minimum, increment)

/-- `hints[11]` to `hints[14]`, if they are valid -/
def aspectRatios : Option (Int × Int × Int × Int) := do
  if ← flagged words count 15 .aspect then
    let minX ← words 11
    let minY ← words 12
    let maxX ← words 13
    let maxY ← words 14
    let valid (value : BitVec 32) : Bool := value > 0 && value ≤ 2147483647#32
    return if valid minX ∧ valid minY ∧ valid maxX ∧ valid maxY ∧
        minX.setWidth 64 * maxY.setWidth 64 ≤ maxX.setWidth 64 * minY.setWidth 64 then
      (minX.toInt, minY.toInt, maxX.toInt, maxY.toInt)
    else (0, 0, 0, 0)
  else return (0, 0, 0, 0)

end Reading

section Hints

variable (hints : Option Memory) (count : Nat)

/-- The limits that `lorieWindowSizeAxis` derives. -/
def axisLimits (axis : Fin 2) : Option (Int × Int) :=
  match hints with
  | none => some (1, 16384)
  | some words => do
    let minimum ← axisMinimum words count axis
    let maximum ← axisMaximum words count axis
    return if maximum < minimum then (1, 16384) else (minimum, maximum)

/-- `lorieWindowSizeAxis` -/
def lorieWindowSizeAxis (requested : Int) (axis : Fin 2) : Option Int := do
  let (minimum, maximum) ← axisLimits hints count axis
  return if requested < minimum then minimum else if requested > maximum then maximum else requested

/-- `lorieWindowSizeHints` -/
def lorieWindowSizeHints : Option WindowConstraints := do
  let minWidth ← lorieWindowSizeAxis hints count 1 0
  let minHeight ← lorieWindowSizeAxis hints count 1 1
  let maxWidth ← lorieWindowSizeAxis hints count 2147483647 0
  let maxHeight ← lorieWindowSizeAxis hints count 2147483647 1
  match hints, count with
  | none, _ | _, 0 => return ⟨minWidth, minHeight, maxWidth, maxHeight, ⟨0, 0, 0, 0, 0, 0, 0, 0, 0, 0⟩⟩
  | some words, count =>
    let (baseWidth, aspectBaseWidth, minWidth, widthIncrement) ← sizeHintsAxis words count minWidth maxWidth 0
    let (baseHeight, aspectBaseHeight, minHeight, heightIncrement) ← sizeHintsAxis words count minHeight maxHeight 1
    let (minAspectX, minAspectY, maxAspectX, maxAspectY) ← aspectRatios words count
    return ⟨minWidth, minHeight, maxWidth, maxHeight,
      ⟨baseWidth, baseHeight, widthIncrement, heightIncrement, minAspectX, minAspectY, maxAspectX, maxAspectY,
        aspectBaseWidth, aspectBaseHeight⟩⟩

end Hints

/-! ## The memory against the list -/

/-- The memory holds the words of a property. -/
def Holds (words : Memory) (data : List (BitVec 32)) : Prop := ∀ i (h : i < data.length), words i = some data[i]

section Comparison

variable {words : Memory} {data : List (BitVec 32)}

/-- The values of the words -/
def values (data : List (BitVec 32)) : List Nat := data.map BitVec.toNat

theorem values_length (data : List (BitVec 32)) : (values data).length = data.length := List.length_map _

theorem hint_values {i : Nat} (h : i < data.length) : hint (values data) i = data[i].toNat := by
  unfold hint values
  rw [List.getD_eq_getElem?_getD, List.getElem?_map, List.getElem?_eq_getElem h]
  rfl

/-- A small word keeps its value as an `int`. -/
theorem toInt_of_le {value : BitVec 32} (h : value.toNat ≤ 2147483647) : value.toInt = value.toNat := by
  refine BitVec.toInt_eq_toNat_of_lt ?_
  omega

theorem mask_ne_zero (value : BitVec 32) (flag : Flag) :
    value &&& flag.mask ≠ 0 ↔ value.toNat.testBit flag.bit = true := by
  have hbit : flag.bit < 32 := by cases flag <;> decide
  have hmask : flag.mask = BitVec.twoPow 32 flag.bit := by cases flag <;> rfl
  rw [hmask, BitVec.and_twoPow, BitVec.testBit_toNat]
  cases value.getLsbD flag.bit with
  | false => simp
  | true =>
    simp only [if_true, ne_eq, iff_true]
    cases flag <;> decide

/-- A flag is only read where there is a word. -/
theorem flagged_eq (h : Holds words data) (flag : Flag) (bit : Nat) (hbit : flag.bit = bit) {needed : Nat}
    (hn : 0 < needed) :
    flagged words data.length needed flag =
      some (decide ((values data).length ≥ needed ∧ hintFlag (values data) bit = true)) := by
  subst hbit
  unfold flagged
  rw [values_length]
  by_cases hlen : needed ≤ data.length
  · have hzero : 0 < data.length := by omega
    rw [if_pos hlen, h 0 hzero, Option.map_some]
    unfold hintFlag
    rw [hint_values hzero]
    simp only [mask_ne_zero, hlen, true_and]
  · rw [if_neg hlen]
    simp [hlen]

/-- A word behind a flag: it is there and named by the list, or neither is the case. -/
theorem flaggedWord_cases (h : Holds words data) (flag : Flag) (bit : Nat) (hbit : flag.bit = bit)
    {needed i : Nat} (hi : i < needed) :
    (¬((values data).length ≥ needed ∧ hintFlag (values data) bit = true) ∧
        flaggedWord words data.length needed flag i = some none) ∨
      (((values data).length ≥ needed ∧ hintFlag (values data) bit = true) ∧
        ∃ value : BitVec 32, hint (values data) i = value.toNat ∧
          flaggedWord words data.length needed flag i = some (some value)) := by
  unfold flaggedWord
  rw [flagged_eq h flag bit hbit (by omega)]
  by_cases hg : (values data).length ≥ needed ∧ hintFlag (values data) bit = true
  · have hlen : i < data.length := by
      rw [← values_length data]
      omega
    refine .inr ⟨hg, data[i], hint_values hlen, ?_⟩
    simp [hg, h i hlen]
  · exact .inl ⟨hg, by simp [hg]⟩

/-- A positive word within a bound, as an `int`. -/
theorem int_of_word {value : BitVec 32} {bound : BitVec 32} (hb : bound.toNat ≤ 2147483647) (other : Nat) :
    (if value > 0 ∧ value ≤ bound then value.toInt else (other : Int)) =
      ((if value.toNat > 0 ∧ value.toNat ≤ bound.toNat then value.toNat else other : Nat) : Int) := by
  by_cases hv : value.toNat > 0 ∧ value.toNat ≤ bound.toNat
  · rw [if_pos hv, if_pos ⟨BitVec.lt_def.2 hv.1, BitVec.le_def.2 hv.2⟩]
    exact toInt_of_le (by omega)
  · rw [if_neg hv, if_neg]
    rintro ⟨hpos, hle⟩
    exact hv ⟨BitVec.lt_def.1 hpos, BitVec.le_def.1 hle⟩

theorem axisMinimum_eq (h : Holds words data) (axis : Fin 2) :
    axisMinimum words data.length axis =
      some ((if (values data).length ≥ 7 ∧ hintFlag (values data) 4 then
        if hint (values data) (5 + axis) > 0 ∧ hint (values data) (5 + axis) ≤ sizeLimit then hint (values data) (5 + axis)
        else 1
      else 1 : Nat) : Int) := by
  unfold axisMinimum
  obtain ⟨hg, hw⟩ | ⟨hg, value, hv, hw⟩ :=
    flaggedWord_cases h .minSize 4 rfl (show 5 + axis.val < 7 by omega)
  · rw [hw, if_neg hg]
    rfl
  · rw [hw, if_pos hg, hv]
    exact congrArg some (int_of_word (by decide) 1)

theorem axisIncrement_eq (h : Holds words data) (axis : Fin 2) :
    axisIncrement words data.length axis =
      some ((if (values data).length ≥ 11 ∧ hintFlag (values data) 6 ∧ hint (values data) (9 + axis) > 0 ∧
          hint (values data) (9 + axis) ≤ sizeLimit then hint (values data) (9 + axis)
      else 1 : Nat) : Int) := by
  unfold axisIncrement
  obtain ⟨hg, hw⟩ | ⟨hg, value, hv, hw⟩ :=
    flaggedWord_cases h .resizeInc 6 rfl (show 9 + axis.val < 11 by omega)
  · rw [hw, if_neg fun hc => hg ⟨hc.1, hc.2.1⟩]
    rfl
  · rw [hw, hv]
    simp only [hg, true_and]
    exact congrArg some (@int_of_word value 16384#32 (by decide) 1)

theorem axisMaximum_eq (h : Holds words data) (axis : Fin 2) :
    axisMaximum words data.length axis =
      some ((if (values data).length ≥ 9 ∧ hintFlag (values data) 5 then
        if hint (values data) (7 + axis) > 0 ∧ hint (values data) (7 + axis) ≤ 2147483647 then
          min (hint (values data) (7 + axis)) sizeLimit
        else sizeLimit
      else sizeLimit : Nat) : Int) := by
  unfold axisMaximum
  obtain ⟨hg, hw⟩ | ⟨hg, value, hv, hw⟩ :=
    flaggedWord_cases h .maxSize 5 rfl (show 7 + axis.val < 9 by omega)
  · rw [hw, if_neg hg]
    rfl
  · rw [hw, if_pos hg, hv]
    refine congrArg some ?_
    by_cases hin : value.toNat > 0 ∧ value.toNat ≤ 2147483647
    · rw [if_pos hin, if_pos ⟨BitVec.lt_def.2 hin.1, BitVec.le_def.2 hin.2⟩, toInt_of_le hin.2]
      unfold sizeLimit
      by_cases hlt : value.toNat < 16384
      · rw [if_pos (BitVec.lt_def.2 hlt), Nat.min_eq_left hlt.le]
      · rw [if_neg fun hc => hlt (BitVec.lt_def.1 hc), Nat.min_eq_right (Nat.le_of_not_lt hlt)]
        rfl
    · have hout : ¬(value > 0 ∧ value ≤ 2147483647#32) := by
        rintro ⟨hpos, hle⟩
        exact hin ⟨BitVec.lt_def.1 hpos, BitVec.le_def.1 hle⟩
      rw [if_neg hin, if_neg hout]
      rfl

/-- The limits that the memory gives are those of the list. -/
theorem axisLimits_eq (h : Holds words data) (axis : Fin 2) :
    axisLimits (some words) data.length axis =
      some (((sizeBounds (values data) axis).1 : Int), ((sizeBounds (values data) axis).2 : Int)) := by
  unfold axisLimits sizeBounds
  simp only [axisMinimum_eq h, axisMaximum_eq h, Option.bind_eq_bind, Option.bind_some, Option.pure_def, Nat.cast_lt]
  generalize (if (values data).length ≥ 7 ∧ hintFlag (values data) 4 then _ else 1 : Nat) = minimum
  generalize (if (values data).length ≥ 9 ∧ hintFlag (values data) 5 then _ else sizeLimit : Nat) = maximum
  by_cases hlt : maximum < minimum
  · rw [if_pos hlt, if_pos hlt]
    rfl
  · rw [if_neg hlt, if_neg hlt]

/-- A size that is asked for is clamped to the limits of its axis. -/
theorem sizeAxis_of_limits {hints : Option Memory} {count : Nat} {axis : Fin 2} {minimum maximum : Int}
    (hle : minimum ≤ maximum) (hlimits : axisLimits hints count axis = some (minimum, maximum)) (requested : Int) :
    lorieWindowSizeAxis hints count requested axis = some (max minimum (min requested maximum)) := by
  unfold lorieWindowSizeAxis
  rw [hlimits]
  refine congrArg some ?_
  split
  · omega
  · split <;> omega

theorem sizeAxis_eq (h : Holds words data) (axis : Fin 2) (requested : Int) :
    lorieWindowSizeAxis (some words) data.length requested axis =
      some (max ((sizeBounds (values data) axis).1 : Int) (min requested (sizeBounds (values data) axis).2)) := by
  obtain ⟨-, hle, -⟩ := sizeBounds_le (values data) axis
  exact sizeAxis_of_limits (by omega) (axisLimits_eq h axis) requested

theorem axisBase_eq (h : Holds words data) (axis : Fin 2) :
    axisBase words data.length axis =
      some (if (values data).length ≥ 17 ∧ hintFlag (values data) 8 ∧ hint (values data) (15 + axis) ≤ sizeLimit then
        some ((hint (values data) (15 + axis) : Nat) : Int)
      else none) := by
  unfold axisBase
  obtain ⟨hg, hw⟩ | ⟨hg, value, hv, hw⟩ := flaggedWord_cases h .baseSize 8 rfl (show 15 + axis.val < 17 by omega)
  · rw [hw, if_neg fun hc => hg ⟨hc.1, hc.2.1⟩]
    rfl
  · rw [hw, hv]
    simp only [hg, true_and]
    refine congrArg some ?_
    by_cases hle : value.toNat ≤ sizeLimit
    · have hint : value.toInt = value.toNat := toInt_of_le (hle.trans (by decide))
      rw [if_pos hle, if_pos (BitVec.le_def.2 hle), hint]
    · rw [if_neg hle, if_neg fun hc => hle (BitVec.le_def.1 hc)]

/-- A turn of the loop, as the list has it -/
theorem sizeHintsAxis_eq (h : Holds words data) (axis : Fin 2) :
    sizeHintsAxis words data.length (Windows.lorieWindowSizeAxis (values data) 1 axis : Nat)
        (Windows.lorieWindowSizeAxis (values data) 2147483647 axis : Nat) axis =
      some (((Windows.sizeHintsAxis (values data) axis).base : Int),
        ((Windows.sizeHintsAxis (values data) axis).aspectBase : Int),
        ((Windows.sizeHintsAxis (values data) axis).minimum : Int),
        ((Windows.sizeHintsAxis (values data) axis).increment : Int)) := by
  unfold sizeHintsAxis Windows.sizeHintsAxis
  simp only [axisIncrement_eq h, axisBase_eq h, Option.bind_eq_bind, Option.bind_some]
  by_cases hb : (values data).length ≥ 17 ∧ hintFlag (values data) 8 ∧ hint (values data) (15 + axis) ≤ sizeLimit
  · rw [if_pos hb, if_pos hb]
    simp only [flagged_eq h .minSize 4 rfl (show 0 < 17 by omega), Option.bind_some, hb.1, true_and,
      Bool.decide_eq_true, gt_iff_lt, Int.natCast_pos, Nat.cast_le, Nat.cast_ite, Option.pure_def]
  · rw [if_neg hb, if_neg hb]
    simp only [flagged_eq h .minSize 4 rfl (show 0 < 7 by omega), Option.bind_some, decide_eq_true_eq]
    by_cases hm : (values data).length ≥ 7 ∧ hintFlag (values data) 4 = true
    · rw [if_pos hm, if_pos hm]
      rfl
    · rw [if_neg hm, if_neg hm]
      rfl

/-- The products of two words in 64 bits are exact. -/
theorem product_le (a b c d : BitVec 32) :
    a.setWidth 64 * b.setWidth 64 ≤ c.setWidth 64 * d.setWidth 64 ↔ a.toNat * b.toNat ≤ c.toNat * d.toNat := by
  have hwide : ∀ x : BitVec 32, (x.setWidth 64).toNat = x.toNat := by
    intro x
    rw [BitVec.toNat_setWidth]
    exact Nat.mod_eq_of_lt (x.isLt.trans (by decide))
  have hexact : ∀ x y : BitVec 32, (x.setWidth 64 * y.setWidth 64).toNat = x.toNat * y.toNat := by
    intro x y
    have hxy : x.toNat * y.toNat < 2 ^ 64 := by
      calc x.toNat * y.toNat < 2 ^ 32 * 2 ^ 32 := Nat.mul_lt_mul'' x.isLt y.isLt
        _ = 2 ^ 64 := (Nat.pow_add 2 32 32).symm
    rw [BitVec.toNat_mul, hwide, hwide, Nat.mod_eq_of_lt hxy]
  rw [BitVec.le_def, hexact, hexact]

theorem aspectRatios_eq (h : Holds words data) :
    aspectRatios words data.length =
      some (if aspectValid (values data) then
        ((hint (values data) 11 : Int), (hint (values data) 12 : Int), (hint (values data) 13 : Int),
          (hint (values data) 14 : Int))
      else (0, 0, 0, 0)) := by
  unfold aspectRatios aspectValid
  rw [flagged_eq h .aspect 7 rfl (by omega)]
  by_cases hg : (values data).length ≥ 15 ∧ hintFlag (values data) 7 = true
  · have hlen : 15 ≤ data.length := by
      rw [← values_length data]
      exact hg.1
    have h11 := h 11 (by omega)
    have v11 := @hint_values data 11 (by omega)
    have h12 := h 12 (by omega)
    have v12 := @hint_values data 12 (by omega)
    have h13 := h 13 (by omega)
    have v13 := @hint_values data 13 (by omega)
    have h14 := h 14 (by omega)
    have v14 := @hint_values data 14 (by omega)
    simp only [hg, h11, h12, h13, h14, v11, v12, v13, v14, Option.bind_eq_bind, Option.bind_some, decide_true,
      and_self, if_true, Bool.true_and, List.all_cons, List.all_nil, Bool.and_true, product_le, gt_iff_lt,
      Bool.and_eq_true, decide_eq_true_eq, and_assoc, BitVec.lt_def]
    simp only [BitVec.le_def, BitVec.ofNat_eq_ofNat, BitVec.reduceToNat]
    refine congrArg some ?_
    split
    · rename_i hv
      obtain ⟨-, l11, -, l12, -, l13, -, l14, -⟩ := hv
      rw [toInt_of_le l11, toInt_of_le l12, toInt_of_le l13, toInt_of_le l14]
    · rfl
  · have hfalse : (decide ((values data).length ≥ 15) && hintFlag (values data) 7) = false := by
      rw [Bool.eq_false_iff]
      intro hc
      rw [Bool.and_eq_true, decide_eq_true_eq] at hc
      exact hg hc
    simp only [hg, hfalse, Bool.false_and, decide_false, Option.bind_eq_bind, Option.bind_some, Bool.false_eq_true,
      if_false, Option.pure_def]

/-- The result over the list, as sizes -/
def ofList (c : Windows.WindowConstraints) : WindowConstraints where
  minWidth := c.minWidth
  minHeight := c.minHeight
  maxWidth := c.maxWidth
  maxHeight := c.maxHeight
  resize :=
    { baseWidth := c.resize.baseWidth
      baseHeight := c.resize.baseHeight
      widthIncrement := c.resize.widthIncrement
      heightIncrement := c.resize.heightIncrement
      minAspectX := c.resize.minAspectX
      minAspectY := c.resize.minAspectY
      maxAspectX := c.resize.maxAspectX
      maxAspectY := c.resize.maxAspectY
      aspectBaseWidth := c.resize.aspectBaseWidth
      aspectBaseHeight := c.resize.aspectBaseHeight }

theorem sizeAxis_limits (h : Holds words data) (axis : Fin 2) :
    lorieWindowSizeAxis (some words) data.length 1 axis =
        some ((Windows.lorieWindowSizeAxis (values data) 1 axis : Nat) : Int) ∧
      lorieWindowSizeAxis (some words) data.length 2147483647 axis =
        some ((Windows.lorieWindowSizeAxis (values data) 2147483647 axis : Nat) : Int) := by
  obtain ⟨hone, hle, hlimit⟩ := sizeBounds_le (values data) axis
  unfold sizeLimit at hlimit
  rw [sizeAxis_one, sizeAxis_max, sizeAxis_eq h, sizeAxis_eq h]
  exact ⟨congrArg some (by omega), congrArg some (by omega)⟩

/-- **The memory gives what the list gives.** -/
theorem sizeHints_eq (h : Holds words data) :
    lorieWindowSizeHints (some words) data.length = some (ofList (Windows.lorieWindowSizeHints (values data))) := by
  unfold lorieWindowSizeHints
  simp only [sizeAxis_limits h, Option.bind_eq_bind, Option.bind_some]
  cases data with
  | nil => rfl
  | cons w ws =>
    have hne : values (w :: ws) ≠ [] := by simp [values]
    have hx := sizeHintsAxis_eq h 0
    have hy := sizeHintsAxis_eq h 1
    have ha := aspectRatios_eq h
    unfold Windows.lorieWindowSizeHints
    rw [if_neg hne]
    simp only [List.length_cons] at hx hy ha ⊢
    simp only [hx, hy, ha, Option.bind_some, Option.pure_def]
    refine congrArg some ?_
    unfold ofList
    cases aspectValid (values (w :: ws)) with
    | true => rfl
    | false => rfl

end Comparison

/-! ## Usable constraints -/

/-- Constraints that a window can be given. -/
structure Usable (r : WindowConstraints) : Prop where
  width : 1 ≤ r.minWidth ∧ r.minWidth ≤ r.maxWidth ∧ r.maxWidth ≤ 16384
  height : 1 ≤ r.minHeight ∧ r.minHeight ≤ r.maxHeight ∧ r.maxHeight ≤ 16384
  baseWidth : 0 ≤ r.resize.baseWidth ∧ r.resize.baseWidth ≤ 16384
  baseHeight : 0 ≤ r.resize.baseHeight ∧ r.resize.baseHeight ≤ 16384
  aspectBaseWidth : 0 ≤ r.resize.aspectBaseWidth ∧ r.resize.aspectBaseWidth ≤ 16384
  aspectBaseHeight : 0 ≤ r.resize.aspectBaseHeight ∧ r.resize.aspectBaseHeight ≤ 16384
  widthIncrement : 0 ≤ r.resize.widthIncrement ∧ r.resize.widthIncrement ≤ 16384
  heightIncrement : 0 ≤ r.resize.heightIncrement ∧ r.resize.heightIncrement ≤ 16384
  /-- No aspect ratios, or two positive ones in order -/
  aspect :
    (r.resize.minAspectX = 0 ∧ r.resize.minAspectY = 0 ∧ r.resize.maxAspectX = 0 ∧ r.resize.maxAspectY = 0) ∨
      (0 < r.resize.minAspectX ∧ 0 < r.resize.minAspectY ∧ 0 < r.resize.maxAspectX ∧ 0 < r.resize.maxAspectY ∧
        (r.resize.minAspectX : ℚ) / r.resize.minAspectY ≤ (r.resize.maxAspectX : ℚ) / r.resize.maxAspectY)

/-- Ratios are in order when the products across them are. -/
theorem ratio_le {a b c d : Nat} (hb : 0 < b) (hd : 0 < d) (h : a * d ≤ c * b) :
    (((a : Int) : ℚ)) / ((b : Int) : ℚ) ≤ ((c : Int) : ℚ) / ((d : Int) : ℚ) := by
  have hb' : (0 : ℚ) < ((b : Int) : ℚ) := by exact_mod_cast hb
  have hd' : (0 : ℚ) < ((d : Int) : ℚ) := by exact_mod_cast hd
  rw [div_le_div_iff₀ hb' hd']
  exact_mod_cast h

/-- The constraints over any list are usable. -/
theorem usable_ofList (hints : List Nat) : Usable (ofList (Windows.lorieWindowSizeHints hints)) := by
  obtain ⟨mx, lx, bx, ax, ix⟩ := sizeHintsAxis_usable hints 0
  obtain ⟨my, ly, bY, ay, iy⟩ := sizeHintsAxis_usable hints 1
  obtain ⟨px, qx, sx⟩ := sizeBounds_le hints 0
  obtain ⟨py, qy, sy⟩ := sizeBounds_le hints 1
  unfold Windows.lorieWindowSizeHints
  rw [sizeAxis_max] at lx ly
  unfold sizeLimit at *
  split
  · constructor <;> simp only [ofList, sizeAxis_one, sizeAxis_max] <;> omega
  · constructor <;> simp only [ofList, sizeAxis_max] <;> try omega
    -- the aspect ratios
    cases hv : aspectValid hints with
    | false => exact .inl ⟨rfl, rfl, rfl, rfl⟩
    | true =>
      obtain ⟨h11, h12, h13, h14, hle⟩ := aspect_usable hints hv
      refine .inr ⟨?_, ?_, ?_, ?_, ratio_le h12 h14 hle⟩
      · exact_mod_cast h11
      · exact_mod_cast h12
      · exact_mod_cast h13
      · exact_mod_cast h14

/-- What the hints of a window give is usable. -/
theorem usable_constraints (atom : Name → Nat) (w : Window) : Usable (ofList (lorieWindowConstraints atom w)) := by
  unfold lorieWindowConstraints
  split
  · exact usable_ofList _
  · exact usable_ofList _

/-- Two pointers that cannot be told apart by reading words below `count`, all of which can be read. -/
def Agree (count : Nat) : Option Memory → Option Memory → Prop
  | none, none => True
  | some words, some words' => ∀ i < count, (words i).isSome ∧ words' i = words i
  | _, _ => False

/-- What stands below `count` is a list of words, for every pointer that agrees. -/
theorem agree_holds (count : Nat) (words : Memory) :
    ∃ data : List (BitVec 32), data.length = count ∧
      ∀ words', Agree count (some words) (some words') → Holds words' data := by
  refine ⟨(List.range count).map fun i => (words i).getD 0, by simp, ?_⟩
  intro words' h' i hi
  have hcount : i < count := by simpa using hi
  obtain ⟨hsome, heq⟩ := h' i hcount
  obtain ⟨value, hvalue⟩ := Option.isSome_iff_exists.1 hsome
  simp [heq, hvalue]

/-- **Size hints always decode to usable constraints**: the functions read the words below `count` alone, the constraints are
usable, and a size that is asked for is clamped to the limits of its axis. -/
theorem size_hints_usable (hints : Option Memory) (count : Nat) (h : Agree count hints hints) :
    ∃ r, (∀ hints', Agree count hints hints' → lorieWindowSizeHints hints' count = some r) ∧ Usable r ∧
      ∀ axis, ∃ minimum maximum : Int, 1 ≤ minimum ∧ minimum ≤ maximum ∧ maximum ≤ 16384 ∧
        ∀ hints', Agree count hints hints' → axisLimits hints' count axis = some (minimum, maximum) ∧
          ∀ requested, lorieWindowSizeAxis hints' count requested axis = some (max minimum (min requested maximum)) ∧
            lorieWindowSizeAxis hints' count (max minimum (min requested maximum)) axis =
              some (max minimum (min requested maximum)) := by
  have hclamp : ∀ (hints' : Option Memory) (axis : Fin 2) (minimum maximum requested : Int), minimum ≤ maximum →
      axisLimits hints' count axis = some (minimum, maximum) →
      lorieWindowSizeAxis hints' count requested axis = some (max minimum (min requested maximum)) ∧
        lorieWindowSizeAxis hints' count (max minimum (min requested maximum)) axis =
          some (max minimum (min requested maximum)) := by
    intro hints' axis minimum maximum requested hle hlimits
    rw [sizeAxis_of_limits hle hlimits, sizeAxis_of_limits hle hlimits]
    exact ⟨rfl, congrArg some (by omega)⟩
  cases hints with
  | none =>
    refine ⟨ofList (Windows.lorieWindowSizeHints []), ?_, usable_ofList [], ?_⟩
    · intro hints' h'
      cases hints' with
      | none => rfl
      | some words => exact h'.elim
    · intro axis
      refine ⟨1, 16384, le_rfl, by omega, le_rfl, ?_⟩
      intro hints' h'
      cases hints' with
      | none => exact ⟨rfl, fun requested => hclamp _ _ _ _ _ (by omega) rfl⟩
      | some words => exact h'.elim
  | some words =>
    obtain ⟨data, rfl, hholds⟩ := agree_holds count words
    refine ⟨ofList (Windows.lorieWindowSizeHints (values data)), ?_, usable_ofList _, ?_⟩
    · intro hints' h'
      cases hints' with
      | none => exact h'.elim
      | some words' => exact sizeHints_eq (hholds words' h')
    · intro axis
      obtain ⟨hone, hle, hlimit⟩ := sizeBounds_le (values data) axis
      unfold sizeLimit at hlimit
      refine ⟨(sizeBounds (values data) axis).1, (sizeBounds (values data) axis).2, by omega, by omega, by omega, ?_⟩
      intro hints' h'
      cases hints' with
      | none => exact h'.elim
      | some words' =>
        have hlimits := axisLimits_eq (hholds words' h') axis
        exact ⟨hlimits, fun requested => hclamp _ _ _ _ _ (by omega) hlimits⟩

/-- Hints with a minimum of 20 by 30 and nothing behind it -/
theorem size_hints_usable_minimum :
    ∃ r, (∀ hints', Agree 7 (some fun i => [16#32, 0, 0, 0, 0, 20, 30][i]?) hints' →
        lorieWindowSizeHints hints' 7 = some r) ∧ Usable r ∧
      ∀ axis, ∃ minimum maximum : Int, 1 ≤ minimum ∧ minimum ≤ maximum ∧ maximum ≤ 16384 ∧
        ∀ hints', Agree 7 (some fun i => [16#32, 0, 0, 0, 0, 20, 30][i]?) hints' →
          axisLimits hints' 7 axis = some (minimum, maximum) ∧
          ∀ requested, lorieWindowSizeAxis hints' 7 requested axis = some (max minimum (min requested maximum)) ∧
            lorieWindowSizeAxis hints' 7 (max minimum (min requested maximum)) axis =
              some (max minimum (min requested maximum)) :=
  size_hints_usable _ 7 fun i hi => ⟨by simpa using hi, rfl⟩

end SizeHints

end Lorie.Windows
