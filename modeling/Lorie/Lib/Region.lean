import Mathlib.Algebra.Order.Group.Int
import Mathlib.Data.List.Basic
import Mathlib.Order.Lattice

/-!
# Points, boxes and regions

Half-open boxes over an ordered type of coordinates, and regions as lists of boxes.

- a region is used through the points it covers (`Covers`), and `inter` covers the common ones (`covers_inter`);
- `paint` writes the points a shape covers; painting a list of shapes writes the points that one of them covers
  (`foldl_paint`).
-/

namespace Lorie.Lib

/-- A point. -/
@[ext]
structure Point (κ : Type*) where
  x : κ
  y : κ
  deriving DecidableEq, Repr

instance {κ : Type*} [Add κ] : Add (Point κ) := ⟨fun p q => ⟨p.x + q.x, p.y + q.y⟩⟩

instance {κ : Type*} [Sub κ] : Sub (Point κ) := ⟨fun p q => ⟨p.x - q.x, p.y - q.y⟩⟩

/-- The points from `(x1, y1)`, included, to `(x2, y2)`, excluded. -/
structure Box (κ : Type*) where
  x1 : κ
  y1 : κ
  x2 : κ
  y2 : κ
  deriving DecidableEq, Repr

section Point

variable {κ : Type*} [AddGroup κ]

@[simp]
theorem Point.add_x (p q : Point κ) : (p + q).x = p.x + q.x := rfl

@[simp]
theorem Point.add_y (p q : Point κ) : (p + q).y = p.y + q.y := rfl

@[simp]
theorem Point.sub_x (p q : Point κ) : (p - q).x = p.x - q.x := rfl

@[simp]
theorem Point.sub_y (p q : Point κ) : (p - q).y = p.y - q.y := rfl

theorem Point.sub_inj (p : Point κ) {q r : Point κ} : p - q = p - r ↔ q = r := by
  constructor
  · intro h
    ext
    · exact sub_right_injective (congrArg Point.x h)
    · exact sub_right_injective (congrArg Point.y h)
  · intro h
    rw [h]

end Point

/-! ## Regions -/

section Region

variable {κ : Type*} [LinearOrder κ]

/-- The points of a box. -/
def Box.Mem (b : Box κ) (p : Point κ) : Prop := b.x1 ≤ p.x ∧ p.x < b.x2 ∧ b.y1 ≤ p.y ∧ p.y < b.y2

instance (b : Box κ) (p : Point κ) : Decidable (b.Mem p) :=
  inferInstanceAs (Decidable (b.x1 ≤ p.x ∧ p.x < b.x2 ∧ b.y1 ≤ p.y ∧ p.y < b.y2))

/-- The common part of two boxes; without a point when they do not meet. -/
def Box.inter (a b : Box κ) : Box κ := ⟨max a.x1 b.x1, max a.y1 b.y1, min a.x2 b.x2, min a.y2 b.y2⟩

theorem Box.mem_inter (a b : Box κ) (p : Point κ) : (a.inter b).Mem p ↔ a.Mem p ∧ b.Mem p := by
  simp only [Box.Mem, Box.inter, max_le_iff, lt_min_iff]
  tauto

/-- The points of a region. -/
def Covers (r : List (Box κ)) (p : Point κ) : Prop := ∃ b ∈ r, b.Mem p

instance (r : List (Box κ)) (p : Point κ) : Decidable (Covers r p) :=
  inferInstanceAs (Decidable (∃ b ∈ r, b.Mem p))

/-- The intersection of two regions, box by box. -/
def inter (r s : List (Box κ)) : List (Box κ) := r.flatMap fun a => s.map a.inter

theorem covers_inter (r s : List (Box κ)) (p : Point κ) : Covers (inter r s) p ↔ Covers r p ∧ Covers s p := by
  simp only [Covers, inter, List.mem_flatMap, List.mem_map]
  constructor
  · rintro ⟨_, ⟨a, ha, b, hb, rfl⟩, hp⟩
    obtain ⟨h₁, h₂⟩ := (a.mem_inter b p).1 hp
    exact ⟨⟨a, ha, h₁⟩, ⟨b, hb, h₂⟩⟩
  · rintro ⟨⟨a, ha, h₁⟩, ⟨b, hb, h₂⟩⟩
    exact ⟨_, ⟨a, ha, b, hb, rfl⟩, (a.mem_inter b p).2 ⟨h₁, h₂⟩⟩

end Region

/-! ## Painting -/

section Paint

variable {ρ π ν : Type*} (covers : ρ → π → Prop) [∀ r p, Decidable (covers r p)]

/-- Write `value` at the points that `r` covers. -/
def paint (value : π → ν) (f : π → ν) (r : ρ) : π → ν := fun p => if covers r p then value p else f p

/-- Painting one shape after the other. -/
theorem foldl_paint (value f : π → ν) (rs : List ρ) (p : π) :
    rs.foldl (paint covers value) f p = if ∃ r ∈ rs, covers r p then value p else f p := by
  induction rs generalizing f with
  | nil => simp
  | cons r rs ih =>
    rw [List.foldl_cons, ih]
    by_cases h : ∃ r ∈ rs, covers r p
    · have h' : ∃ r' ∈ r :: rs, covers r' p := h.imp fun _ h => ⟨List.mem_cons_of_mem _ h.1, h.2⟩
      rw [if_pos h, if_pos h']
    · by_cases hr : covers r p
      · have h' : ∃ r' ∈ r :: rs, covers r' p := ⟨r, List.mem_cons_self, hr⟩
        rw [if_neg h, if_pos h', paint, if_pos hr]
      · have h' : ¬ ∃ r' ∈ r :: rs, covers r' p := by
          rintro ⟨r', hmem, hc⟩
          rcases List.mem_cons.1 hmem with rfl | hmem
          · exact hr hc
          · exact h ⟨r', hmem, hc⟩
        rw [if_neg h, if_neg h', paint, if_neg hr]

end Paint

end Lorie.Lib
