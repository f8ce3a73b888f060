import Mathlib.Algebra.Group.Nat.Defs
import Mathlib.Data.List.Basic
import Mathlib.Order.Nat

/-!
# Numbers of a machine

Numbers of a machine as natural numbers.

- `unsigned`, `signed`, `minus`, `quotient`: checked operations. One whose result is not in its type, or a division by zero, is
  `none`, so that a computation with a result is the one of the machine and has no wrap in it;
- `scale`: a value out of `m` steps brought to the nearest one out of `n` steps, as colours are multiplied by their alpha and
  divided by it again. Onto more steps and back is the value itself (`scale_scale`); a value in its range stays in it
  (`scale_le`), one above it reaches the end of the other range (`le_scale`);
- `littleEndian`: the lowest bytes of a number, the lowest first; `ofLittleEndian` reads a number back, and `field` reads one at
  a place of a record.
-/

namespace Lorie.Lib

/-! ## Checked arithmetic -/

/-- A number in an unsigned type of so many bits. -/
def unsigned (bits n : Nat) : Option Nat := if n < 2 ^ bits then some n else none

/-- A number in a signed type of so many bits. -/
def signed (bits n : Nat) : Option Nat := if n < 2 ^ (bits - 1) then some n else none

/-- A difference in an unsigned type -/
def minus (a b : Nat) : Option Nat := if b ≤ a then some (a - b) else none

/-- `a / b` -/
def quotient (a b : Nat) : Option Nat := if b = 0 then none else some (a / b)

theorem unsigned_eq {bits n : Nat} (h : n < 2 ^ bits) : unsigned bits n = some n := if_pos h

theorem signed_eq {bits n : Nat} (h : n < 2 ^ (bits - 1)) : signed bits n = some n := if_pos h

theorem minus_eq {a b : Nat} (h : b ≤ a) : minus a b = some (a - b) := if_pos h

theorem quotient_eq {a b : Nat} (h : 0 < b) : quotient a b = some (a / b) := if_neg h.ne'

/-! ## Scaling with rounding -/

section Scaling

/-- The nearest multiple of `1 / n` to `p / m`. -/
def scale (m n p : Nat) : Nat := (p * n + m / 2) / m

variable {m n p : Nat}

theorem scale_self (hm : 0 < m) (p : Nat) : scale m m p = p := by
  unfold scale
  rw [Nat.add_comm, Nat.add_mul_div_right _ _ hm, Nat.div_eq_of_lt (by omega), Nat.zero_add]

/-- The two bounds of the nearest multiple. -/
theorem scale_bounds (hm : 0 < m) (n p : Nat) :
    scale m n p * m ≤ p * n + m / 2 ∧ p * n + m / 2 < scale m n p * m + m := by
  unfold scale
  have hdiv := Nat.div_add_mod (p * n + m / 2) m
  have hmod := Nat.mod_lt (p * n + m / 2) hm
  rw [Nat.mul_comm] at hdiv
  omega

/-- **Onto more steps and back** is the value itself. -/
theorem scale_scale (hm : 0 < m) (hmn : m ≤ n) (p : Nat) : scale n m (scale m n p) = p := by
  obtain ⟨hle, hlt⟩ := scale_bounds hm n p
  rcases Nat.eq_or_lt_of_le hmn with rfl | hmn
  · rw [scale_self hm, scale_self hm]
  · apply Nat.div_eq_of_lt_le
    · omega
    · rw [Nat.add_mul, Nat.one_mul]
      omega

theorem scale_le (hm : 0 < m) (hp : p ≤ m) : scale m n p ≤ n := by
  apply Nat.le_of_lt_succ
  apply Nat.div_lt_of_lt_mul
  have hmul := Nat.mul_le_mul_right n hp
  rw [Nat.succ_eq_add_one, Nat.mul_add, Nat.mul_one]
  omega

theorem le_scale (hm : 0 < m) (hp : m ≤ p) : n ≤ scale m n p := by
  unfold scale
  rw [Nat.le_div_iff_mul_le hm, Nat.mul_comm]
  have hmul := Nat.mul_le_mul_right n hp
  omega

end Scaling

/-! ## Bytes -/

/-- The lowest bytes of a number -/
def littleEndian : Nat → Nat → List UInt8
  | 0, _ => []
  | width + 1, n => UInt8.ofNat (n % 256) :: littleEndian width (n / 256)

def ofLittleEndian (bytes : List UInt8) : Nat := bytes.foldr (fun b n => b.toNat + 256 * n) 0

@[simp] theorem littleEndian_length (width n : Nat) : (littleEndian width n).length = width := by
  induction width generalizing n with
  | zero => rfl
  | succ width ih => exact congrArg (· + 1) (ih (n / 256))

/-- A number that fits is read back. -/
theorem ofLittleEndian_littleEndian {width n : Nat} (h : n < 256 ^ width) : ofLittleEndian (littleEndian width n) = n := by
  induction width generalizing n with
  | zero =>
    have hn : n = 0 := Nat.lt_one_iff.1 h
    exact hn.symm
  | succ width ih =>
    have hrest : n / 256 < 256 ^ width := Nat.div_lt_of_lt_mul (by rw [Nat.mul_comm]; exact h)
    have hlow : (UInt8.ofNat (n % 256)).toNat = n % 256 :=
      UInt8.toNat_ofNat_of_lt' (Nat.mod_lt n (by decide))
    show (UInt8.ofNat (n % 256)).toNat + 256 * ofLittleEndian (littleEndian width (n / 256)) = n
    rw [hlow, ih hrest]
    exact Nat.mod_add_div n 256

/-- The number in so many bytes at a place -/
def field (bytes : List UInt8) (start width : Nat) : Nat := ofLittleEndian ((bytes.drop start).take width)

end Lorie.Lib
