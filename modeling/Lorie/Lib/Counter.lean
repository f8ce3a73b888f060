import Mathlib.Data.List.Basic
import Mathlib.Data.Nat.ModEq
import Mathlib.Logic.Function.Basic

/-!
# Free-running counters and the slots of a ring

A ring of `c` slots is addressed by 32-bit counters that are never reset: the true counts `R ≤ W` are unbounded, the
machine holds `UInt32.ofNat R` and `UInt32.ofNat W`.

- the machine's distance and equality test are those of the true counts as long as these are less than `2 ^ 32` apart
  (`sub_toNat`, `ofNat_inj`), and the machine's slot is the slot of the true count when `c` divides `2 ^ 32` (`slot`);
- `sizeSub`: the difference of two sizes of 64 bits, which wraps;
- `Intact c slots log R`: every entry of `log` from position `R` on stands in its slot. Filling the next slot keeps it
  while fewer than `c` entries are live (`Intact.fill`), and so do publishing and consuming;
- `fifoStep c`: the queue of at most `c` entries that such a ring implements.
-/

namespace Lorie.Lib

/-! ## Counters -/

theorem ofNat32_succ (n : Nat) : UInt32.ofNat (n + 1) = UInt32.ofNat n + 1 := by
  apply UInt32.toNat_inj.1
  simp

theorem ofNat64_succ (n : Nat) : UInt64.ofNat (n + 1) = UInt64.ofNat n + 1 := by
  apply UInt64.toNat_inj.1
  simp

/-- The machine's distance is the true one. -/
theorem sub_toNat {R W : Nat} (hle : R ≤ W) (hlt : W - R < 2 ^ 32) :
    (UInt32.ofNat W - UInt32.ofNat R).toNat = W - R := by
  rw [UInt32.toNat_sub]
  simp only [UInt32.toNat_ofNat']
  omega

/-- The machine's test for an empty ring is the true one. -/
theorem ofNat_inj {R W : Nat} (hle : R ≤ W) (hlt : W - R < 2 ^ 32) : UInt32.ofNat R = UInt32.ofNat W ↔ R = W := by
  refine ⟨fun h => ?_, fun h => by rw [h]⟩
  have := sub_toNat hle hlt
  rw [h, UInt32.sub_self] at this
  simp at this
  omega

/-- The machine's slot is the slot of the true count, also after a wrap. -/
theorem slot {c : Nat} (hc : c ∣ 2 ^ 32) (n : Nat) : (UInt32.ofNat n).toNat % c = n % c := by
  rw [UInt32.toNat_ofNat', Nat.mod_mod_of_dvd _ hc]

/-- Positions less than `c` apart have different slots. -/
theorem mod_ne {c i j : Nat} (h₁ : i < j) (h₂ : j < i + c) : i % c ≠ j % c := by
  intro h
  have hd : c ∣ j - i := (Nat.modEq_iff_dvd' h₁.le).1 h
  have := Nat.le_of_dvd (by omega) hd
  omega

/-- The difference of two values of `size_t` -/
def sizeSub (a b : Nat) : Nat := (2 ^ 64 + a - b) % 2 ^ 64

theorem sizeSub_eq {a b : Nat} (hle : b ≤ a) (hlt : a < 2 ^ 64) : sizeSub a b = a - b := by
  unfold sizeSub
  rw [Nat.add_sub_assoc hle, Nat.add_mod_left, Nat.mod_eq_of_lt (lt_of_le_of_lt (Nat.sub_le _ _) hlt)]

/-! ## Slots -/

variable {ε : Type*} {c : Nat} {slots : Nat → ε} {log : List ε} {R : Nat} {e : ε}

/-- The entries of `log` from position `R` on stand in their slots. -/
def Intact (c : Nat) (slots : Nat → ε) (log : List ε) (R : Nat) : Prop :=
  ∀ i e, R ≤ i → log[i]? = some e → slots (i % c) = e

theorem Intact.nil : Intact c slots [] R := by
  intro i e _ h
  simp at h

/-- Filling the slot after the log touches no live entry while fewer than `c` of them are live. -/
theorem Intact.fill (h : Intact c slots log R) (hroom : log.length < R + c) :
    Intact c (Function.update slots (log.length % c) e) log R := by
  intro i e' hi he
  have hlt : i < log.length := (List.getElem?_eq_some_iff.1 he).1
  rw [Function.update_of_ne (mod_ne hlt (by omega))]
  exact h i e' hi he

/-- Publishing the entry that stands in the slot after the log. -/
theorem Intact.publish (h : Intact c slots log R) (he : slots (log.length % c) = e) :
    Intact c slots (log ++ [e]) R := by
  intro i e' hi hget
  rcases Nat.lt_or_ge i log.length with hlt | hge
  · rw [List.getElem?_append_left hlt] at hget
    exact h i e' hi hget
  · rw [List.getElem?_append_right hge] at hget
    obtain ⟨hlt, rfl⟩ := List.getElem?_eq_some_iff.1 hget
    have heq : i = log.length := by simp at hlt; omega
    subst heq
    simpa using he

/-- Consuming an entry. -/
theorem Intact.advance (h : Intact c slots log R) : Intact c slots log (R + 1) :=
  fun i e hi he => h i e (by omega) he

/-! ## The bounded FIFO a ring implements -/

/-- The operations of a queue. -/
inductive FifoOp (ε : Type*) where
  | push (e : ε)
  | pop

/-- A queue of at most `c` entries: appending at the back, taking from the front. -/
def fifoStep (c : Nat) (q : List ε) : FifoOp ε → Option (List ε)
  | .push e => if q.length < c then some (q ++ [e]) else none
  | .pop => q.tail?

theorem fifoStep_push {q : List ε} (h : q.length < c) : fifoStep c q (.push e) = some (q ++ [e]) := if_pos h

@[simp]
theorem fifoStep_pop (q : List ε) : fifoStep c (e :: q) .pop = some q := rfl

end Lorie.Lib
