import Mathlib.Data.List.Basic

/-!
# Loops that write into an array

A step paints a set of positions if it gives each of them its own value and leaves the others as they are. A write that is
out of bounds fails, so that a step that paints is in bounds.

- `write`: one checked write, and `paints_write`;
- `paints_foldlM`: a loop paints what its steps paint.
-/

namespace Lorie.Lib

variable {α β : Type*}

/-- `array[i] = a`, if there is such an element. -/
def write (array : List α) (i : Nat) (a : α) : Option (List α) :=
  if i < array.length then some (array.set i a) else none

/-- On arrays of `n` elements, the step gives the positions in `S` the values of `v` and keeps the others. -/
def Paints (n : Nat) (v : Nat → α) (S : Nat → Prop) (step : List α → Option (List α)) : Prop :=
  ∀ array, array.length = n → ∃ painted, step array = some painted ∧ painted.length = n ∧
    (∀ i, S i → painted[i]? = some (v i)) ∧ ∀ i, ¬S i → painted[i]? = array[i]?

theorem paints_write {n i : Nat} {v : Nat → α} (hi : i < n) : Paints n v (· = i) fun array => write array i (v i) := by
  intro array hn
  refine ⟨array.set i (v i), if_pos (hn ▸ hi), by rw [List.length_set, hn], ?_, ?_⟩
  · rintro j rfl
    exact List.getElem?_set_self (hn ▸ hi)
  · intro j hj
    exact List.getElem?_set_ne fun e => hj e.symm

/-- **A loop paints what its steps paint.** -/
theorem paints_foldlM {n : Nat} {v : Nat → α} {S : β → Nat → Prop} {step : β → List α → Option (List α)} {l : List β}
    (h : ∀ b ∈ l, Paints n v (S b) (step b)) :
    Paints n v (fun i => ∃ b ∈ l, S b i) fun array => l.foldlM (fun array b => step b array) array := by
  classical
  induction l with
  | nil =>
    intro array hn
    refine ⟨array, rfl, hn, fun i hi => ?_, fun i _ => rfl⟩
    obtain ⟨b, hb, -⟩ := hi
    cases hb
  | cons b l ih =>
    intro array hn
    obtain ⟨first, hfirst, hlength, hin, hout⟩ := h b List.mem_cons_self array hn
    obtain ⟨painted, hpainted, hn', hin', hout'⟩ := ih (fun c hc => h c (List.mem_cons_of_mem _ hc)) first hlength
    refine ⟨painted, ?_, hn', ?_, ?_⟩
    · dsimp only at hpainted ⊢
      rw [List.foldlM_cons, hfirst]
      exact hpainted
    · rintro i ⟨c, hc, hi⟩
      -- a later step may have painted it again, with the same value
      by_cases hlater : ∃ c ∈ l, S c i
      · exact hin' i hlater
      · rcases List.mem_cons.1 hc with rfl | hc
        · rw [hout' i hlater, hin i hi]
        · exact absurd ⟨c, hc, hi⟩ hlater
    · intro i hi
      rw [hout' i fun ⟨c, hc, hci⟩ => hi ⟨c, List.mem_cons_of_mem _ hc, hci⟩, hout i fun hbi => hi ⟨b, List.mem_cons_self, hbi⟩]

end Lorie.Lib
