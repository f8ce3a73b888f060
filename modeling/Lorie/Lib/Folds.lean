import Mathlib.Data.List.Nodup
import Mathlib.Data.List.Induction

/-!
# Passes over a list

A pass folds a step over a list. Where the step settles the element that it is at and leaves the others as they are, the pass
settles all of them, and a second pass finds nothing to do.

- `foldl_settles`: the pass settles every element; the step may need a budget, one unit for each element;
- `foldl_skips`, `foldl_only`: a pass that skips its elements, or all but one;
- `moveLast`: an element moves to the end; `foldl_moveLast`: a pass that moves several of them;
- `eq_filter_of_sublist`: a sublist of a list without repetitions is what is left of that list.
-/

namespace Lorie.Lib

/-! ## Passes that settle -/

section Settling

variable {σ α : Type*} {step : σ → α → σ}

/-- What holds with a budget for the list, and is settled, after the pass. -/
theorem foldl_settles (Inv : Nat → σ → Prop) (Settled : σ → α → Prop) {members : List α}
    (h : ∀ n s, ∀ a ∈ members, Inv (n + 1) s → Inv n (step s a) ∧ Settled (step s a) a ∧
      ∀ b ∈ members, b ≠ a → Settled s b → Settled (step s a) b)
    {l : List α} (hl : l ⊆ members) {s : σ} (hs : Inv l.length s) :
    Inv 0 (l.foldl step s) ∧ ∀ b ∈ members, b ∈ l ∨ Settled s b → Settled (l.foldl step s) b := by
  classical
  induction l generalizing s with
  | nil => exact ⟨hs, fun b _ hb => hb.elim (fun h => absurd h List.not_mem_nil) id⟩
  | cons a l ih =>
    obtain ⟨hinv, hself, hothers⟩ := h l.length s a (hl List.mem_cons_self) hs
    obtain ⟨hend, hall⟩ := ih (fun b hb => hl (List.mem_cons_of_mem _ hb)) hinv
    refine ⟨hend, fun b hb hor => hall b hb ?_⟩
    by_cases hba : b = a
    · exact .inr (hba ▸ hself)
    · rcases hor with hmem | hset
      · exact .inl ((List.mem_cons.1 hmem).resolve_left hba)
      · exact .inr (hothers b hb hba hset)

/-- A pass that does nothing. -/
theorem foldl_skips {P : σ → Prop} {l : List α} (h : ∀ s, P s → ∀ a ∈ l, step s a = s) {s : σ} (hs : P s) :
    l.foldl step s = s := by
  induction l with
  | nil => rfl
  | cons a l ih =>
    rw [List.foldl_cons, h s hs a List.mem_cons_self]
    exact ih fun s hs b hb => h s hs b (List.mem_cons_of_mem _ hb)

/-- A pass with one element where it does anything. -/
theorem foldl_only {P : σ → Prop} {l : List α} {o : α} (ho : o ∈ l) (hl : l.Nodup)
    (h : ∀ s, P s → ∀ a ∈ l, a ≠ o → step s a = s) {s : σ} (hs : P s) (hstep : P (step s o)) :
    l.foldl step s = step s o := by
  obtain ⟨before, after, rfl⟩ := List.append_of_mem ho
  rw [List.nodup_middle, List.nodup_cons, List.mem_append] at hl
  have hbefore : before.foldl step s = s := foldl_skips
    (fun s hs a ha => h s hs a (List.mem_append_left _ ha) fun e => hl.1 (.inl (e ▸ ha))) hs
  have hafter : after.foldl step (step s o) = step s o := foldl_skips
    (fun s hs a ha => h s hs a (List.mem_append_right _ (List.mem_cons_of_mem _ ha)) fun e => hl.1 (.inr (e ▸ ha))) hstep
  rw [List.foldl_append, List.foldl_cons, hbefore, hafter]

end Settling

/-! ## Moving elements to the end -/

section Moving

variable {α : Type*} [DecidableEq α]

/-- An element of a list moves to its end. -/
def moveLast (l : List α) (a : α) : List α := l.erase a ++ [a]

/-- Elements that move to the end one after the other are there in this order, behind the others in theirs. -/
theorem foldl_moveLast {l as : List α} (hl : l.Nodup) (has : as.Nodup) (hsub : as ⊆ l) :
    as.foldl moveLast l = l.filter (· ∉ as) ++ as := by
  induction as using List.reverseRecOn with
  | nil => simp
  | append_singleton as a ih =>
    obtain ⟨hnodup, -, hdisjoint⟩ := List.nodup_append'.1 has
    have ha : a ∉ as := fun h => hdisjoint h (List.mem_singleton_self a)
    have hmem : a ∈ l.filter (· ∉ as) :=
      List.mem_filter.2 ⟨hsub (List.mem_append_right _ (List.mem_singleton_self a)), by simpa using ha⟩
    rw [List.foldl_append, List.foldl_cons, List.foldl_nil,
      ih hnodup fun x hx => hsub (List.mem_append_left _ hx), moveLast, List.erase_append_left _ hmem,
      (hl.filter _).erase_eq_filter, List.filter_filter, List.append_assoc]
    congr 1
    refine List.filter_congr fun x _ => ?_
    by_cases hx : x = a <;> simp [hx, ha]

/-- A sublist of a list without repetitions is the list with the other elements left out. -/
theorem eq_filter_of_sublist {l as : List α} (h : as.Sublist l) (hl : l.Nodup) : as = l.filter (· ∈ as) := by
  induction h with
  | slnil => rfl
  | @cons as l a h ih =>
    obtain ⟨ha, hl⟩ := List.nodup_cons.1 hl
    rw [List.filter_cons_of_neg (by simpa using fun hm => ha (h.subset hm))]
    exact ih hl
  | @cons_cons as l a h ih =>
    obtain ⟨ha, hl⟩ := List.nodup_cons.1 hl
    rw [List.filter_cons_of_pos (by simp)]
    congr 1
    refine (ih hl).trans (List.filter_congr fun x hx => ?_)
    have hne : x ≠ a := fun e => ha (e ▸ hx)
    simp [hne]

end Moving

end Lorie.Lib
