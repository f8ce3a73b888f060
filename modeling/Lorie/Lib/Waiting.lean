import Mathlib.Data.Set.Finite.Lattice
import Mathlib.Data.Fintype.Pigeonhole
import Mathlib.Logic.Relation

/-!
# Parties that wait for each other

Each party waits for at most one other: `target a` is the party that `a` waits for.

- `exists_free_or_cycle`: with finitely many waiting parties, whoever waits does so, through others, for one that does not wait
  or for one that waits for itself;
- `chain_kept`, `cycle_kept`: when a party goes on waiting as long as the one that it waits for is busy, and all that wait are, a
  chain to a busy party stays, and a cycle;
- `chain_within`, `cycle_within`: the parties of a chain and of a cycle at its end are those that its start waits for.
-/

namespace Lorie.Lib.Waiting

open Relation

variable {α : Type*} {target : α → Option α}

/-- `a` waits for `b`. -/
def Waits (target : α → Option α) (a b : α) : Prop := target a = some b

/-- The party after so many steps -/
def follows (target : α → Option α) (a : α) : Nat → Option α
  | 0 => some a
  | n + 1 => (follows target a n).bind target

theorem follows_add {a b : α} {m : Nat} (h : follows target a m = some b) (n : Nat) :
    follows target a (m + n) = follows target b n := by
  induction n with
  | zero => exact h
  | succ n ih => simp [follows, ih]

theorem reflTransGen_of_follows {a b : α} {n : Nat} (h : follows target a n = some b) : ReflTransGen (Waits target) a b := by
  induction n generalizing b with
  | zero =>
    cases h
    exact .refl
  | succ n ih =>
    obtain ⟨c, hc, hb⟩ := Option.bind_eq_some_iff.1 h
    exact (ih hc).tail hb

theorem transGen_of_follows {a b : α} {n : Nat} (h : follows target a (n + 1) = some b) : TransGen (Waits target) a b := by
  obtain ⟨c, hc, hb⟩ := Option.bind_eq_some_iff.1 h
  exact .tail' (reflTransGen_of_follows hc) hb

/-- **Who waits does so for a party that does not wait, or for one that waits for itself.** -/
theorem exists_free_or_cycle (hfinite : {a | target a ≠ none}.Finite) (a : α) :
    (∃ b, ReflTransGen (Waits target) a b ∧ target b = none) ∨
      ∃ b, ReflTransGen (Waits target) a b ∧ TransGen (Waits target) b b := by
  by_cases hend : ∃ n, follows target a n = none
  · left
    obtain ⟨n, hn⟩ := hend
    induction n with
    | zero => cases hn
    | succ n ih =>
      cases hprev : follows target a n with
      | none => exact ih hprev
      | some b =>
        refine ⟨b, reflTransGen_of_follows hprev, ?_⟩
        simpa [follows, hprev] using hn
  · right
    -- all parties of the chain wait, so that two of them are one
    have hsome (n : Nat) : ∃ b, follows target a n = some b := by
      cases hn : follows target a n with
      | none => exact absurd ⟨n, hn⟩ hend
      | some b => exact ⟨b, rfl⟩
    choose party hparty using hsome
    have hwaits (n : Nat) : target (party n) ≠ none := by
      intro hnone
      have hnext := hparty (n + 1)
      simp [follows, hparty n, hnone] at hnext
    have : Finite {a | target a ≠ none} := hfinite
    obtain ⟨i, j, hij, heq⟩ := Finite.exists_ne_map_eq_of_infinite fun n => (⟨party n, hwaits n⟩ : {a | target a ≠ none})
    have hsame : party i = party j := congrArg Subtype.val heq
    have hloop {i j : Nat} (hlt : i < j) (hsame : party i = party j) : TransGen (Waits target) (party i) (party i) := by
      obtain ⟨d, rfl⟩ : ∃ d, j = i + (d + 1) := ⟨j - i - 1, by omega⟩
      have hfollows := follows_add (hparty i) (d + 1)
      rw [hparty, ← hsame] at hfollows
      exact transGen_of_follows hfollows.symm
    rcases Nat.lt_or_gt_of_ne hij with hlt | hlt
    · exact ⟨party i, reflTransGen_of_follows (hparty i), hloop hlt hsame⟩
    · exact ⟨party j, reflTransGen_of_follows (hparty j), hloop hlt hsame.symm⟩

section Kept

variable {R R' : α → α → Prop} {P : α → Prop} {a b m : α}

/-- A chain to a busy party stays, when its edges do that lead to busy parties. -/
theorem chain_kept (hkeep : ∀ a b, R a b → P b → R' a b) (hbusy : ∀ a b, R a b → P a) (hb : P b) (h : ReflTransGen R a b) :
    ReflTransGen R' a b := by
  induction h using ReflTransGen.head_induction_on with
  | refl => exact .refl
  | head hac hcb ih =>
    rcases ReflTransGen.cases_head hcb with rfl | ⟨d, hcd, -⟩
    · exact ih.head (hkeep _ _ hac hb)
    · exact ih.head (hkeep _ _ hac (hbusy _ _ hcd))

/-- A cycle stays. -/
theorem cycle_kept (hkeep : ∀ a b, R a b → P b → R' a b) (hbusy : ∀ a b, R a b → P a) (hb : TransGen R b b) :
    TransGen R' b b := by
  obtain ⟨c, hbc, hcb⟩ := TransGen.head'_iff.1 hb
  have hpb := hbusy _ _ hbc
  refine TransGen.head' (hkeep _ _ hbc ?_) (chain_kept hkeep hbusy hpb hcb)
  rcases ReflTransGen.cases_head hcb with rfl | ⟨d, hcd, -⟩
  · exact hpb
  · exact hbusy _ _ hcd

/-- The edges of a chain, with what they start from -/
theorem chain_within (hab : ReflTransGen R m b) : ReflTransGen (fun x y => R x y ∧ ReflTransGen R m x) m b := by
  induction hab with
  | refl => exact .refl
  | tail hmc hcd ih => exact ih.tail ⟨hcd, hmc⟩

/-- The edges of the cycle at the end of a chain -/
theorem cycle_within (hab : ReflTransGen R m b) (hb : TransGen R b b) :
    TransGen (fun x y => R x y ∧ ReflTransGen R m x) b b := by
  have hchain (x : α) (hx : TransGen R b x) : TransGen (fun x y => R x y ∧ ReflTransGen R m x) b x := by
    induction hx with
    | single hbx => exact .single ⟨hbx, hab⟩
    | tail hbc hcd ih => exact ih.tail ⟨hcd, hab.trans hbc.to_reflTransGen⟩
  exact hchain b hb

end Kept

end Lorie.Lib.Waiting
