import Lorie.Lib.Transition
import Mathlib.Data.List.Perm.Basic

/-!
# Resources with parents

A party acquires, uses and releases resources of a system. A resource can be acquired several times, and each of these
acquisitions is released once. A resource may need others: its `parents` are to be held as long as it is.

- `Access`, `Access.step`: what the system accepts in a state where `held` are the resources in hand: no use or release of a
  resource that is not held, no release of a resource that another one still needs;
- `Holds parents log owned`: the system accepted the whole log, and `owned` are the resources in hand, in any order;
- `Holds.acquire`, `Holds.use`, `Holds.release`: one more access; `Holds.useAll`: several uses.
-/

namespace Lorie.Lib

variable {κ : Type*} [DecidableEq κ]

/-- What is done with a resource. -/
inductive Access (κ : Type*) where
  | acquire (k : κ)
  | use (k : κ)
  | release (k : κ)
  deriving DecidableEq, Repr

/-- What the system accepts, and which resources are held after it. -/
def Access.step (parents : κ → List κ) (held : List κ) : Access κ → Option (List κ)
  | .acquire k => if ∀ p ∈ parents k, p ∈ held then some (k :: held) else none
  | .use k => if k ∈ held then some held else none
  | .release k =>
    if k ∈ held ∧ ∀ c ∈ held.erase k, k ∈ parents c → k ∈ held.erase k then some (held.erase k) else none

/-- The system accepted the log, and these resources are in hand. -/
def Holds (parents : κ → List κ) (log : List (Access κ)) (owned : List κ) : Prop :=
  ∃ held, exec (Access.step parents) [] log = some held ∧ held.Perm owned

namespace Holds

variable {parents : κ → List κ} {log : List (Access κ)} {owned owned' : List κ} {k : κ}

theorem nil : Holds parents [] [] := ⟨[], rfl, .nil⟩

/-- The order does not matter. -/
theorem congr (h : Holds parents log owned) (hperm : owned.Perm owned') : Holds parents log owned' := by
  obtain ⟨held, hexec, hheld⟩ := h
  exact ⟨held, hexec, hheld.trans hperm⟩

/-- One more access that the system accepts. -/
theorem append {a : Access κ} (h : Holds parents log owned)
    (ha : ∀ held : List κ, held.Perm owned → ∃ held', Access.step parents held a = some held' ∧ held'.Perm owned') :
    Holds parents (log ++ [a]) owned' := by
  obtain ⟨held, hexec, hheld⟩ := h
  obtain ⟨held', hstep, hheld'⟩ := ha held hheld
  refine ⟨held', ?_, hheld'⟩
  rw [exec_append hexec]
  simp [exec, hstep]

/-- A resource whose parents are held is acquired. -/
theorem acquire (h : Holds parents log owned) (hp : ∀ p ∈ parents k, p ∈ owned) :
    Holds parents (log ++ [Access.acquire k]) (k :: owned) := by
  refine h.append fun held hheld => ⟨k :: held, ?_, hheld.cons k⟩
  have hall : ∀ p ∈ parents k, p ∈ held := fun p hpk => hheld.mem_iff.2 (hp p hpk)
  simp only [Access.step]
  exact if_pos hall

/-- A resource in hand is used. -/
theorem use (h : Holds parents log owned) (hk : k ∈ owned) : Holds parents (log ++ [Access.use k]) owned := by
  refine h.append fun held hheld => ⟨held, ?_, hheld⟩
  simp only [Access.step]
  exact if_pos (hheld.mem_iff.2 hk)

/-- A resource that no other one needs any more is released. -/
theorem release (h : Holds parents log owned) (hperm : owned.Perm (k :: owned'))
    (hfree : ∀ c ∈ owned', k ∈ parents c → k ∈ owned') : Holds parents (log ++ [Access.release k]) owned' := by
  refine h.append fun held hheld => ?_
  have hk : k ∈ held := (hheld.trans hperm).mem_iff.2 (by simp)
  have hrest : (held.erase k).Perm owned' :=
    List.Perm.cons_inv ((List.perm_cons_erase hk).symm.trans (hheld.trans hperm))
  refine ⟨held.erase k, ?_, hrest⟩
  simp only [Access.step]
  refine if_pos ⟨hk, fun c hc hkc => ?_⟩
  exact hrest.mem_iff.2 (hfree c (hrest.mem_iff.1 hc) hkc)

/-- Several uses -/
theorem useAll {ks : List κ} (h : Holds parents log owned) (hks : ∀ k ∈ ks, k ∈ owned) :
    Holds parents (log ++ ks.map .use) owned := by
  induction ks generalizing log with
  | nil => simpa using h
  | cons k ks ih =>
    have hfirst := h.use (hks k (by simp))
    have hrest := ih hfirst fun k' hk' => hks k' (List.mem_cons_of_mem _ hk')
    simpa using hrest

end Holds

end Lorie.Lib
