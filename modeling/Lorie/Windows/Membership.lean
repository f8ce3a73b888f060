import Lorie.Windows.Family
import Mathlib.Logic.Relation

/-!
# What belongs to a window

`lorieWindowFamilyContains` against its description: the chain of a window and its ancestors below the root, then the chain
of the transient that the nearest of them names, and so on. The first 64 nodes are looked at.

- `Links.sequence`: so many chains one after the other;
- `familyWalk_eq`: the walk looks for the owner in the nodes that are left;
- `familyContains_exact`: the function looks at no more than 64 nodes and finds the owner among the first 64.
-/

namespace Lorie.Windows

/-! ## Chains -/

/-- The pointers `parent` of a forest. -/
structure Links (W : Type) where
  parent : W → Option W
  /-- How far a window is below the top. -/
  depth : W → Nat
  depth_parent : ∀ {w p}, parent w = some p → depth p < depth w

theorem below_eq_some {W : Type} [DecidableEq W] {root : W} {window : Option W} {w : W}
    (h : below root window = some w) : window = some w ∧ w ≠ root := by
  obtain ⟨hw, hne⟩ := Option.filter_eq_some_iff.1 h
  exact ⟨hw, of_decide_eq_true hne⟩

namespace Links

variable {W : Type} [DecidableEq W] (l : Links W) (transientFor : W → Option W) (root : W)

/-- A window and its ancestors below the root. -/
def chain (w : W) : List W :=
  w :: match _h : below root (l.parent w) with
    | some parent => chain parent
    | none => []
termination_by l.depth w
decreasing_by exact l.depth_parent (below_eq_some _h).1

/-- The transient of the nearest of a window and its ancestors that has one. -/
def nearest (w : W) : Option W := (l.chain root w).findSome? transientFor

/-- So many chains, each from the nearest transient of the one before, until there is none or it is the root. -/
def sequence : Nat → Option W → List W
  | 0, _ => []
  | _, none => []
  | n + 1, some w => l.chain root w ++ sequence n (below root (l.nearest transientFor root w))

/-- The window or one of its ancestors names another window with the nearest transient. -/
def Leads (w v : W) : Prop := below root (l.nearest transientFor root w) = some v

/-- On the chain of a window, or on one that it leads to. -/
def Reaches (w v : W) : Prop := ∃ u, Relation.ReflTransGen (l.Leads transientFor root) w u ∧ v ∈ l.chain root u

variable {l transientFor root}

theorem chain_some {w p : W} (h : below root (l.parent w) = some p) : l.chain root w = w :: l.chain root p := by
  rw [chain]
  split
  · rename_i q hq
    rw [Option.some.inj (h.symm.trans hq)]
  · rename_i hq
    exact absurd (h.symm.trans hq) (Option.some_ne_none p)

theorem chain_none {w : W} (h : below root (l.parent w) = none) : l.chain root w = [w] := by
  rw [chain]
  split
  · rename_i q hq
    exact absurd (h.symm.trans hq) (Option.some_ne_none q).symm
  · rfl

/-- What is on the chains can be reached. -/
theorem reaches_of_mem {n : Nat} {w v : W} (h : v ∈ l.sequence transientFor root n (some w)) :
    l.Reaches transientFor root w v := by
  induction n generalizing w with
  | zero => cases h
  | succ n ih =>
    rcases List.mem_append.1 h with h | h
    · exact ⟨w, .refl, h⟩
    · cases hnext : below root (l.nearest transientFor root w) with
      | none =>
        rw [hnext] at h
        cases n <;> cases h
      | some t =>
        rw [hnext] at h
        obtain ⟨u, hu, hv⟩ := ih h
        exact ⟨u, hu.head hnext, hv⟩

/-- What can be reached is on one of the chains. -/
theorem mem_of_reaches {w v : W} (h : l.Reaches transientFor root w v) :
    ∃ n, v ∈ l.sequence transientFor root n (some w) := by
  obtain ⟨u, hu, hv⟩ := h
  induction hu using Relation.ReflTransGen.head_induction_on with
  | refl => exact ⟨1, List.mem_append_left _ hv⟩
  | head hstep _ ih =>
    obtain ⟨n, hn⟩ := ih
    refine ⟨n + 1, List.mem_append_right _ ?_⟩
    rwa [show below root (l.nearest transientFor root _) = some _ from hstep]

end Links

/-! ## The walk -/

section Walk

variable {W : Type} [DecidableEq W] (l : Links W) (transientFor : W → Option W) (owner root : W)

/-- The nodes that `familyWalk` compares with the owner. -/
def familyVisits : Nat → W → Option W → List W
  | 0, _, _ => []
  | remaining + 1, ancestor, transient =>
    ancestor ::
      if ancestor = owner then []
      else
        let transient := transient <|> transientFor ancestor
        match below root (l.parent ancestor) with
        | some next => familyVisits remaining next transient
        | none =>
          match below root transient with
          | some window => familyVisits remaining window none
          | none => []

/-- The nodes that `lorieWindowFamilyContains` compares with the owner. -/
def familyContainsVisits (window : W) : List W :=
  match below root (some window) with
  | some window => familyVisits l transientFor owner root 64 window none
  | none => []

/-- What is left of the sequence at an ancestor, with the transient that was found. -/
def ahead (n : Nat) (ancestor : W) (transient : Option W) : List W :=
  l.chain root ancestor ++
    l.sequence transientFor root n (below root (transient <|> l.nearest transientFor root ancestor))

variable {l transientFor owner root}

theorem ahead_some {n : Nat} {ancestor next : W} {transient : Option W}
    (h : below root (l.parent ancestor) = some next) :
    ahead l transientFor root n ancestor transient =
      ancestor :: ahead l transientFor root n next (transient <|> transientFor ancestor) := by
  have hnearest : l.nearest transientFor root ancestor = (transientFor ancestor <|> l.nearest transientFor root next) := by
    unfold Links.nearest
    rw [Links.chain_some h, List.findSome?_cons]
    cases transientFor ancestor <;> rfl
  unfold ahead
  rw [hnearest, Links.chain_some h]
  cases transient <;> rfl

theorem ahead_none {n : Nat} {ancestor : W} {transient : Option W} (h : below root (l.parent ancestor) = none) :
    ahead l transientFor root n ancestor transient =
      ancestor :: l.sequence transientFor root n (below root (transient <|> transientFor ancestor)) := by
  have hnearest : l.nearest transientFor root ancestor = transientFor ancestor := by
    unfold Links.nearest
    rw [Links.chain_none h, List.findSome?_cons]
    cases transientFor ancestor <;> rfl
  unfold ahead
  rw [hnearest, Links.chain_none h]
  rfl

theorem sequence_succ (n : Nat) (w : W) :
    l.sequence transientFor root (n + 1) (some w) = ahead l transientFor root n w none := rfl

theorem sequence_none (n : Nat) : l.sequence transientFor root n none = [] := by
  cases n <;> rfl

/-- **The walk looks for the owner in the nodes that are left**, as far as its budget goes. -/
theorem familyWalk_eq {remaining n : Nat} (hn : remaining ≤ n + 1) (ancestor : W) (transient : Option W) :
    (familyWalk l.parent transientFor owner root remaining ancestor transient = true ↔
      owner ∈ (ahead l transientFor root n ancestor transient).take remaining) ∧
    familyVisits l transientFor owner root remaining ancestor transient <+:
      (ahead l transientFor root n ancestor transient).take remaining := by
  induction remaining generalizing n ancestor transient with
  | zero => exact ⟨⟨fun h => (Bool.false_ne_true h).elim, fun h => absurd h List.not_mem_nil⟩, List.prefix_refl _⟩
  | succ remaining ih =>
    unfold familyWalk familyVisits
    cases hparent : below root (l.parent ancestor) with
    | some next =>
      rw [ahead_some hparent, List.take_succ_cons]
      obtain ⟨hwalk, hvisits⟩ := ih (n := n) (by omega) next (transient <|> transientFor ancestor)
      by_cases howner : ancestor = owner
      · rw [if_pos howner, if_pos howner]
        exact ⟨iff_of_true rfl (List.mem_cons.2 (.inl howner.symm)),
          List.cons_prefix_cons.2 ⟨rfl, List.nil_prefix⟩⟩
      · rw [if_neg howner, if_neg howner]
        refine ⟨?_, List.cons_prefix_cons.2 ⟨rfl, hvisits⟩⟩
        rw [List.mem_cons, or_iff_right fun e => howner e.symm]
        exact hwalk
    | none =>
      rw [ahead_none hparent, List.take_succ_cons]
      by_cases howner : ancestor = owner
      · rw [if_pos howner, if_pos howner]
        exact ⟨iff_of_true rfl (List.mem_cons.2 (.inl howner.symm)),
          List.cons_prefix_cons.2 ⟨rfl, List.nil_prefix⟩⟩
      · rw [if_neg howner, if_neg howner, List.mem_cons, or_iff_right fun e => howner e.symm]
        dsimp only
        cases htransient : below root (transient <|> transientFor ancestor) with
        | none =>
          rw [sequence_none, List.take_nil]
          exact ⟨iff_of_false Bool.false_ne_true List.not_mem_nil, List.prefix_refl _⟩
        | some window =>
          -- the next chain, from the nearest transient
          cases n with
          | zero =>
            obtain rfl : remaining = 0 := by omega
            exact ⟨iff_of_false Bool.false_ne_true List.not_mem_nil,
              List.cons_prefix_cons.2 ⟨rfl, List.prefix_refl _⟩⟩
          | succ n =>
            rw [sequence_succ]
            obtain ⟨hwalk, hvisits⟩ := ih (n := n) (by omega) window none
            exact ⟨hwalk, List.cons_prefix_cons.2 ⟨rfl, hvisits⟩⟩

/-- The owner is found where it is compared. -/
theorem familyWalk_visits (remaining : Nat) (ancestor : W) (transient : Option W) :
    familyWalk l.parent transientFor owner root remaining ancestor transient = true ↔
      owner ∈ familyVisits l transientFor owner root remaining ancestor transient := by
  induction remaining generalizing ancestor transient with
  | zero => exact iff_of_false Bool.false_ne_true List.not_mem_nil
  | succ remaining ih =>
    unfold familyWalk familyVisits
    by_cases howner : ancestor = owner
    · rw [if_pos howner]
      exact iff_of_true rfl (List.mem_cons.2 (.inl howner.symm))
    · rw [if_neg howner, if_neg howner, List.mem_cons, or_iff_right fun e => howner e.symm]
      dsimp only
      cases below root (l.parent ancestor) with
      | some next => exact ih next _
      | none =>
        cases below root (transient <|> transientFor ancestor) with
        | some window => exact ih window none
        | none => exact iff_of_false Bool.false_ne_true List.not_mem_nil

/-- The walk from a window below the root. -/
theorem familyWalk_sequence {n : Nat} (hn : 64 ≤ n) (w : W) :
    (familyWalk l.parent transientFor owner root 64 w none = true ↔
      owner ∈ (l.sequence transientFor root n (some w)).take 64) ∧
    familyVisits l transientFor owner root 64 w none <+: (l.sequence transientFor root n (some w)).take 64 := by
  obtain ⟨m, rfl⟩ : ∃ m, n = m + 1 := ⟨n - 1, by omega⟩
  rw [sequence_succ]
  exact familyWalk_eq hn w none

end Walk

/-- **Membership is a search through the first 64 nodes**: the function compares at most 64 nodes with the owner, in the order
of the chains, and finds it exactly if it is among the first 64. If the owner is not only beyond these, it belongs to the
family exactly if it can be reached. -/
theorem familyContains_exact {W : Type} [DecidableEq W] (l : Links W) (transientFor : W → Option W) (owner root window : W) :
    (familyContainsVisits l transientFor owner root window).length ≤ 64 ∧
      (lorieWindowFamilyContains l.parent transientFor owner root window = true ↔
        owner ∈ familyContainsVisits l transientFor owner root window) ∧
      (∀ n, 64 ≤ n →
        familyContainsVisits l transientFor owner root window <+: l.sequence transientFor root n (below root (some window)) ∧
          (lorieWindowFamilyContains l.parent transientFor owner root window = true ↔
            owner ∈ (l.sequence transientFor root n (below root (some window))).take 64)) ∧
      (window ≠ root →
        (∀ n, owner ∈ l.sequence transientFor root n (some window) →
          owner ∈ (l.sequence transientFor root 64 (some window)).take 64) →
        (lorieWindowFamilyContains l.parent transientFor owner root window = true ↔
          l.Reaches transientFor root window owner)) := by
  unfold lorieWindowFamilyContains familyContainsVisits
  cases hstart : below root (some window) with
  | none =>
    -- the walk starts at the root
    refine ⟨Nat.zero_le _, iff_of_false Bool.false_ne_true List.not_mem_nil, fun n _ => ⟨List.nil_prefix, ?_⟩, ?_⟩
    · rw [sequence_none, List.take_nil]
      exact iff_of_false Bool.false_ne_true List.not_mem_nil
    · intro hne
      exact absurd hstart (by simp [below, Option.filter, hne])
  | some w =>
    obtain ⟨hw, -⟩ := below_eq_some hstart
    obtain rfl : window = w := Option.some.inj hw
    dsimp only
    refine ⟨?_, familyWalk_visits 64 window none, fun n hn => ?_, fun _ hreach => ?_⟩
    · exact Nat.le_trans (familyWalk_sequence (Nat.le_refl 64) window).2.length_le (List.length_take_le _ _)
    · obtain ⟨hwalk, hvisits⟩ := familyWalk_sequence hn window
      exact ⟨hvisits.trans (List.take_prefix _ _), hwalk⟩
    · rw [(familyWalk_sequence (Nat.le_refl 64) window).1]
      constructor
      · exact fun h => Links.reaches_of_mem (List.mem_of_mem_take h)
      · intro h
        obtain ⟨n, hn⟩ := Links.mem_of_reaches h
        exact hreach n hn

/-- Two dialogs that are transient for each other, one of them in a frame -/
def cycleLinks : Links (Fin 5) where
  parent := fun w => if w = 0 then none else if w = 3 then some 2 else some 0
  depth := fun w => if w = 0 then 0 else if w = 3 then 2 else 1
  depth_parent := by decide

example : lorieWindowFamilyContains cycleLinks.parent (fun w => if w = 3 then some 4 else if w = 4 then some 3 else none)
    2 0 4 = true := by decide

example : lorieWindowFamilyContains cycleLinks.parent (fun w => if w = 3 then some 4 else if w = 4 then some 3 else none)
    1 0 4 = false := by decide

end Lorie.Windows
