import Mathlib.Algebra.BigOperators.Group.Finset.Basic
import Mathlib.Data.List.Nodup
import Mathlib.Data.List.Perm.Basic

/-!
# Ledgers

The laws of exactly-once ownership are equations between what a table holds and what histories count.

- `Issued`: serials from one allocator. Every request gets a serial that was never issued before, and a holder keeps the serial
  of its newest request: no two holders have the same one, and one that was replaced is held by nobody again;
- `outstanding`: the issued items whose key is not settled; `outstanding_issue`, `outstanding_settle`: what a new item and a
  settled key do to them;
- `tally`: the weight of a table `f : ι → τ`, where `w` weighs an entry; `tally_update`: the tally after one entry changed;
- `count_range'`: new items are counted once.
-/

namespace Lorie.Lib

/-! ## Serials -/

/-- The serials that are held were issued, and differ. -/
structure Issued {α : Type*} (issued held : List α) : Prop where
  mem : ∀ a ∈ held, a ∈ issued
  nodup : held.Nodup

namespace Issued

variable {α : Type*} {issued held held' : List α} {a : α}

theorem nil : Issued issued ([] : List α) := ⟨fun _ h => absurd h List.not_mem_nil, List.nodup_nil⟩

/-- A new holder -/
theorem insert (h : Issued issued held) (ha : a ∉ issued) : Issued (a :: issued) (a :: held) := by
  refine ⟨fun b hb => ?_, List.nodup_cons.2 ⟨fun hmem => ha (h.mem a hmem), h.nodup⟩⟩
  rcases List.mem_cons.1 hb with rfl | hb
  · exact List.mem_cons_self
  · exact List.mem_cons_of_mem _ (h.mem b hb)

/-- A holder gets a new serial. -/
theorem replace (h : Issued issued held) (ha : a ∉ issued) (i : Nat) : Issued (a :: issued) (held.set i a) := by
  refine ⟨fun b hb => ?_, h.nodup.set fun hmem => ha (h.mem a hmem)⟩
  rcases List.mem_or_eq_of_mem_set hb with hb | rfl
  · exact List.mem_cons_of_mem _ (h.mem b hb)
  · exact List.mem_cons_self

/-- Some holders go. -/
theorem sublist (h : Issued issued held) (hs : held'.Sublist held) : Issued issued held' :=
  ⟨fun b hb => h.mem b (hs.subset hb), h.nodup.sublist hs⟩

/-- The order of the holders does not matter. -/
theorem perm (h : Issued issued held) (hp : held'.Perm held) : Issued issued held' :=
  ⟨fun b hb => h.mem b (hp.mem_iff.1 hb), hp.nodup_iff.2 h.nodup⟩

end Issued

/-! ## Issued and settled items -/

section Items

variable {ι κ : Type*} [DecidableEq κ]

/-- The issued items that are not settled -/
def outstanding (key : ι → κ) (issued : List ι) (settled : List κ) : List ι :=
  issued.filter fun i => key i ∉ settled

theorem mem_outstanding {key : ι → κ} {issued : List ι} {settled : List κ} {i : ι} :
    i ∈ outstanding key issued settled ↔ i ∈ issued ∧ key i ∉ settled := by
  simp [outstanding, List.mem_filter]

/-- A new item is outstanding. -/
theorem outstanding_issue {key : ι → κ} {issued : List ι} {settled : List κ} {i : ι} (hi : key i ∉ settled) :
    outstanding key (issued ++ [i]) settled = outstanding key issued settled ++ [i] := by
  simp [outstanding, List.filter_append, hi]

/-- A key that no item of the list has settles none of them. -/
theorem outstanding_settle_of_ne {key : ι → κ} {issued : List ι} (settled : List κ) {k : κ}
    (hk : ∀ i ∈ issued, key i ≠ k) : outstanding key issued (settled ++ [k]) = outstanding key issued settled := by
  refine List.filter_congr fun i hi => ?_
  have hne := hk i hi
  simp [hne]

/-- The keys being distinct, settling an item takes it, and no other, out of the outstanding ones. -/
theorem outstanding_settle {key : ι → κ} {issued : List ι} {settled : List κ} {i : ι} (hdup : (issued.map key).Nodup)
    (hi : i ∈ outstanding key issued settled) :
    (outstanding key issued settled).Perm (i :: outstanding key issued (settled ++ [key i])) := by
  induction issued with
  | nil => cases (mem_outstanding.1 hi).1
  | cons j issued ih =>
    obtain ⟨hmem, hopen⟩ := mem_outstanding.1 hi
    obtain ⟨hj, hrest⟩ := List.nodup_cons.1 hdup
    rcases List.mem_cons.1 hmem with rfl | hmem
    · have hne : ∀ l ∈ issued, key l ≠ key i := fun l hl heq => hj (heq ▸ List.mem_map_of_mem hl)
      have htail := outstanding_settle_of_ne settled hne
      simp only [outstanding, List.filter_cons, hopen, not_false_eq_true, decide_true, if_true, List.mem_append,
        List.mem_singleton, or_true, not_true, decide_false, Bool.false_eq_true, if_false] at htail ⊢
      rw [htail]
    · have hne : key j ≠ key i := fun heq => hj (heq ▸ List.mem_map_of_mem hmem)
      have hperm := ih hrest (mem_outstanding.2 ⟨hmem, hopen⟩)
      by_cases hjs : key j ∈ settled
      · simpa [outstanding, List.filter_cons, hjs, hne] using hperm
      · simp only [outstanding, List.filter_cons, hjs, hne, not_false_eq_true, decide_true, if_true, List.mem_append,
          List.mem_singleton, or_self] at hperm ⊢
        exact (hperm.cons j).trans (.swap i j _)

end Items

/-! ## Tallies over a table -/

section Tables

variable {ι τ : Type*} [Fintype ι]

/-- The weight of a whole table. -/
def tally (w : τ → Nat) (f : ι → τ) : Nat := ∑ i, w (f i)

/-- The tally is the weight of one entry and the weight of the others. -/
theorem tally_eq_add [DecidableEq ι] (w : τ → Nat) (f : ι → τ) (i : ι) :
    tally w f = w (f i) + ∑ j ∈ Finset.univ.erase i, w (f j) :=
  (Finset.add_sum_erase Finset.univ (fun j => w (f j)) (Finset.mem_univ i)).symm

/-- One entry changes. -/
theorem tally_update [DecidableEq ι] (w : τ → Nat) (f : ι → τ) (i : ι) (x : τ) :
    tally w (Function.update f i x) + w (f i) = tally w f + w x := by
  have hrest : ∑ j ∈ Finset.univ.erase i, w (Function.update f i x j) = ∑ j ∈ Finset.univ.erase i, w (f j) := by
    refine Finset.sum_congr rfl fun j hj => ?_
    rw [Function.update_of_ne (Finset.ne_of_mem_erase hj)]
  rw [tally_eq_add w f i, tally_eq_add w (Function.update f i x) i, hrest, Function.update_self]
  omega

/-- A table of entries that weigh nothing. -/
theorem tally_eq_zero {w : τ → Nat} {f : ι → τ} (h : ∀ i, w (f i) = 0) : tally w f = 0 :=
  Finset.sum_eq_zero fun i _ => h i

/-- New items, numbered from `m`, are counted once. -/
theorem count_range' (d m n : Nat) : (List.range' m n).count d = if m ≤ d ∧ d < m + n then 1 else 0 := by
  split
  · rename_i h
    exact List.count_eq_one_of_mem List.nodup_range' (List.mem_range'_1.2 h)
  · rename_i h
    exact List.count_eq_zero.2 fun hm => h (List.mem_range'_1.1 hm)

end Tables

end Lorie.Lib
