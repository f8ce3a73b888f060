import Mathlib.Data.List.Nodup
import Mathlib.Logic.Function.Basic

/-!
# A singly linked list with a tail

Nodes are addresses; the memory is what the links hold: the head, and the `next` field of every node. The list keeps a
pointer to its last link, so that a node is appended without a walk, and a node is unlinked through the link that points
to it.

- `Links.push`, `Links.remove`, `Links.walk`: the operations on the memory;
- `Links.Holds l ps`: the memory holds the nodes `ps`, and the tail is their last link;
- `Holds.push`, `Holds.remove`, `Holds.walk`: what the operations do to the nodes;
- `Holds.unique`: the nodes are a function of the memory.
-/

namespace Lorie.Lib

/-- A place that points to a node. -/
inductive Link where
  | head
  | next (p : Nat)
  deriving DecidableEq, Repr

/-- What the links hold, and the pointer to the last of them. -/
structure Links where
  cell : Link → Option Nat
  tail : Link

namespace Links

/-- An empty list. -/
def empty : Links := ⟨fun _ => none, .head⟩

/-- `node->next = null; *tail = node; tail = &node->next` -/
def push (l : Links) (p : Nat) : Links where
  cell := Function.update (Function.update l.cell (.next p) none) l.tail (some p)
  tail := .next p

/-- `*cursor = node->next; if (!*cursor) tail = cursor` -/
def remove (l : Links) (cursor : Link) (p : Nat) : Links where
  cell := Function.update l.cell cursor (l.cell (.next p))
  tail := if (l.cell (.next p)).isNone then cursor else l.tail

/-- Follow the links while the nodes are skipped, at most `fuel` of them. -/
def walk (l : Links) (skip : Nat → Bool) : Nat → Link → Link
  | 0, cursor => cursor
  | fuel + 1, cursor =>
    match l.cell cursor with
    | some p => if skip p then l.walk skip fuel (.next p) else cursor
    | none => cursor

/-! ## The nodes of a list -/

/-- The last link of the nodes behind a link. -/
def lastLink : Link → List Nat → Link
  | c, [] => c
  | _, p :: ps => lastLink (.next p) ps

/-- The links lead through the nodes. -/
def Leads (cell : Link → Option Nat) : Link → List Nat → Prop
  | _, [] => True
  | c, p :: ps => cell c = some p ∧ Leads cell (.next p) ps

/-- The memory holds the nodes, in this order, and the tail is their last link. -/
structure Holds (l : Links) (ps : List Nat) : Prop where
  leads : Leads l.cell .head ps
  ends : l.cell (lastLink .head ps) = none
  tail : l.tail = lastLink .head ps
  nodup : ps.Nodup

theorem Holds.empty : Holds Links.empty [] := ⟨trivial, rfl, rfl, List.nodup_nil⟩

theorem lastLink_append (c : Link) (ps qs : List Nat) : lastLink c (ps ++ qs) = lastLink (lastLink c ps) qs := by
  induction ps generalizing c with
  | nil => rfl
  | cons p ps ih => exact ih (.next p)

theorem leads_append {cell : Link → Option Nat} (c : Link) (ps qs : List Nat) :
    Leads cell c (ps ++ qs) ↔ Leads cell c ps ∧ Leads cell (lastLink c ps) qs := by
  induction ps generalizing c with
  | nil => simp [Leads, lastLink]
  | cons p ps ih =>
    simp only [List.cons_append, Leads, lastLink]
    rw [ih]
    exact and_assoc.symm

theorem lastLink_mem (c : Link) (ps : List Nat) : lastLink c ps ∈ c :: ps.map .next := by
  induction ps generalizing c with
  | nil => exact List.mem_cons_self
  | cons p ps ih => exact List.mem_cons_of_mem _ (ih (.next p))

/-- A link that is not on the way is not read. -/
theorem Leads.update_of_notMem {cell : Link → Option Nat} {c x : Link} {ps : List Nat} (h : Leads cell c ps)
    (hx : x ∉ c :: ps.map .next) (v : Option Nat) : Leads (Function.update cell x v) c ps := by
  induction ps generalizing c with
  | nil => trivial
  | cons p ps ih =>
    have hc : c ≠ x := fun e => hx (by rw [e]; exact List.mem_cons_self)
    refine ⟨?_, ih h.2 fun hm => hx (List.mem_cons_of_mem _ hm)⟩
    rw [Function.update_of_ne hc]
    exact h.1

/-- The last link is not read. -/
theorem Leads.update_last {cell : Link → Option Nat} {c : Link} {ps : List Nat} (h : Leads cell c ps)
    (hd : (c :: ps.map .next).Nodup) (v : Option Nat) : Leads (Function.update cell (lastLink c ps) v) c ps := by
  induction ps generalizing c with
  | nil => trivial
  | cons p ps ih =>
    obtain ⟨hc, hd⟩ := List.nodup_cons.1 hd
    refine ⟨?_, ih h.2 hd⟩
    have hne : c ≠ lastLink (.next p) ps := fun e => hc (by rw [e]; exact lastLink_mem _ _)
    show Function.update cell (lastLink (.next p) ps) v c = some p
    rw [Function.update_of_ne hne]
    exact h.1

theorem nodup_links {ps : List Nat} (h : ps.Nodup) : (Link.head :: ps.map .next).Nodup := by
  refine List.nodup_cons.2 ⟨by simp, List.Nodup.map (fun _ _ e => ?_) h⟩
  exact Link.next.inj e

theorem next_notMem {p : Nat} {ps : List Nat} (h : p ∉ ps) : Link.next p ∉ Link.head :: ps.map .next := by
  simp [h]

/-! ## The operations -/

namespace Holds

variable {l : Links} {ps : List Nat} {p : Nat}

/-- A node is appended. -/
theorem push (h : l.Holds ps) (hp : p ∉ ps) : (l.push p).Holds (ps ++ [p]) := by
  have hfresh := next_notMem hp
  have hne : Link.next p ≠ lastLink .head ps := fun e => hfresh (by rw [e]; exact lastLink_mem _ _)
  have hleads := (h.leads.update_of_notMem hfresh none).update_last (nodup_links h.nodup) (some p)
  constructor
  · rw [leads_append]
    unfold Links.push
    rw [h.tail]
    refine ⟨hleads, ?_, trivial⟩
    exact Function.update_self _ _ _
  · rw [lastLink_append]
    simp only [Links.push, lastLink]
    rw [h.tail, Function.update_of_ne hne, Function.update_self]
  · rw [lastLink_append]
    rfl
  · exact List.nodup_append.2 ⟨h.nodup, List.nodup_singleton p, by
      rintro a ha b hb rfl
      rw [List.mem_singleton.1 hb] at ha
      exact hp ha⟩

/-- A node is unlinked through the link that points to it. -/
theorem remove {qs : List Nat} (h : l.Holds (ps ++ p :: qs)) : (l.remove (lastLink .head ps) p).Holds (ps ++ qs) := by
  obtain ⟨hps, hcell, hqs⟩ := (leads_append _ _ _).1 h.leads
  have hlast : lastLink .head (ps ++ p :: qs) = lastLink (.next p) qs := lastLink_append _ _ _
  have hends := h.ends
  rw [hlast] at hends
  have hdrop : (p :: (ps ++ qs)).Nodup := List.nodup_middle.1 h.nodup
  have hnodup : (ps ++ qs).Nodup := (List.nodup_cons.1 hdrop).2
  have hlinks : (Link.head :: ps.map .next).Nodup := nodup_links (List.nodup_append.1 h.nodup).1
  -- the link to the node is none of the links behind it
  have hcursor : ∀ q ∈ qs, lastLink .head ps ≠ .next q := by
    intro q hq heq
    have hmem := lastLink_mem .head ps
    rw [heq] at hmem
    rcases List.mem_cons.1 hmem with hm | hm
    · cases hm
    · obtain ⟨a, ha, hav⟩ := List.mem_map.1 hm
      cases hav
      exact (List.nodup_append.1 hnodup).2.2 q ha q hq rfl
  have hfront := hps.update_last hlinks (l.cell (.next p))
  cases qs with
  | nil =>
    have hnone : l.cell (.next p) = none := hends
    refine ⟨?_, ?_, ?_, hnodup⟩
    · rw [List.append_nil]
      exact hfront
    · rw [List.append_nil]
      exact (Function.update_self _ _ _).trans hnone
    · rw [List.append_nil]
      simp only [Links.remove, hnone, Option.isNone_none, if_true]
  | cons q qs =>
    have hsome : l.cell (.next p) = some q := hqs.1
    have hnotin : lastLink .head ps ∉ Link.next q :: qs.map .next := by
      intro hm
      obtain ⟨a, ha, hav⟩ := List.mem_map.1 (show lastLink .head ps ∈ (q :: qs).map .next from hm)
      exact hcursor a ha hav.symm
    refine ⟨?_, ?_, ?_, hnodup⟩
    · rw [leads_append]
      refine ⟨hfront, ?_, hqs.2.update_of_notMem hnotin _⟩
      exact (Function.update_self _ _ _).trans hsome
    · rw [lastLink_append]
      have hne : lastLink (.next q) qs ≠ lastLink .head ps := fun e => hnotin (by rw [← e]; exact lastLink_mem _ _)
      simp only [Links.remove, lastLink]
      rw [Function.update_of_ne hne]
      exact hends
    · rw [lastLink_append]
      simp only [Links.remove, hsome, Option.isNone_some, Bool.false_eq_true, if_false]
      rw [h.tail, hlast]
      rfl

/-- A walk with enough fuel stops at the first node that is not skipped. -/
theorem walk (h : l.Holds ps) (skip : Nat → Bool) {fuel : Nat} (hf : ps.length ≤ fuel) :
    l.walk skip fuel .head = lastLink .head (ps.takeWhile skip) := by
  have hgen : ∀ (ps : List Nat) (c : Link) (fuel : Nat), Leads l.cell c ps → l.cell (lastLink c ps) = none →
      ps.length ≤ fuel → l.walk skip fuel c = lastLink c (ps.takeWhile skip) := by
    intro ps
    induction ps with
    | nil =>
      intro c fuel _ hends _
      cases fuel with
      | zero => rfl
      | succ fuel =>
        unfold Links.walk
        rw [show l.cell c = none from hends]
        rfl
    | cons p ps ih =>
      intro c fuel hleads hends hlen
      cases fuel with
      | zero => simp at hlen
      | succ fuel =>
        unfold Links.walk
        rw [hleads.1]
        cases hs : skip p with
        | true =>
          simp only [if_true, List.takeWhile_cons, hs, lastLink]
          exact ih (.next p) fuel hleads.2 hends (by simpa using hlen)
        | false =>
          simp only [Bool.false_eq_true, if_false, List.takeWhile_cons, hs, lastLink]
  exact hgen ps .head fuel h.leads h.ends hf

/-- What a link between the nodes holds. -/
theorem cell_lastLink {qs : List Nat} (h : l.Holds (ps ++ qs)) : l.cell (lastLink .head ps) = qs.head? := by
  cases qs with
  | nil =>
    have hends := h.ends
    rw [List.append_nil] at hends
    exact hends
  | cons q qs => exact ((leads_append _ _ _).1 h.leads).2.1

/-- The memory determines the nodes. -/
theorem unique {qs : List Nat} (h : l.Holds ps) (h' : l.Holds qs) : ps = qs := by
  have hgen : ∀ (ps qs : List Nat) (c : Link), Leads l.cell c ps → l.cell (lastLink c ps) = none → Leads l.cell c qs →
      l.cell (lastLink c qs) = none → ps = qs := by
    intro ps
    induction ps with
    | nil =>
      intro qs c _ hends hleads' _
      cases qs with
      | nil => rfl
      | cons q qs =>
        have hsome := hleads'.1
        rw [show l.cell c = none from hends] at hsome
        cases hsome
    | cons p ps ih =>
      intro qs c hleads hends hleads' hends'
      cases qs with
      | nil =>
        have hsome := hleads.1
        rw [show l.cell c = none from hends'] at hsome
        cases hsome
      | cons q qs =>
        have heq := hleads.1
        rw [hleads'.1] at heq
        cases heq
        rw [ih qs (.next p) hleads.2 hends hleads'.2 hends']
  exact hgen ps qs .head h.leads h.ends h'.leads h'.ends

end Holds

end Links

end Lorie.Lib
