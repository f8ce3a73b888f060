import Mathlib.Data.List.Nodup
import Mathlib.Logic.Function.Basic

/-!
# Intrusive lists

What a program may rely on when it keeps nodes in an intrusive list with a head, and the list that provides it.

- `IntrusiveList`: the operations on the links of the nodes, and what they do to the nodes of the list; a node is named
  by its address, and the head is `none`;
- `Ring`: the links of a doubly linked ring through the head; `Ring.Segment`: the links lead from one node to another;
- `ringList`: rings are intrusive lists.
-/

namespace Lorie.Lib

/-- A list through links in its nodes, with the operations that a walk with a saved successor uses. -/
structure IntrusiveList (α : Type) [BEq α] where
  /-- What the links of the nodes and of the head hold. -/
  Links : Type
  /-- The head alone. -/
  init : Links
  /-- A node is put behind the head. -/
  add : Links → α → Links
  /-- A node is taken out. -/
  del : Links → α → Links
  /-- The node behind a node, or behind the head. -/
  next : Links → Option α → Option α
  /-- The links hold the nodes, in this order. -/
  Holds : Links → List α → Prop
  holds_init : Holds init []
  holds_add {l : Links} {ps : List α} {p : α} : Holds l ps → p ∉ ps → Holds (add l p) (p :: ps)
  holds_del {l : Links} {ps : List α} {p : α} : Holds l ps → p ∈ ps → Holds (del l p) (ps.erase p)
  next_head {l : Links} {ps : List α} : Holds l ps → next l none = ps.head?
  next_node {l : Links} {qs rs : List α} {p : α} : Holds l (qs ++ p :: rs) → next l (some p) = rs.head?

/-- The saved successor that a walk starts with. -/
theorem IntrusiveList.next_first {α : Type} [BEq α] (L : IntrusiveList α) {l : L.Links} {ps : List α}
    (h : L.Holds l ps) (hne : ps ≠ []) : L.next l ps.head? = ps.tail.head? := by
  cases ps with
  | nil => exact absurd rfl hne
  | cons p ps => exact L.next_node (List.nil_append (p :: ps) ▸ h)

/-- The links of a doubly linked ring; `none` is the head. -/
structure Ring (α : Type) where
  next : Option α → Option α
  prev : Option α → Option α

namespace Ring

variable {α : Type}

/-- A head that points to itself. -/
def init : Ring α := ⟨fun _ => none, fun _ => none⟩

section Operations

variable [DecidableEq α]

/-- `next->prev = p; p->next = next; p->prev = head; head->next = p` -/
def add (r : Ring α) (p : α) : Ring α where
  next := Function.update (Function.update r.next (some p) (r.next none)) none (some p)
  prev := Function.update (Function.update r.prev (r.next none) (some p)) (some p) none

/-- `next->prev = prev; prev->next = next`, and the node points to itself -/
def del (r : Ring α) (p : α) : Ring α where
  next := Function.update (Function.update r.next (r.prev (some p)) (r.next (some p))) (some p) (some p)
  prev := Function.update (Function.update r.prev (r.next (some p)) (r.prev (some p))) (some p) (some p)

end Operations

/-! ## Segments -/

/-- The links lead from `a` through the nodes to `b`, and back. -/
def Segment (r : Ring α) : Option α → List α → Option α → Prop
  | a, [], b => r.next a = b ∧ r.prev b = a
  | a, p :: ps, b => r.next a = some p ∧ r.prev (some p) = a ∧ Segment r (some p) ps b

/-- The links lead from the head through the nodes to the head. -/
def Holds (r : Ring α) (ps : List α) : Prop := r.Segment none ps none ∧ ps.Nodup

variable {r r' : Ring α} {a b : Option α} {p : α} {ps qs rs : List α}

theorem segment_append : r.Segment a (qs ++ p :: rs) b ↔ r.Segment a qs (some p) ∧ r.Segment (some p) rs b := by
  induction qs generalizing a with
  | nil => simp only [List.nil_append, Segment, and_assoc]
  | cons q qs ih =>
    simp only [List.cons_append, Segment, ih, and_assoc]

theorem Segment.next (h : r.Segment a ps b) : r.next a = (ps.head?.map some).getD b := by
  cases ps with
  | nil => exact h.1
  | cons p ps => exact h.1

/-- Links that are not on the way are not read. -/
theorem Segment.congr (h : r.Segment a ps b) (hnext : ∀ x ∈ a :: ps.map some, r'.next x = r.next x)
    (hprev : ∀ x ∈ b :: ps.map some, r'.prev x = r.prev x) : r'.Segment a ps b := by
  induction ps generalizing a with
  | nil => exact ⟨(hnext a List.mem_cons_self).trans h.1, (hprev b List.mem_cons_self).trans h.2⟩
  | cons p ps ih =>
    obtain ⟨h₁, h₂, h₃⟩ := h
    have hp : some p ∈ b :: (p :: ps).map some := by simp
    refine ⟨(hnext a List.mem_cons_self).trans h₁, (hprev _ hp).trans h₂, ih h₃ ?_ ?_⟩
    · exact fun x hx => hnext x (List.mem_cons_of_mem _ hx)
    · intro x hx
      refine hprev x ?_
      rcases List.mem_cons.1 hx with rfl | hx
      · exact List.mem_cons_self
      · exact List.mem_cons_of_mem _ (List.mem_cons_of_mem _ hx)

/-! ## The operations -/

private theorem some_ne {y : α} (hy : y ∈ ps) (hp : p ∉ ps) : some y ≠ some p :=
  fun e => hp (Option.some.inj e ▸ hy)

section Operations

variable [DecidableEq α]

theorem add_next (r : Ring α) (p : α) (x : Option α) :
    (r.add p).next x = if x = none then some p else if x = some p then r.next none else r.next x := by
  simp only [add, Function.update_apply]

theorem add_prev (r : Ring α) (p : α) (x : Option α) :
    (r.add p).prev x = if x = some p then none else if x = r.next none then some p else r.prev x := by
  simp only [add, Function.update_apply]

theorem del_next (r : Ring α) (p : α) (x : Option α) :
    (r.del p).next x =
      if x = some p then some p else if x = r.prev (some p) then r.next (some p) else r.next x := by
  simp only [del, Function.update_apply]

theorem del_prev (r : Ring α) (p : α) (x : Option α) :
    (r.del p).prev x =
      if x = some p then some p else if x = r.next (some p) then r.prev (some p) else r.prev x := by
  simp only [del, Function.update_apply]

end Operations

theorem holds_init : (init : Ring α).Holds [] := ⟨⟨rfl, rfl⟩, List.nodup_nil⟩

variable [DecidableEq α]

theorem Holds.add (h : r.Holds ps) (hp : p ∉ ps) : (r.add p).Holds (p :: ps) := by
  have hsome : (r.add p).next (some p) = r.next none := by
    rw [add_next, if_neg (Option.some_ne_none p), if_pos rfl]
  refine ⟨⟨?_, ?_, ?_⟩, List.nodup_cons.2 ⟨hp, h.2⟩⟩
  · rw [add_next, if_pos rfl]
  · rw [add_prev, if_pos rfl]
  · cases ps with
    | nil =>
      obtain ⟨h₁, -⟩ := h.1
      refine ⟨hsome.trans h₁, ?_⟩
      rw [add_prev, if_neg (Option.some_ne_none p).symm, h₁, if_pos rfl]
    | cons q qs =>
      obtain ⟨h₁, -, h₃⟩ := h.1
      obtain ⟨hq, -⟩ := List.nodup_cons.1 h.2
      have hpq : p ≠ q := fun e => hp (e ▸ List.mem_cons_self)
      refine ⟨hsome.trans h₁, ?_, h₃.congr ?_ ?_⟩
      · rw [add_prev, if_neg (by simpa using hpq.symm), h₁, if_pos rfl]
      · intro x hx
        obtain ⟨y, hy, rfl⟩ := List.mem_map.1 (show x ∈ (q :: qs).map some from hx)
        rw [add_next, if_neg (Option.some_ne_none y), if_neg (some_ne hy hp)]
      · intro x hx
        -- the head and the nodes behind `q`
        have hne : x ≠ some p ∧ x ≠ some q := by
          rcases List.mem_cons.1 hx with rfl | hx
          · exact ⟨(Option.some_ne_none p).symm, (Option.some_ne_none q).symm⟩
          · obtain ⟨y, hy, rfl⟩ := List.mem_map.1 hx
            exact ⟨some_ne (List.mem_cons_of_mem _ hy) hp, some_ne hy hq⟩
        rw [add_prev, if_neg hne.1, h₁, if_neg hne.2]

/-- A node between two others is taken out. -/
theorem Segment.del (h : r.Segment a (qs ++ p :: rs) b) (hnodup : (qs ++ p :: rs).Nodup)
    (ha : a ∉ (qs ++ p :: rs).map some) (hb : b ∉ (qs ++ p :: rs).map some) : (r.del p).Segment a (qs ++ rs) b := by
  have hap : a ≠ some p := fun e => ha (e ▸ List.mem_map.2 ⟨p, by simp, rfl⟩)
  have hbp : b ≠ some p := fun e => hb (e ▸ List.mem_map.2 ⟨p, by simp, rfl⟩)
  induction qs generalizing a with
  | nil =>
    obtain ⟨-, hprev, hrs⟩ := h
    obtain ⟨hp, hrsd⟩ := List.nodup_cons.1 hnodup
    have hnext : (r.del p).next a = r.next (some p) := by
      rw [del_next, if_neg hap, hprev, if_pos rfl]
    cases rs with
    | nil =>
      refine ⟨hnext.trans hrs.1, ?_⟩
      rw [del_prev, if_neg hbp, hrs.1, if_pos rfl, hprev]
    | cons q rs =>
      obtain ⟨h₁, -, h₃⟩ := hrs
      have hpq : q ≠ p := fun e => hp (e ▸ List.mem_cons_self)
      refine ⟨hnext.trans h₁, ?_, h₃.congr ?_ ?_⟩
      · rw [del_prev, if_neg (by simpa using hpq), h₁, if_pos rfl, hprev]
      · intro x hx
        obtain ⟨y, hy, rfl⟩ := List.mem_map.1 (show x ∈ (q :: rs).map some from hx)
        have hya : some y ≠ a := fun e => ha (e ▸ List.mem_map.2 ⟨y, by simp [List.mem_cons.1 hy], rfl⟩)
        rw [del_next, if_neg (some_ne hy hp), hprev, if_neg hya]
      · intro x hx
        have hne : x ≠ some p ∧ x ≠ some q := by
          rcases List.mem_cons.1 hx with rfl | hx
          · exact ⟨hbp, fun e => hb (e ▸ List.mem_map.2 ⟨q, by simp, rfl⟩)⟩
          · obtain ⟨y, hy, rfl⟩ := List.mem_map.1 hx
            exact ⟨some_ne (List.mem_cons_of_mem _ hy) hp, some_ne hy (List.nodup_cons.1 hrsd).1⟩
        rw [del_prev, if_neg hne.1, h₁, if_neg hne.2]
  | cons q qs ih =>
    obtain ⟨h₁, h₂, h₃⟩ := h
    obtain ⟨hq, hd⟩ := List.nodup_cons.1 hnodup
    have hqp : q ≠ p := fun e => hq (by simp [e])
    have hqmem : some q ∉ (qs ++ p :: rs).map some := by simpa using hq
    have hb' : b ∉ (qs ++ p :: rs).map some := fun hm => hb (List.mem_cons_of_mem _ hm)
    obtain ⟨hqs, hrs⟩ := segment_append.1 h₃
    refine ⟨?_, ?_, ih h₃ hd hqmem hb' (by simpa using hqp)⟩
    · -- what is in front of `p` is `q` or behind it
      have hfront : ∀ {c : Option α} {l : List α}, r.Segment c l (some p) → r.prev (some p) ∈ c :: l.map some := by
        intro c l hl
        induction l generalizing c with
        | nil => exact hl.2 ▸ List.mem_cons_self
        | cons y l ih => exact List.mem_cons_of_mem _ (ih hl.2.2)
      have hne : a ≠ r.prev (some p) := by
        rintro rfl
        refine ha ?_
        rw [List.map_append]
        exact List.mem_append_left _ (hfront hqs)
      rw [del_next, if_neg hap, if_neg hne]
      exact h₁
    · have hne : some q ≠ r.next (some p) := by
        rw [hrs.next]
        cases rs with
        | nil => exact fun e => hb (by rw [← show some q = b from e]; simp)
        | cons y rs =>
          rintro e
          cases e
          exact hq (by simp)
      rw [del_prev, if_neg (by simpa using hqp), if_neg hne]
      exact h₂

theorem Holds.del (h : r.Holds ps) (hp : p ∈ ps) : (r.del p).Holds (ps.erase p) := by
  obtain ⟨qs, rs, rfl⟩ := List.append_of_mem hp
  have hqs : p ∉ qs := fun hm => (List.nodup_append.1 h.2).2.2 p hm p List.mem_cons_self rfl
  have herase : (qs ++ p :: rs).erase p = qs ++ rs := by
    rw [List.erase_append_right _ hqs, List.erase_cons_head]
  rw [herase]
  refine ⟨h.1.del h.2 (by simp) (by simp), ?_⟩
  exact (List.nodup_cons.1 (List.nodup_middle.1 h.2)).2

end Ring

/-- Doubly linked rings are intrusive lists. -/
def ringList (α : Type) [DecidableEq α] : IntrusiveList α where
  Links := Ring α
  init := Ring.init
  add := Ring.add
  del := Ring.del
  next := Ring.next
  Holds := Ring.Holds
  holds_init := Ring.holds_init
  holds_add h hp := h.add hp
  holds_del h hp := h.del hp
  next_head {_ ps} h := by
    rw [h.1.next]
    cases ps <;> rfl
  next_node {_ _ rs _} h := by
    rw [(Ring.segment_append.1 h.1).2.next]
    cases rs <;> rfl

end Lorie.Lib
