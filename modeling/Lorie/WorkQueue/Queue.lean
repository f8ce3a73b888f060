import Lorie.Lib.LinkedList
import Lorie.Lib.Transition
import Mathlib.Data.List.Perm.Subperm

/-!
# The work queue

`QueueWorkProc` appends an item from any thread; the X thread takes items in passes (`ProcessWorkQueue`,
`ProcessWorkQueueZombies`, `ClearWorkQueue`), and the functions of the items may start passes again. The queue is a
linked list under a lock: what is done under the lock is one step, and so is a call of `malloc` or `free`.

An item is named by its address, which `malloc` may reuse. The X thread is a stack of passes; the function of an item
returns what it likes. `sequence` is unbounded: the 64-bit counter comes round after `2 ^ 64` calls of `append`.

History: `id`, the number of the acceptance of an item, `accepted` and `finished`. No step reads them.

- `Inv`: the nodes of the list, and where every item and every piece of memory is;
- `queue_conserves`: in every run the list is sorted, its tail is right, and every accepted item is in one state.
-/

namespace Lorie.WorkQueue

open Lorie.Lib

/-- `WorkItem`; its `next` is a link of the list. -/
structure WorkItem where
  client : Option Nat
  sequence : Nat
  /-- History: the number of the acceptance. -/
  id : Nat
  deriving DecidableEq, Repr

inductive Pass where
  /-- `ProcessWorkQueue` -/
  | process
  /-- `ProcessWorkQueueZombies` -/
  | zombies
  /-- `ClearWorkQueue` -/
  | clear
  deriving DecidableEq, Repr

/-- Where a pass stands. -/
inductive Stage where
  /-- Before `take`. -/
  | loop
  /-- In the function of an item. -/
  | running (p : Nat)
  /-- With an item whose function returned, or is not called. -/
  | returned (p : Nat) (done : Bool)
  deriving DecidableEq, Repr

structure Frame where
  pass : Pass
  last : Nat
  stage : Stage
  deriving DecidableEq, Repr

/-- How an item ended. -/
inductive Outcome where
  | executed
  | zombie
  | cleared
  deriving DecidableEq, Repr

structure State where
  items : Nat → WorkItem
  links : Links
  sequence : Nat
  /-- The memory that is in use. -/
  allocated : List Nat
  /-- The items of calls of `QueueWorkProc` before `append`. -/
  preparing : List Nat
  /-- The clients with `clientGone`. -/
  gone : List Nat
  /-- The passes of the X thread, the innermost first. -/
  stack : List Frame
  /-- History: how many items were accepted. -/
  accepted : Nat
  /-- History: the items that ended. -/
  finished : List (Nat × Outcome)

namespace Frame

/-- The item that a pass has. -/
def held (f : Frame) : List Nat :=
  match f.stage with
  | .loop => []
  | .running p | .returned p _ => [p]

/-- The item that a pass has and that did not end. -/
def executing (f : Frame) : List Nat :=
  match f.stage with
  | .loop => []
  | .running p => [p]
  | .returned p done => if done then [] else [p]

end Frame

namespace State

def init : State :=
  { items := fun _ => ⟨none, 0, 0⟩, links := .empty, sequence := 0, allocated := [], preparing := [], gone := [],
    stack := [], accepted := 0, finished := [] }

/-- `append` -/
def append (s : State) (p : Nat) : State :=
  { s with
    sequence := s.sequence + 1
    items := Function.update s.items p { s.items p with sequence := s.sequence + 1 }
    links := s.links.push p }

/-- The items that `take` goes past. -/
def skip (s : State) (last : Nat) (zombiesOnly : Bool) (p : Nat) : Bool :=
  (s.items p).sequence ≤ last && zombiesOnly &&
    match (s.items p).client with
    | none => true
    | some c => !s.gone.contains c

/-- `take`: the item and the list without it. The list has no more nodes than memory is in use. -/
def take (s : State) (last : Nat) (zombiesOnly : Bool) : Option (Nat × Links) :=
  let cursor := s.links.walk (s.skip last zombiesOnly) s.allocated.length .head
  match s.links.cell cursor with
  | some p => if (s.items p).sequence ≤ last then some (p, s.links.remove cursor p) else none
  | none => none

end State

inductive Action where
  /-- `malloc` in `QueueWorkProc`. -/
  | malloc (p : Nat) (client : Option Nat)
  /-- `append` in `QueueWorkProc`. -/
  | queue (p : Nat)
  /-- A call of a pass, up to `lastSequence`. -/
  | enter (pass : Pass)
  /-- `take` in the innermost pass. -/
  | take
  /-- The function of the innermost item returns. -/
  | ret (done : Bool)
  /-- `free` or `append` behind it. -/
  | dispose
  /-- A client is gone. -/
  | closeClient (c : Nat)
  deriving DecidableEq, Repr

/-- One step of the X thread or of a caller of `QueueWorkProc`. -/
def step (s : State) : Action → Option State
  | .malloc p client =>
    if p ∈ s.allocated then none
    else some { s with
      items := Function.update s.items p ⟨client, 0, 0⟩
      allocated := p :: s.allocated
      preparing := p :: s.preparing }
  | .queue p =>
    if p ∈ s.preparing then
      some (State.append { s with
        items := Function.update s.items p { s.items p with id := s.accepted }
        preparing := s.preparing.erase p
        accepted := s.accepted + 1 } p)
    else none
  | .enter pass =>
    match s.stack with
    | ⟨_, _, .loop⟩ :: _ | ⟨_, _, .returned _ _⟩ :: _ => none
    | _ => some { s with stack := ⟨pass, s.sequence, .loop⟩ :: s.stack }
  | .take =>
    match s.stack with
    | ⟨pass, last, .loop⟩ :: rest =>
      match s.take last (pass = .zombies) with
      | some (p, links) =>
        if pass = .clear then
          some { s with
            links := links
            stack := ⟨pass, last, .returned p true⟩ :: rest
            finished := s.finished ++ [((s.items p).id, .cleared)] }
        else some { s with links := links, stack := ⟨pass, last, .running p⟩ :: rest }
      | none => some { s with stack := rest }
    | _ => none
  | .ret done =>
    match s.stack with
    | ⟨pass, last, .running p⟩ :: rest =>
      if pass = .process ∧ !done then some { s with stack := ⟨pass, last, .returned p false⟩ :: rest }
      else
        some { s with
          stack := ⟨pass, last, .returned p true⟩ :: rest
          finished := s.finished ++ [((s.items p).id, if pass = .process then .executed else .zombie)] }
    | _ => none
  | .dispose =>
    match s.stack with
    | ⟨pass, last, .returned p done⟩ :: rest =>
      if done then some { s with stack := ⟨pass, last, .loop⟩ :: rest, allocated := s.allocated.erase p }
      else some (State.append { s with stack := ⟨pass, last, .loop⟩ :: rest } p)
    | _ => none
  | .closeClient c => some { s with gone := c :: s.gone }

/-! ## Where the items are -/

/-- The items that passes have. -/
def held (stack : List Frame) : List Nat := stack.flatMap Frame.held

/-- The items that are being executed. -/
def executing (stack : List Frame) : List Nat := stack.flatMap Frame.executing

/-- The numbers of items. -/
def ids (items : Nat → WorkItem) (ps : List Nat) : List Nat := ps.map fun p => (items p).id

/-- The numbers of the items that ended. -/
def ended (finished : List (Nat × Outcome)) : List Nat := finished.map Prod.fst

namespace State

/-- The list holds `ps`, sorted by sequence numbers that were given out. -/
structure Ordered (s : State) (ps : List Nat) : Prop where
  holds : s.links.Holds ps
  sorted : ps.Pairwise fun p q => (s.items p).sequence < (s.items q).sequence
  bound : ∀ p ∈ ps, (s.items p).sequence ≤ s.sequence

/-- The list is ordered; every piece of memory in use is an item in one place; every accepted item is queued, being
executed or ended, once. -/
structure Inv (s : State) (ps : List Nat) : Prop where
  ordered : s.Ordered ps
  places : ∀ p : Nat, ps.count p + s.preparing.count p + (held s.stack).count p = s.allocated.count p
  once : ∀ p : Nat, s.allocated.count p ≤ 1
  states : ∀ i : Nat, (ids s.items ps).count i + (ids s.items (executing s.stack)).count i + (ended s.finished).count i =
    if i < s.accepted then 1 else 0

variable {s t : State} {ps : List Nat} {p : Nat}

theorem Inv.init : State.init.Inv [] where
  ordered := ⟨.empty, List.Pairwise.nil, nofun⟩
  places _ := rfl
  once _ := Nat.zero_le _
  states _ := rfl

/-! ## The order of the list -/

/-- What the list does not see does not matter. -/
theorem Ordered.congr (h : s.Ordered ps) (hl : t.links = s.links) (hseq : t.sequence = s.sequence)
    (hi : ∀ q ∈ ps, (t.items q).sequence = (s.items q).sequence) : t.Ordered ps where
  holds := by
    rw [hl]
    exact h.holds
  sorted := by
    refine List.Pairwise.imp_of_mem ?_ h.sorted
    intro a b ha hb hlt
    rw [hi a ha, hi b hb]
    exact hlt
  bound := by
    intro q hq
    rw [hi q hq, hseq]
    exact h.bound q hq

theorem append_items_of_ne (s : State) {q : Nat} (hq : q ≠ p) : (s.append p).items q = s.items q :=
  Function.update_of_ne hq _ _

theorem append_items_self (s : State) : (s.append p).items p = { s.items p with sequence := s.sequence + 1 } :=
  Function.update_self _ _ _

/-- An item gets a new sequence number and goes to the end. -/
theorem Ordered.append (h : s.Ordered ps) (hp : p ∉ ps) : (s.append p).Ordered (ps ++ [p]) := by
  have hne : ∀ q ∈ ps, (s.append p).items q = s.items q := by
    intro q hq
    refine s.append_items_of_ne ?_
    rintro rfl
    exact hp hq
  have hself : ((s.append p).items p).sequence = s.sequence + 1 := by rw [append_items_self]
  constructor
  · exact h.holds.push hp
  · rw [List.pairwise_append]
    refine ⟨?_, List.pairwise_singleton _ _, ?_⟩
    · refine List.Pairwise.imp_of_mem ?_ h.sorted
      intro a b ha hb hlt
      rw [hne a ha, hne b hb]
      exact hlt
    · intro a ha b hb
      rw [List.mem_singleton.1 hb, hself, hne a ha]
      have := h.bound a ha
      omega
  · intro q hq
    show ((s.append p).items q).sequence ≤ s.sequence + 1
    rcases List.mem_append.1 hq with hq | hq
    · rw [hne q hq]
      have := h.bound q hq
      omega
    · have hlast : ((s.append p).items q).sequence = s.sequence + 1 := by rw [List.mem_singleton.1 hq, hself]
      omega

/-- A list without one of its items is ordered. -/
theorem Ordered.remove {qs : List Nat} (h : s.Ordered (ps ++ p :: qs)) (hi : t.items = s.items)
    (hseq : t.sequence = s.sequence) (hl : t.links = s.links.remove (Links.lastLink .head ps) p) :
    t.Ordered (ps ++ qs) where
  holds := by
    rw [hl]
    exact h.holds.remove
  sorted := by
    rw [hi]
    exact h.sorted.sublist (List.Sublist.append_left (List.sublist_cons_self p qs) ps)
  bound := by
    intro q hq
    rw [hi, hseq]
    refine h.bound q ?_
    rcases List.mem_append.1 hq with hq | hq
    · exact List.mem_append_left _ hq
    · exact List.mem_append_right _ (List.mem_cons_of_mem _ hq)

/-! ## The places of the items -/

/-- The list has no more items than memory is in use. -/
theorem Inv.length_le (h : s.Inv ps) : ps.length ≤ s.allocated.length := by
  have hsub : ps ⊆ s.allocated := by
    intro q hq
    have hpos := List.count_pos_iff.2 hq
    have hplaces := h.places q
    exact List.count_pos_iff.1 (by omega)
  exact (h.ordered.holds.nodup.subperm hsub).length_le

theorem executing_sub_held {stack : List Frame} (h : p ∈ executing stack) : p ∈ held stack := by
  obtain ⟨f, hf, hp⟩ := List.mem_flatMap.1 h
  refine List.mem_flatMap.2 ⟨f, hf, ?_⟩
  unfold Frame.executing at hp
  unfold Frame.held
  cases hst : f.stage with
  | loop => simp [hst] at hp
  | running q => simpa [hst] using hp
  | returned q done =>
    cases done
    · simpa [hst] using hp
    · simp [hst] at hp

/-- An item outside a list keeps its numbers. -/
theorem ids_update {items : Nat → WorkItem} {qs : List Nat} {w : WorkItem} (hp : p ∉ qs) :
    ids (Function.update items p w) qs = ids items qs := by
  refine List.map_congr_left fun q hq => ?_
  rw [Function.update_of_ne]
  rintro rfl
  exact hp hq

theorem ids_append (items : Nat → WorkItem) (qs rs : List Nat) : ids items (qs ++ rs) = ids items qs ++ ids items rs :=
  List.map_append

theorem held_cons (f : Frame) (stack : List Frame) : held (f :: stack) = f.held ++ held stack := List.flatMap_cons

theorem executing_cons (f : Frame) (stack : List Frame) : executing (f :: stack) = f.executing ++ executing stack :=
  List.flatMap_cons

/-- What `take` does to the list. -/
theorem Inv.take {last : Nat} {zombiesOnly : Bool} {links : Links} (h : s.Inv ps)
    (ht : s.take last zombiesOnly = some (p, links)) :
    ∃ as bs, ps = as ++ p :: bs ∧ links = s.links.remove (Links.lastLink .head as) p := by
  obtain ⟨as, has⟩ : ∃ as, as = ps.takeWhile (s.skip last zombiesOnly) := ⟨_, rfl⟩
  obtain ⟨bs, hbs⟩ : ∃ bs, ps = as ++ bs := ⟨_, by rw [has]; exact List.takeWhile_append_dropWhile.symm⟩
  have hwalk := h.ordered.holds.walk (s.skip last zombiesOnly) h.length_le
  have hholds := h.ordered.holds
  rw [hbs] at hholds
  have hcell := hholds.cell_lastLink
  simp only [State.take, hwalk, ← has, hcell] at ht
  cases bs with
  | nil => cases ht
  | cons q bs =>
    simp only [List.head?_cons] at ht
    split at ht
    · cases ht
      exact ⟨as, bs, hbs, rfl⟩
    · cases ht

/-! ## The steps -/

theorem Inv.malloc {client : Option Nat} (h : s.Inv ps) (hs : step s (.malloc p client) = some t) : t.Inv ps := by
  simp only [step] at hs
  split at hs
  · cases hs
  · rename_i hp
    cases hs
    have hzero : s.allocated.count p = 0 := List.count_eq_zero.2 hp
    have hplaces := h.places p
    have hps : p ∉ ps := List.count_eq_zero.1 (by omega)
    have hheld : p ∉ held s.stack := List.count_eq_zero.1 (by omega)
    have hexec : p ∉ executing s.stack := fun hm => hheld (executing_sub_held hm)
    refine ⟨h.ordered.congr rfl rfl ?_, ?_, ?_, ?_⟩
    · intro q hq
      dsimp only
      rw [Function.update_of_ne]
      rintro rfl
      exact hps hq
    · intro q
      have := h.places q
      simp only [List.count_cons]
      omega
    · intro q
      have := h.once q
      simp only [List.count_cons]
      by_cases hq : p = q
      · subst hq
        simp [hzero]
      · simp [hq, this]
    · intro i
      dsimp only
      rw [ids_update hps, ids_update hexec]
      exact h.states i

theorem Inv.queue (h : s.Inv ps) (hs : step s (.queue p) = some t) : t.Inv (ps ++ [p]) := by
  simp only [step] at hs
  split at hs
  · rename_i hp
    cases hs
    have hpos := List.count_pos_iff.2 hp
    have hplaces := h.places p
    have honce := h.once p
    have hps : p ∉ ps := List.count_eq_zero.1 (by omega)
    have hheld : p ∉ held s.stack := List.count_eq_zero.1 (by omega)
    have hexec : p ∉ executing s.stack := fun hm => hheld (executing_sub_held hm)
    refine ⟨Ordered.append (h.ordered.congr rfl rfl ?_) hps, ?_, h.once, ?_⟩
    · intro q hq
      dsimp only
      rw [Function.update_of_ne]
      rintro rfl
      exact hps hq
    · intro q
      have := h.places q
      show (ps ++ [p]).count q + (s.preparing.erase p).count q + (held s.stack).count q = s.allocated.count q
      by_cases hq : p = q
      · subst hq
        rw [List.count_append, List.count_singleton_self, List.count_erase_self]
        omega
      · rw [List.count_append, List.count_erase_of_ne (Ne.symm hq), List.count_singleton]
        simp [hq, this]
    · intro i
      have hstates := h.states i
      simp only [State.append]
      rw [ids_update hexec, ids_update hexec]
      simp only [ids, List.map_append, List.map_cons, List.map_nil, Function.update_self, List.count_append]
      show (ids _ ps).count i + _ + (ids s.items (executing s.stack)).count i + (ended s.finished).count i = _
      rw [ids_update hps, ids_update hps, List.count_singleton]
      by_cases hi : s.accepted = i
      · subst hi
        simp at hstates ⊢
        omega
      · have hlt : i < s.accepted + 1 ↔ i < s.accepted := by omega
        simp only [beq_iff_eq, hi, if_false, hlt]
        omega
  · cases hs

theorem Inv.enter {pass : Pass} (h : s.Inv ps) (hs : step s (.enter pass) = some t) : t.Inv ps := by
  simp only [step] at hs
  split at hs
  · cases hs
  · cases hs
  · cases hs
    exact ⟨h.ordered.congr rfl rfl fun _ _ => rfl, h.places, h.once, h.states⟩

/-- A pass does something to the item it has. -/
theorem Inv.top {pass : Pass} {last : Nat} {stage : Stage} {rest : List Frame} (h : s.Inv ps)
    (hstack : s.stack = ⟨pass, last, stage⟩ :: rest) :
    (∀ q : Nat, ps.count q + s.preparing.count q + ((Frame.held ⟨pass, last, stage⟩).count q + (held rest).count q) =
      s.allocated.count q) ∧
    ∀ i : Nat, (ids s.items ps).count i + ((ids s.items (Frame.executing ⟨pass, last, stage⟩)).count i +
      (ids s.items (executing rest)).count i) + (ended s.finished).count i = if i < s.accepted then 1 else 0 := by
  refine ⟨fun q => ?_, fun i => ?_⟩
  · have := h.places q
    rw [hstack, held_cons, List.count_append] at this
    exact this
  · have := h.states i
    rw [hstack, executing_cons, ids_append, List.count_append] at this
    exact this

theorem Inv.takeStep (h : s.Inv ps) (hs : step s .take = some t) : ∃ qs, t.Inv qs := by
  simp only [step] at hs
  split at hs
  · rename_i pass last rest hstack
    obtain ⟨hplaces, hstates⟩ := h.top hstack
    cases htake : s.take last (pass = .zombies) with
    | none =>
      simp only [htake] at hs
      cases hs
      refine ⟨ps, h.ordered.congr rfl rfl fun _ _ => rfl, fun q => ?_, h.once, fun i => ?_⟩
      · simpa [Frame.held] using hplaces q
      · simpa [Frame.executing, ids] using hstates i
    | some item =>
      obtain ⟨p, links⟩ := item
      obtain ⟨as, bs, rfl, hlinks⟩ := h.take htake
      simp only [htake] at hs
      refine ⟨as ++ bs, ?_⟩
      have hcount : ∀ q : Nat, (as ++ p :: bs).count q = (as ++ bs).count q + [p].count q := by
        intro q
        simp only [List.count_append, List.count_cons, List.count_nil]
        omega
      have hids : ∀ i : Nat, (ids s.items (as ++ p :: bs)).count i =
          (ids s.items (as ++ bs)).count i + [(s.items p).id].count i := by
        intro i
        simp only [ids, List.map_append, List.map_cons, List.count_append, List.count_cons, List.count_nil]
        omega
      split at hs
      all_goals
        cases hs
        refine ⟨h.ordered.remove rfl rfl hlinks, fun q => ?_, h.once, fun i => ?_⟩
      · have := hplaces q
        rw [hcount] at this
        simp only [held_cons, Frame.held, List.count_append, List.count_nil] at this ⊢
        omega
      · have := hstates i
        rw [hids] at this
        simp only [executing_cons, Frame.executing, if_true, List.nil_append, ended, List.map_append, List.map_cons,
          List.map_nil, List.count_append, ids, List.count_nil] at this ⊢
        omega
      · have := hplaces q
        rw [hcount] at this
        simp only [held_cons, Frame.held, List.count_append, List.count_nil] at this ⊢
        omega
      · have := hstates i
        rw [hids] at this
        simp only [executing_cons, Frame.executing, ids, List.map_append, List.map_cons, List.map_nil,
          List.count_append, List.count_nil] at this ⊢
        omega
  · cases hs

theorem Inv.ret {done : Bool} (h : s.Inv ps) (hs : step s (.ret done) = some t) : t.Inv ps := by
  simp only [step] at hs
  split at hs
  · rename_i pass last p rest hstack
    obtain ⟨hplaces, hstates⟩ := h.top hstack
    split at hs
    · cases hs
      refine ⟨h.ordered.congr rfl rfl fun _ _ => rfl, fun q => ?_, h.once, fun i => ?_⟩
      · have := hplaces q
        simp only [held_cons, Frame.held, List.count_append] at this ⊢
        exact this
      · have := hstates i
        simp only [executing_cons, Frame.executing, Bool.false_eq_true, if_false, ids_append, List.count_append] at this ⊢
        exact this
    · cases hs
      refine ⟨h.ordered.congr rfl rfl fun _ _ => rfl, fun q => ?_, h.once, fun i => ?_⟩
      · have := hplaces q
        simp only [held_cons, Frame.held, List.count_append] at this ⊢
        exact this
      · have := hstates i
        simp only [executing_cons, Frame.executing, if_true, List.nil_append, ended, List.map_append, List.map_cons,
          List.map_nil, List.count_append, ids] at this ⊢
        omega
  · cases hs

theorem Inv.dispose (h : s.Inv ps) (hs : step s .dispose = some t) : ∃ qs, t.Inv qs := by
  simp only [step] at hs
  split at hs
  · rename_i pass last p done rest hstack
    obtain ⟨hplaces, hstates⟩ := h.top hstack
    simp only [Frame.held] at hplaces
    have hself : ([p] : List Nat).count p = 1 := List.count_singleton_self
    have hp := hplaces p
    have honce := h.once p
    split at hs
    · cases hs
      refine ⟨ps, h.ordered.congr rfl rfl fun _ _ => rfl, fun q => ?_, fun q => ?_, fun i => ?_⟩
      · have := hplaces q
        simp only [held_cons, Frame.held, List.nil_append]
        by_cases hq : p = q
        · subst hq
          rw [List.count_erase_self]
          omega
        · rw [List.count_erase_of_ne (Ne.symm hq)]
          rw [List.count_singleton] at this
          simpa [hq] using this
      · exact Nat.le_trans (List.erase_sublist.count_le q) (h.once q)
      · have := hstates i
        simp only [executing_cons, Frame.executing, List.nil_append]
        rename_i hdone
        simpa [Frame.executing, hdone, ids] using this
    · rename_i hdone
      cases hs
      have hps : p ∉ ps := List.count_eq_zero.1 (by omega)
      have hrest : p ∉ held rest := List.count_eq_zero.1 (by omega)
      have hexec : p ∉ executing rest := fun hm => hrest (executing_sub_held hm)
      refine ⟨ps ++ [p], Ordered.append (h.ordered.congr rfl rfl fun _ _ => rfl) hps, fun q => ?_, h.once,
        fun i => ?_⟩
      · have := hplaces q
        simp only [State.append, held_cons, Frame.held, List.nil_append, List.count_append]
        omega
      · have := hstates i
        simp only [Frame.executing, hdone, Bool.false_eq_true, if_false] at this
        simp only [State.append, executing_cons, Frame.executing, List.nil_append]
        rw [ids_update hexec]
        simp only [ids, List.map_append, List.map_cons, List.map_nil, Function.update_self, List.count_append]
        show (ids _ ps).count i + _ + (ids s.items (executing rest)).count i + (ended s.finished).count i =
          if i < s.accepted then 1 else 0
        rw [ids_update hps]
        simp only [ids, List.map_cons, List.map_nil] at this ⊢
        omega
  · cases hs

/-- Every step keeps the invariant. -/
theorem Inv.step_inv {a : Action} (h : s.Inv ps) (hs : step s a = some t) : ∃ qs, t.Inv qs := by
  cases a with
  | malloc p client => exact ⟨ps, h.malloc hs⟩
  | queue p => exact ⟨ps ++ [p], h.queue hs⟩
  | enter pass => exact ⟨ps, h.enter hs⟩
  | take => exact h.takeStep hs
  | ret done => exact ⟨ps, h.ret hs⟩
  | dispose => exact h.dispose hs
  | closeClient c =>
    cases hs
    exact ⟨ps, h.ordered.congr rfl rfl fun _ _ => rfl, h.places, h.once, h.states⟩

end State

/-! ## Whole runs -/

/-- **The queue loses and duplicates nothing**: in every run the list is strictly increasing in sequence numbers, the
tail is its last link, and every item that was accepted, and no other, is queued, being executed or ended, in one of the
three and once. -/
theorem queue_conserves {s : State} (h : Reach step Free State.init s) :
    ∃ ps : List Nat, s.links.Holds ps ∧ s.links.tail = Links.lastLink .head ps ∧
      ps.Pairwise (fun p q => (s.items p).sequence < (s.items q).sequence) ∧
      ∀ i : Nat, (ids s.items ps).count i + (ids s.items (executing s.stack)).count i + (ended s.finished).count i =
        if i < s.accepted then 1 else 0 := by
  have hinv : ∃ ps, s.Inv ps := by
    refine Reach.invariant (I := fun s : State => ∃ ps, s.Inv ps) ⟨[], .init⟩ ?_ h
    rintro t a u ⟨ps, hps⟩ - hs
    exact hps.step_inv hs
  obtain ⟨ps, hps⟩ := hinv
  exact ⟨ps, hps.ordered.holds, hps.ordered.holds.tail, hps.ordered.sorted, hps.states⟩

/-- A function of a pass closes the client of the last item and starts a pass for zombies, whose function queues an item;
then the first item is retried. -/
def zombieReentrancy : List Action :=
  [.malloc 1 none, .queue 1, .malloc 2 none, .queue 2, .malloc 3 (some 7), .queue 3, .enter .process, .take,
    .closeClient 7, .enter .zombies, .take, .malloc 4 none, .queue 4, .ret false, .dispose, .take, .ret false, .dispose]

theorem queue_conserves_zombieReentrancy :
    ∃ s, exec step State.init zombieReentrancy = some s ∧ s.accepted = 4 ∧ s.finished = [(2, .zombie)] ∧
      s.links.tail = .next 1 ∧
      ∃ ps : List Nat, s.links.Holds ps ∧ s.links.tail = Links.lastLink .head ps ∧
        ps.Pairwise (fun p q => (s.items p).sequence < (s.items q).sequence) ∧
        ∀ i : Nat, (ids s.items ps).count i + (ids s.items (executing s.stack)).count i +
          (ended s.finished).count i = if i < s.accepted then 1 else 0 :=
  ⟨_, rfl, rfl, rfl, rfl, queue_conserves (.of_exec zombieReentrancy rfl)⟩

end Lorie.WorkQueue
