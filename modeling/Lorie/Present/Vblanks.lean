import Lorie.Lib.Ring
import Lorie.Lib.Transition
import Mathlib.Data.List.Nodup

/-!
# Queued vblanks and the media counter

`pvfb->vblank_queue` holds the vblanks that wait for `pvfb->current_msc`: `loriePresentQueueVblank` puts an entry behind
the head, `loriePresentAbortVblank` takes one out, and `loriePerformVblanks` walks the list with a saved successor and
notifies the entries that are due. A notification calls back into the driver before its entry is taken out.

The list is any `IntrusiveList`, and `calloc` is anything that does not answer with memory in use. What the calls of a
notification are is an argument of the pass. None of them aborts: Present aborts a vblank when its window or its CRTC
goes.

History: the number of an entry, and `log`, what was called and answered. No function reads them.

- `Inv`: the list holds the entries in use, newest first;
- `performWalk_rule`, `performVblanks_rule`: what every turn of a pass keeps, the pass keeps, and it returns;
- `abortVblank_eq`: an abort takes out the newest entry with the id.
-/

namespace Lorie.Present.Vblanks

open Lorie.Lib

/-! ## The queue -/

/-- `struct vblank`; its `link` is a node of the list. -/
structure Vblank where
  id : UInt64
  msc : UInt64
  /-- History: how many entries were queued before. -/
  number : Nat
  deriving DecidableEq, Repr

/-- What happens to the counter and the queue. -/
inductive Event where
  /-- `lorieRedraw` advanced the counter to `msc`. -/
  | redraw (msc : UInt64)
  /-- `loriePresentAfterFlip` set the counter to `msc` and passed it on. -/
  | flip (event_id target_msc msc : UInt64)
  /-- `loriePresentGetUstMsc` answered `msc`. -/
  | getUstMsc (msc : UInt64)
  | queue (v : Vblank)
  /-- `loriePresentAbortVblank`, and the number of the entry it took out. -/
  | abort (id : UInt64) (removed : Option Nat)
  /-- `loriePerformVblanks` starts. -/
  | pass (msc : UInt64)
  /-- `loriePerformVblanks` notifies an entry, with `msc`. -/
  | notify (v : Vblank) (msc : UInt64)
  /-- `loriePerformVblanks` returns. -/
  | ret
  deriving DecidableEq, Repr

/-- A call that a notification makes. -/
inductive Call where
  | queueVblank (event_id msc : UInt64)
  | getUstMsc
  | afterFlip (event_id target_msc : UInt64)
  deriving DecidableEq, Repr

/-- What `calloc` answers, by the number of the call and the entries in use. -/
structure Calloc where
  answer : Nat → List Nat → Option Nat
  fresh {n : Nat} {used : List Nat} {p : Nat} : answer n used = some p → p ∉ used

structure State (L : IntrusiveList Nat) where
  vblanks : Nat → Vblank
  vblank_queue : L.Links
  current_msc : UInt64
  /-- The entries in use, the last allocated first. -/
  allocated : List Nat
  /-- The calls of `calloc` -/
  callocs : Nat
  /-- History: how many entries were queued. -/
  queued : Nat
  log : List Event

namespace State

variable {L : IntrusiveList Nat}

def init : State L where
  vblanks _ := ⟨0, 0, 0⟩
  vblank_queue := L.init
  current_msc := 0
  allocated := []
  callocs := 0
  queued := 0
  log := []

/-- The entries, newest first. -/
def entries (s : State L) : List Vblank := s.allocated.map s.vblanks

/-- One more thing happened. -/
def record (s : State L) (e : Event) : State L := { s with log := s.log ++ [e] }

/-- `xorg_list_del`, and `free` -/
def remove (s : State L) (p : Nat) : State L :=
  { s with vblank_queue := L.del s.vblank_queue p, allocated := s.allocated.erase p }

variable (calloc : Calloc)

def loriePresentQueueVblank (s : State L) (event_id msc : UInt64) : State L :=
  match calloc.answer s.callocs s.allocated with
  | none => { s with callocs := s.callocs + 1 }
  | some p =>
    { s with
      vblanks := Function.update s.vblanks p ⟨event_id, msc, s.queued⟩
      vblank_queue := L.add s.vblank_queue p
      allocated := p :: s.allocated
      callocs := s.callocs + 1
      queued := s.queued + 1
      log := s.log ++ [.queue ⟨event_id, msc, s.queued⟩] }

def loriePresentGetUstMsc (s : State L) : State L := s.record (.getUstMsc s.current_msc)

def loriePresentAfterFlip (s : State L) (event_id target_msc : UInt64) : State L :=
  { s with
    current_msc := min (s.current_msc + 1) target_msc
    log := s.log ++ [.flip event_id target_msc (min (s.current_msc + 1) target_msc)] }

def call (s : State L) : Call → State L
  | .queueVblank event_id msc => s.loriePresentQueueVblank calloc event_id msc
  | .getUstMsc => s.loriePresentGetUstMsc
  | .afterFlip event_id target_msc => s.loriePresentAfterFlip event_id target_msc

def callAll (s : State L) (cs : List Call) : State L := cs.foldl (call calloc) s

/-- The loop of `loriePresentAbortVblank`, at most `fuel` turns of it. -/
def abortWalk (id : UInt64) : Nat → Option Nat → Option Nat → State L → Option (State L)
  | _, none, _, s => some (s.record (.abort id none))
  | 0, some _, _, _ => none
  | fuel + 1, some p, tmp, s =>
    if (s.vblanks p).id = id then some ((s.remove p).record (.abort id (some (s.vblanks p).number)))
    else abortWalk id fuel tmp (L.next s.vblank_queue tmp) s

/-- The list has no more nodes than entries are in use. -/
def loriePresentAbortVblank (s : State L) (id : UInt64) : Option (State L) :=
  let first := L.next s.vblank_queue none
  abortWalk id s.allocated.length first (L.next s.vblank_queue first) s

/-- `present_event_notify`, `xorg_list_del` and `free` of an entry -/
def settle (calls : Nat → List Call) (s : State L) (p : Nat) : State L :=
  ((s.record (.notify (s.vblanks p) s.current_msc)).callAll calloc (calls (s.vblanks p).number)).remove p

/-- The loop of `loriePerformVblanks`, at most `fuel` turns of it; `calls` are the calls of the notifications. -/
def performWalk (calls : Nat → List Call) : Nat → Option Nat → Option Nat → State L → Option (State L)
  | _, none, _, s => some s
  | 0, some _, _, _ => none
  | fuel + 1, some p, tmp, s =>
    let s := if (s.vblanks p).msc ≤ s.current_msc then s.settle calloc calls p else s
    performWalk calls fuel tmp (L.next s.vblank_queue tmp) s

def loriePerformVblanks (s : State L) (calls : Nat → List Call) : Option (State L) :=
  let first := L.next s.vblank_queue none
  (performWalk calloc calls s.allocated.length first (L.next s.vblank_queue first)
    (s.record (.pass s.current_msc))).map (·.record .ret)

/-- What `lorieRedraw` does to the counter and the queue. -/
def lorieRedraw (s : State L) (calls : Nat → List Call) : Option (State L) :=
  let s := { s with current_msc := s.current_msc + 1 }
  (s.record (.redraw s.current_msc)).loriePerformVblanks calloc calls

end State

inductive Action where
  /-- A call of Present. -/
  | call (c : Call)
  | abort (id : UInt64)
  | redraw (calls : Nat → List Call)
  /-- `lorieRRScreenSetSize` drains the vblanks. -/
  | setSize (calls : Nat → List Call)

def step {L : IntrusiveList Nat} (calloc : Calloc) (s : State L) : Action → Option (State L)
  | .call c => some (s.call calloc c)
  | .abort id => s.loriePresentAbortVblank id
  | .redraw calls => s.lorieRedraw calloc calls
  | .setSize calls => s.loriePerformVblanks calloc calls

/-! ## The invariant -/

section Invariant

variable {L : IntrusiveList Nat} {calloc : Calloc} {s t : State L} {p : Nat}

/-- The list holds the entries in use, newest first. -/
structure Inv (s : State L) : Prop where
  holds : L.Holds s.vblank_queue s.allocated
  nodup : s.allocated.Nodup
  newest : s.entries.Pairwise fun v w => w.number < v.number
  lt : ∀ v ∈ s.entries, v.number < s.queued

theorem Inv.init : Inv (State.init : State L) :=
  ⟨L.holds_init, List.nodup_nil, List.Pairwise.nil, List.forall_mem_nil _⟩

theorem Inv.record (h : Inv s) (e : Event) : Inv (s.record e) := ⟨h.holds, h.nodup, h.newest, h.lt⟩

theorem Inv.remove (h : Inv s) (hp : p ∈ s.allocated) : Inv (s.remove p) := by
  have hsub : (s.remove p).entries.Sublist s.entries := (List.erase_sublist).map _
  refine ⟨L.holds_del h.holds hp, h.nodup.erase p, h.newest.sublist hsub, ?_⟩
  exact fun v hv => h.lt v (hsub.subset hv)

/-- What a call leaves: the entries, behind those that are new. -/
structure Grows (s t : State L) : Prop where
  inv : Inv t
  allocated : ∃ news, t.allocated = news ++ s.allocated
  kept : ∀ p ∈ s.allocated, t.vblanks p = s.vblanks p

theorem Grows.refl (h : Inv s) : Grows s s := ⟨h, ⟨[], rfl⟩, fun _ _ => rfl⟩

theorem Grows.trans {u : State L} (h : Grows s t) (h' : Grows t u) : Grows s u := by
  obtain ⟨ns, hns⟩ := h.allocated
  obtain ⟨ms, hms⟩ := h'.allocated
  refine ⟨h'.inv, ⟨ms ++ ns, by rw [hms, hns, List.append_assoc]⟩, fun p hp => ?_⟩
  rw [h'.kept p (hns ▸ List.mem_append_right _ hp), h.kept p hp]

/-- `loriePresentQueueVblank` puts one entry in front, or none. -/
theorem queueVblank_cases (calloc : Calloc) (s : State L) (event_id msc : UInt64) :
    (∃ p, p ∉ s.allocated ∧ s.loriePresentQueueVblank calloc event_id msc =
      { s with
        vblanks := Function.update s.vblanks p ⟨event_id, msc, s.queued⟩
        vblank_queue := L.add s.vblank_queue p
        allocated := p :: s.allocated
        callocs := s.callocs + 1
        queued := s.queued + 1
        log := s.log ++ [.queue ⟨event_id, msc, s.queued⟩] }) ∨
    s.loriePresentQueueVblank calloc event_id msc = { s with callocs := s.callocs + 1 } := by
  unfold State.loriePresentQueueVblank
  cases ha : calloc.answer s.callocs s.allocated with
  | none => exact .inr rfl
  | some p => exact .inl ⟨p, calloc.fresh ha, rfl⟩

theorem entries_insert {v : Vblank} (hp : p ∉ s.allocated) :
    (p :: s.allocated).map (Function.update s.vblanks p v) = v :: s.entries := by
  rw [List.map_cons, Function.update_self]
  refine congrArg (v :: ·) (List.map_congr_left fun q hq => ?_)
  exact Function.update_of_ne (fun e : q = p => hp (e ▸ hq)) _ _

variable (calloc)

theorem Grows.call (h : Inv s) (c : Call) : Grows s (s.call calloc c) := by
  cases c with
  | getUstMsc => exact ⟨h.record _, ⟨[], rfl⟩, fun _ _ => rfl⟩
  | afterFlip event_id target_msc =>
    exact ⟨⟨h.holds, h.nodup, h.newest, h.lt⟩, ⟨[], rfl⟩, fun _ _ => rfl⟩
  | queueVblank event_id msc =>
    rcases queueVblank_cases calloc s event_id msc with ⟨p, hp, heq⟩ | heq
    · simp only [State.call, heq]
      refine ⟨⟨L.holds_add h.holds hp, List.nodup_cons.2 ⟨hp, h.nodup⟩, ?_, ?_⟩, ⟨[p], rfl⟩, fun q hq => ?_⟩
      · rw [State.entries, entries_insert hp]
        exact List.pairwise_cons.2 ⟨h.lt, h.newest⟩
      · intro v hv
        rw [State.entries, entries_insert hp] at hv
        rcases List.mem_cons.1 hv with rfl | hv
        · exact Nat.lt_succ_self _
        · exact Nat.lt_succ_of_lt (h.lt v hv)
      · exact Function.update_of_ne (fun e : q = p => hp (e ▸ hq)) _ _
    · simp only [State.call, heq]
      exact ⟨⟨h.holds, h.nodup, h.newest, h.lt⟩, ⟨[], rfl⟩, fun _ _ => rfl⟩

theorem Grows.callAll (h : Inv s) (cs : List Call) : Grows s (s.callAll calloc cs) := by
  induction cs generalizing s with
  | nil => exact .refl h
  | cons c cs ih =>
    have hc := Grows.call calloc h c
    exact hc.trans (ih hc.inv)

/-! ## The loop of a pass -/

theorem Grows.settle (h : Inv s) (calls : Nat → List Call) (qs : List Nat) {rs : List Nat}
    (heq : s.allocated = qs ++ p :: rs) :
    Inv (s.settle calloc calls p) ∧ (∃ qs', (s.settle calloc calls p).allocated = qs' ++ rs) ∧
      ∀ q ∈ s.allocated, (s.settle calloc calls p).vblanks q = s.vblanks q := by
  have hgrows := Grows.callAll calloc (h.record (.notify (s.vblanks p) s.current_msc))
    (calls (s.vblanks p).number)
  obtain ⟨news, hnews⟩ := hgrows.allocated
  have hall := hnews.trans (congrArg (news ++ ·) heq)
  have hnodup := hgrows.inv.nodup
  have hp : p ∉ news ++ qs := by
    rw [hall, ← List.append_assoc] at hnodup
    exact fun hm => (List.nodup_append.1 hnodup).2.2 p hm p List.mem_cons_self rfl
  refine ⟨hgrows.inv.remove ?_, ⟨news ++ qs, ?_⟩, hgrows.kept⟩
  · rw [hall]
    simp
  · refine (congrArg (List.erase · p) hall).trans ?_
    rw [← List.append_assoc, List.erase_append_right _ hp, List.erase_cons_head]

variable (calls : Nat → List Call)

/-- **The rule of a pass**: what every turn keeps of the state and the nodes that are ahead, the pass keeps, and it
returns. -/
theorem performWalk_rule {R : State L → List Nat → Prop}
    (hskip : ∀ s qs p rs, Inv s → s.allocated = qs ++ p :: rs → ¬ (s.vblanks p).msc ≤ s.current_msc →
      R s (p :: rs) → R s rs)
    (hdue : ∀ s qs p rs, Inv s → s.allocated = qs ++ p :: rs → (s.vblanks p).msc ≤ s.current_msc →
      R s (p :: rs) → R (s.settle calloc calls p) rs)
    {fuel : Nat} {tmp : Option Nat} (qs : List Nat) {rs : List Nat} (h : Inv s) (heq : s.allocated = qs ++ rs)
    (hR : R s rs) (hfuel : rs.length ≤ fuel) (htmp : rs ≠ [] → tmp = rs.tail.head?) :
    ∃ t, s.performWalk calloc calls fuel rs.head? tmp = some t ∧ Inv t ∧ R t [] := by
  induction rs generalizing fuel s qs tmp with
  | nil => exact ⟨s, by cases fuel <;> rfl, h, hR⟩
  | cons p rs ih =>
    cases fuel with
    | zero => exact absurd hfuel (Nat.not_succ_le_zero _)
    | succ fuel =>
      have hlen := Nat.le_of_succ_le_succ hfuel
      rw [htmp (List.cons_ne_nil _ _)]
      -- the successor of the saved successor
      have hahead : ∀ {u : State L} {qs'}, Inv u → u.allocated = qs' ++ rs → rs ≠ [] →
          L.next u.vblank_queue rs.head? = rs.tail.head? := by
        intro u qs' hu hus hne
        cases rs with
        | nil => exact absurd rfl hne
        | cons q rs => exact L.next_node (hus ▸ hu.holds)
      by_cases hd : (s.vblanks p).msc ≤ s.current_msc
      · obtain ⟨hinv, ⟨qs', heq'⟩, -⟩ := Grows.settle calloc h calls qs heq
        obtain ⟨t, ht, hres⟩ := ih qs' hinv heq' (hdue s qs p rs h heq hd hR) hlen (hahead hinv heq')
        refine ⟨t, ?_, hres⟩
        rw [← ht]
        simp only [List.head?_cons, List.tail_cons, State.performWalk, if_pos hd]
      · have heq' : s.allocated = (qs ++ [p]) ++ rs := by rw [heq, List.append_assoc]; rfl
        obtain ⟨t, ht, hres⟩ := ih _ h heq' (hskip s qs p rs h heq hd hR) hlen (hahead h heq')
        refine ⟨t, ?_, hres⟩
        rw [← ht]
        simp only [List.head?_cons, List.tail_cons, State.performWalk, if_neg hd]

/-- The rule, for a whole pass. -/
theorem performVblanks_rule {R : State L → List Nat → Prop}
    (hskip : ∀ s qs p rs, Inv s → s.allocated = qs ++ p :: rs → ¬ (s.vblanks p).msc ≤ s.current_msc →
      R s (p :: rs) → R s rs)
    (hdue : ∀ s qs p rs, Inv s → s.allocated = qs ++ p :: rs → (s.vblanks p).msc ≤ s.current_msc →
      R s (p :: rs) → R (s.settle calloc calls p) rs)
    (h : Inv s) (hR : R (s.record (.pass s.current_msc)) s.allocated) :
    ∃ t, s.loriePerformVblanks calloc calls = some (t.record .ret) ∧ Inv t ∧ R t [] := by
  have hhead := L.next_head h.holds
  obtain ⟨t, ht, hres⟩ := performWalk_rule calloc calls hskip hdue [] (h.record _) rfl hR (Nat.le_refl _)
    (L.next_first h.holds)
  refine ⟨t, ?_, hres⟩
  simp only [State.loriePerformVblanks, hhead]
  exact congrArg (Option.map (·.record .ret)) ht

/-! ## Runs -/

theorem abortWalk_eq (id : UInt64) {fuel : Nat} {tmp : Option Nat} (qs : List Nat) {rs : List Nat}
    (h : L.Holds s.vblank_queue (qs ++ rs)) (hfuel : rs.length ≤ fuel) (htmp : rs ≠ [] → tmp = rs.tail.head?) :
    State.abortWalk id fuel rs.head? tmp s =
      some (match rs.find? fun p => (s.vblanks p).id = id with
        | some p => (s.remove p).record (.abort id (some (s.vblanks p).number))
        | none => s.record (.abort id none)) := by
  induction rs generalizing fuel qs tmp with
  | nil => cases fuel <;> rfl
  | cons p rs ih =>
    cases fuel with
    | zero => exact absurd hfuel (Nat.not_succ_le_zero _)
    | succ fuel =>
      rw [htmp (List.cons_ne_nil _ _)]
      simp only [List.head?_cons, List.tail_cons, State.abortWalk]
      by_cases hid : (s.vblanks p).id = id
      · rw [if_pos hid, List.find?_cons_of_pos (by simpa using hid)]
      · have heq : qs ++ p :: rs = (qs ++ [p]) ++ rs := by rw [List.append_assoc]; rfl
        rw [heq] at h
        rw [if_neg hid, List.find?_cons_of_neg (by simpa using hid)]
        refine ih (qs ++ [p]) h (Nat.le_of_succ_le_succ hfuel) fun hne => ?_
        cases rs with
        | nil => exact absurd rfl hne
        | cons q rs => exact L.next_node h

/-- `loriePresentAbortVblank` takes out the newest entry with the id. -/
theorem abortVblank_eq (h : Inv s) (id : UInt64) :
    s.loriePresentAbortVblank id =
      some (match s.allocated.find? fun p => (s.vblanks p).id = id with
        | some p => (s.remove p).record (.abort id (some (s.vblanks p).number))
        | none => s.record (.abort id none)) := by
  have hhead := L.next_head h.holds
  unfold State.loriePresentAbortVblank
  simp only [hhead]
  exact abortWalk_eq id [] h.holds (Nat.le_refl _) (L.next_first h.holds)

theorem Inv.perform (h : Inv s) (calls : Nat → List Call) :
    ∃ t, s.loriePerformVblanks calloc calls = some t ∧ Inv t := by
  obtain ⟨t, ht, hinv, -⟩ := performVblanks_rule calloc calls
    (fun _ _ _ _ _ _ _ _ => trivial) (fun _ _ _ _ _ _ _ _ => trivial) h (show True from trivial)
  exact ⟨_, ht, hinv.record _⟩

/-- Every call returns, and keeps the invariant. -/
theorem Inv.step (h : Inv s) (a : Action) : ∃ t, Vblanks.step calloc s a = some t ∧ Inv t := by
  cases a with
  | call c => exact ⟨_, rfl, (Grows.call calloc h c).inv⟩
  | abort id =>
    refine ⟨_, abortVblank_eq h id, ?_⟩
    cases hf : s.allocated.find? fun p => (s.vblanks p).id = id with
    | none => exact h.record _
    | some p => exact (h.remove (List.mem_of_find?_eq_some hf)).record _
  | redraw calls =>
    have hnext : Inv { s with current_msc := s.current_msc + 1 } := ⟨h.holds, h.nodup, h.newest, h.lt⟩
    exact (hnext.record _).perform calloc calls
  | setSize calls => exact h.perform calloc calls

theorem Inv.reach {C : State L → Action → Prop} (h : Reach (Vblanks.step calloc) C State.init s) : Inv s := by
  refine h.invariant Inv.init fun t a u ht _ hs => ?_
  obtain ⟨u', hu, hinv⟩ := ht.step calloc a
  rw [hu] at hs
  cases hs
  exact hinv

end Invariant

end Lorie.Present.Vblanks
