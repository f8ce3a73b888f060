import Lorie.WorkQueue.Queue
import Mathlib.Data.List.TakeWhile

/-!
# A pass of the work queue

`ProcessWorkQueue` takes the items up to a snapshot of `sequence`; what is queued meanwhile, and what is queued again, has a
larger number. The functions of the items may queue work, close clients and clean up after them
(`ProcessWorkQueueZombies`), which takes items out of the list in front of the pass; other threads queue work at any time.

- `Does`: what a step does to the list, the items and the passes, with the list behind it (`does_of_step`);
- `watch`: a run with a record of what the calls since some depth of the stack took;
- `process_pass`: what a pass of `ProcessWorkQueue` has done, while it goes on and when it returns.
-/

namespace Lorie.WorkQueue

open Lorie.Lib

variable {s t : State} {ps qs : List Nat} {p : Nat} {a : Action}

namespace State

/-! ## What `take` finds -/

/-- The client of the item is gone. -/
def zombie (s : State) (p : Nat) : Bool :=
  match (s.items p).client with
  | none => false
  | some c => s.gone.contains c

theorem skip_eq (s : State) (last : Nat) (zombiesOnly : Bool) (p : Nat) :
    s.skip last zombiesOnly p = ((s.items p).sequence ≤ last && zombiesOnly && !s.zombie p) := by
  unfold skip zombie
  cases (s.items p).client <;> rfl

/-- The item that is taken stands behind items that are not taken. -/
theorem Inv.take_some {last : Nat} {zombiesOnly : Bool} {links : Links} (h : s.Inv ps)
    (ht : s.take last zombiesOnly = some (p, links)) :
    ∃ as bs, ps = as ++ p :: bs ∧ links = s.links.remove (Links.lastLink .head as) p ∧ (s.items p).sequence ≤ last ∧
      (zombiesOnly = false → as = []) ∧ (zombiesOnly = true → s.zombie p = true) := by
  have hwalk := h.ordered.holds.walk (s.skip last zombiesOnly) h.length_le
  have hsplit : ps = ps.takeWhile (s.skip last zombiesOnly) ++ ps.dropWhile (s.skip last zombiesOnly) :=
    List.takeWhile_append_dropWhile.symm
  have hholds := h.ordered.holds
  rw [hsplit] at hholds
  have hcell := hholds.cell_lastLink
  simp only [State.take, hwalk, hcell] at ht
  cases hdrop : ps.dropWhile (s.skip last zombiesOnly) with
  | nil =>
    rw [hdrop] at ht
    cases ht
  | cons q bs =>
    rw [hdrop] at ht hsplit
    simp only [List.head?_cons] at ht
    have hq : s.skip last zombiesOnly q = false := by
      have := List.head?_dropWhile_not (s.skip last zombiesOnly) ps
      rw [hdrop] at this
      exact this
    split_ifs at ht with hle
    cases ht
    refine ⟨_, bs, hsplit, rfl, hle, ?_, ?_⟩
    · rintro rfl
      apply List.takeWhile_eq_nil_iff.2
      intro _ hskip
      rw [skip_eq] at hskip
      simp at hskip
    · rintro rfl
      rw [skip_eq] at hq
      simpa [hle] using hq

/-- When no item is taken, those up to `last` are passed over. -/
theorem Inv.take_none {last : Nat} {zombiesOnly : Bool} (h : s.Inv ps) (ht : s.take last zombiesOnly = none) :
    ∀ q ∈ ps, (s.items q).sequence ≤ last → zombiesOnly = true ∧ s.zombie q = false := by
  have hwalk := h.ordered.holds.walk (s.skip last zombiesOnly) h.length_le
  have hsplit : ps = ps.takeWhile (s.skip last zombiesOnly) ++ ps.dropWhile (s.skip last zombiesOnly) :=
    List.takeWhile_append_dropWhile.symm
  have hholds := h.ordered.holds
  rw [hsplit] at hholds
  have hcell := hholds.cell_lastLink
  have hsorted := h.ordered.sorted
  rw [hsplit] at hsorted
  have hbehind : ∀ q ∈ ps.dropWhile (s.skip last zombiesOnly), last < (s.items q).sequence := by
    simp only [State.take, hwalk, hcell] at ht
    cases hdrop : ps.dropWhile (s.skip last zombiesOnly) with
    | nil => exact fun q hq => by cases hq
    | cons p bs =>
      rw [hdrop] at ht hsorted
      simp only [List.head?_cons] at ht
      split_ifs at ht with hle
      have hp : last < (s.items p).sequence := Nat.lt_of_not_le hle
      intro q hq
      rcases List.mem_cons.1 hq with rfl | hq
      · exact hp
      · exact hp.trans ((List.pairwise_cons.1 (List.pairwise_append.1 hsorted).2.1).1 q hq)
  intro q hq hle
  rw [hsplit] at hq
  rcases List.mem_append.1 hq with hq | hq
  · have hskip := List.mem_takeWhile_imp hq
    rw [skip_eq] at hskip
    simpa [hle] using hskip
  · exact absurd hle (Nat.not_le_of_lt (hbehind q hq))

/-! ## What a step does -/

/-- A step, with the items of the list before it and behind it. -/
inductive Does (s : State) (ps : List Nat) : Action → State → List Nat → Prop where
  /-- Outside the list. -/
  | quiet {a : Action} {t : State} (act : (∃ p client, a = .malloc p client) ∨ ∃ c, a = .closeClient c)
      (items : ∀ q, q ∈ ps ∨ q ∈ held s.stack → t.items q = s.items q) (stack : t.stack = s.stack)
      (sequence : t.sequence = s.sequence) (accepted : t.accepted = s.accepted) (finished : t.finished = s.finished) :
      Does s ps a t ps
  /-- A new item. -/
  | queue {p : Nat} {t : State} (items : ∀ q, q ∈ ps ∨ q ∈ held s.stack → t.items q = s.items q)
      (id : (t.items p).id = s.accepted) (new : (t.items p).sequence = s.sequence + 1) (stack : t.stack = s.stack)
      (sequence : t.sequence = s.sequence + 1) (accepted : t.accepted = s.accepted + 1)
      (finished : t.finished = s.finished) : Does s ps (.queue p) t (ps ++ [p])
  /-- A pass begins. -/
  | enter {pass : Pass} (running : ∀ f rest, s.stack = f :: rest → ∃ p, f.stage = .running p) :
      Does s ps (.enter pass) { s with stack := ⟨pass, s.sequence, .loop⟩ :: s.stack } ps
  /-- A pass takes an item and calls its function. -/
  | takes {pass : Pass} {last : Nat} {rest : List Frame} {p : Nat} {links : Links} {as bs : List Nat}
      (stack : s.stack = ⟨pass, last, .loop⟩ :: rest) (take : s.take last (pass = .zombies) = some (p, links))
      (split : ps = as ++ p :: bs) (le : (s.items p).sequence ≤ last) (first : pass ≠ .zombies → as = [])
      (gone : pass = .zombies → s.zombie p = true) (call : pass ≠ .clear) :
      Does s ps .take { s with links := links, stack := ⟨pass, last, .running p⟩ :: rest } (as ++ bs)
  /-- `ClearWorkQueue` takes an item. -/
  | clears {last : Nat} {rest : List Frame} {t : State} {qs : List Nat}
      (stack : s.stack = ⟨.clear, last, .loop⟩ :: rest) : Does s ps .take t qs
  /-- A pass returns. -/
  | leaves {pass : Pass} {last : Nat} {rest : List Frame} (stack : s.stack = ⟨pass, last, .loop⟩ :: rest)
      (take : s.take last (pass = .zombies) = none)
      (none : ∀ q ∈ ps, (s.items q).sequence ≤ last → pass = .zombies ∧ s.zombie q = false) :
      Does s ps .take { s with stack := rest } ps
  /-- The function of an item fails in `ProcessWorkQueue`. -/
  | fails {last p : Nat} {rest : List Frame} (stack : s.stack = ⟨.process, last, .running p⟩ :: rest) :
      Does s ps (.ret false) { s with stack := ⟨.process, last, .returned p false⟩ :: rest } ps
  /-- The function of an item returns, and the item ends. -/
  | ends {pass : Pass} {last p : Nat} {rest : List Frame} {done : Bool}
      (stack : s.stack = ⟨pass, last, .running p⟩ :: rest) (stopped : pass = .process → done = true) :
      Does s ps (.ret done)
        { s with
          stack := ⟨pass, last, .returned p true⟩ :: rest
          finished := s.finished ++ [((s.items p).id, if pass = .process then .executed else .zombie)] } ps
  | frees {pass : Pass} {last p : Nat} {rest : List Frame} (stack : s.stack = ⟨pass, last, .returned p true⟩ :: rest) :
      Does s ps .dispose { s with stack := ⟨pass, last, .loop⟩ :: rest, allocated := s.allocated.erase p } ps
  /-- The item is queued again. -/
  | requeues {pass : Pass} {last p : Nat} {rest : List Frame} {t : State}
      (before : s.stack = ⟨pass, last, .returned p false⟩ :: rest)
      (items : ∀ q, q ≠ p → t.items q = s.items q) (id : (t.items p).id = (s.items p).id)
      (new : (t.items p).sequence = s.sequence + 1) (stack : t.stack = ⟨pass, last, .loop⟩ :: rest)
      (sequence : t.sequence = s.sequence + 1) (accepted : t.accepted = s.accepted) (finished : t.finished = s.finished) :
      Does s ps .dispose t (ps ++ [p])

/-- An item in the list or in a pass has memory, and is in no other place. -/
theorem Inv.place (h : s.Inv ps) (hp : p ∈ ps ∨ p ∈ held s.stack) : p ∈ s.allocated ∧ p ∉ s.preparing := by
  have hplaces := h.places p
  have honce := h.once p
  have hpos : 0 < ps.count p + (held s.stack).count p := by
    rcases hp with hp | hp
    · have := List.count_pos_iff.2 hp
      omega
    · have := List.count_pos_iff.2 hp
      omega
  exact ⟨List.count_pos_iff.1 (by omega), List.count_eq_zero.1 (by omega)⟩

/-- An item that a pass has is not in the list. -/
theorem Inv.apart (h : s.Inv ps) (hp : p ∈ held s.stack) : p ∉ ps ∧ (held s.stack).count p = 1 := by
  have hplaces := h.places p
  have honce := h.once p
  have hpos := List.count_pos_iff.2 hp
  exact ⟨List.count_eq_zero.1 (by omega), by omega⟩

/-- **What a step does**, in a state with the invariant. -/
theorem does_of_step (h : s.Inv ps) (hs : step s a = some t) : ∃ qs, Does s ps a t qs ∧ t.Inv qs := by
  cases a with
  | malloc p client =>
    refine ⟨ps, ?_, h.malloc hs⟩
    simp only [step] at hs
    split_ifs at hs with hp
    cases hs
    refine .quiet (.inl ⟨p, client, rfl⟩) (fun q hq => ?_) rfl rfl rfl rfl
    exact Function.update_of_ne (ne_of_mem_of_not_mem (h.place hq).1 hp) _ _
  | queue p =>
    refine ⟨ps ++ [p], ?_, h.queue hs⟩
    simp only [step] at hs
    split_ifs at hs with hp
    cases hs
    refine .queue (fun q hq => ?_) ?_ ?_ rfl rfl rfl rfl
    · have hne : q ≠ p := fun e => (h.place hq).2 (e ▸ hp)
      rw [append_items_of_ne _ hne]
      exact Function.update_of_ne hne _ _
    · rw [append_items_self]
      simp only [Function.update_self]
    · rw [append_items_self]
  | enter pass =>
    refine ⟨ps, ?_, h.enter hs⟩
    simp only [step] at hs
    split at hs
    · cases hs
    · cases hs
    · next hloop hreturned =>
      cases hs
      refine .enter fun f rest hf => ?_
      obtain ⟨pass, last, stage⟩ := f
      cases stage with
      | loop => exact absurd hf (hloop pass last rest)
      | running p => exact ⟨p, rfl⟩
      | returned p done => exact absurd hf (hreturned pass last p done rest)
  | take =>
    obtain ⟨qs, hqs⟩ := h.takeStep hs
    simp only [step] at hs
    split at hs
    · next pass last rest hstack =>
      cases htake : s.take last (pass = .zombies) with
      | none =>
        simp only [htake] at hs
        cases hs
        obtain rfl := h.ordered.holds.unique hqs.ordered.holds
        refine ⟨ps, .leaves hstack htake fun q hq hle => ?_, hqs⟩
        simpa using h.take_none htake q hq hle
      | some item =>
        obtain ⟨p, links⟩ := item
        obtain ⟨as, bs, hsplit, hlinks, hle, hfirst, hgone⟩ := h.take_some htake
        simp only [htake] at hs
        have hholds : links.Holds (as ++ bs) := by
          rw [hlinks]
          have hholds := h.ordered.holds
          rw [hsplit] at hholds
          exact hholds.remove
        by_cases hclear : pass = .clear
        · subst hclear
          rw [if_pos rfl] at hs
          cases hs
          obtain rfl := hqs.ordered.holds.unique hholds
          exact ⟨as ++ bs, .clears hstack, hqs⟩
        · rw [if_neg hclear] at hs
          cases hs
          obtain rfl := hqs.ordered.holds.unique hholds
          refine ⟨as ++ bs, .takes hstack htake hsplit hle (fun hpass => ?_) (fun hpass => ?_) hclear, hqs⟩
          · exact hfirst (decide_eq_false hpass)
          · exact hgone (decide_eq_true hpass)
    · cases hs
  | ret done =>
    refine ⟨ps, ?_, h.ret hs⟩
    simp only [step] at hs
    split at hs
    · next pass last p rest hstack =>
      by_cases hfail : pass = .process ∧ (!done) = true
      · rw [if_pos hfail] at hs
        cases hs
        obtain ⟨rfl, hdone⟩ := hfail
        cases done with
        | true => cases hdone
        | false => exact .fails hstack
      · rw [if_neg hfail] at hs
        cases hs
        refine .ends hstack fun hpass => ?_
        cases done with
        | true => rfl
        | false => exact absurd ⟨hpass, rfl⟩ hfail
    · cases hs
  | dispose =>
    obtain ⟨qs, hqs⟩ := h.dispose hs
    simp only [step] at hs
    split at hs
    · next pass last p done rest hstack =>
      cases done with
      | true =>
        rw [if_pos rfl] at hs
        cases hs
        obtain rfl := h.ordered.holds.unique hqs.ordered.holds
        exact ⟨ps, .frees hstack, hqs⟩
      | false =>
        rw [if_neg (by decide)] at hs
        cases hs
        have hheld : p ∈ held s.stack := by
          rw [hstack]
          exact List.mem_cons_self
        have hps : p ∉ ps := (h.apart hheld).1
        have hholds := h.ordered.holds.push hps
        obtain rfl := hqs.ordered.holds.unique hholds
        refine ⟨ps ++ [p], .requeues hstack (fun q hq => ?_) ?_ ?_ rfl rfl rfl rfl, hqs⟩
        · rw [append_items_of_ne _ hq]
        · rw [append_items_self]
        · rw [append_items_self]
    · cases hs
  | closeClient c =>
    cases hs
    exact ⟨ps, .quiet (.inr ⟨c, rfl⟩) (fun _ _ => rfl) rfl rfl rfl rfl,
      h.ordered.congr rfl rfl fun _ _ => rfl, h.places, h.once, h.states⟩

end State

/-! ## A call and what it takes -/

/-- An item that was taken, with its number in the order, by the call itself or by a call in one of its functions. -/
structure Taken where
  id : Nat
  sequence : Nat
  own : Bool
  deriving DecidableEq, Repr

/-- What is recorded of a call. -/
structure Record where
  taken : List Taken := []
  /-- The items whose functions failed. -/
  failed : List Nat := []
  /-- The steps of the call itself, and the returns of its functions. -/
  steps : Nat := 0
  deriving DecidableEq, Repr

namespace Record

/-- The items whose functions the call itself called. -/
def called (r : Record) : List Nat := (r.taken.filter fun k => k.own).map Taken.id

/-- The items up to `last` that nested calls took. -/
def cleaned (r : Record) (last : Nat) : List Nat :=
  (r.taken.filter fun k => !k.own && k.sequence ≤ last).map Taken.id

/-- The item that a step takes; the call has `depth` passes below it. -/
def takenBy (depth : Nat) (s : State) : Action → List Taken
  | .take =>
    match s.stack with
    | ⟨pass, last, .loop⟩ :: rest =>
      match s.take last (pass = .zombies) with
      | some (p, _) => [⟨(s.items p).id, (s.items p).sequence, rest.length = depth⟩]
      | none => []
    | _ => []
  | _ => []

/-- The item whose function fails in a step. -/
def failedBy (depth : Nat) (s : State) : Action → List Nat
  | .ret false =>
    match s.stack with
    | ⟨.process, _, .running p⟩ :: rest => if rest.length = depth then [(s.items p).id] else []
    | _ => []
  | _ => []

/-- A step of a pass. -/
def passStep : Action → Bool
  | .take | .ret _ | .dispose => true
  | _ => false

/-- The record behind a step. -/
def observe (depth : Nat) (s : State) (a : Action) (r : Record) : Record where
  taken := r.taken ++ takenBy depth s a
  failed := r.failed ++ failedBy depth s a
  steps := r.steps + if s.stack.length = depth + 1 ∧ passStep a then 1 else 0

end Record

/-- A step, recorded for the call that has `depth` passes below it. -/
def watch (depth : Nat) (w : State × Record) (a : Action) : Option (State × Record) :=
  (step w.1 a).map fun t => (t, w.2.observe depth w.1 a)

/-- A step that starts no pass, or `ProcessWorkQueueZombies` -/
def cleans : Action → Bool
  | .enter pass => pass = .zombies
  | _ => true

/-- The call has not returned, and functions start no pass other than `ProcessWorkQueueZombies`. -/
def Within (depth : Nat) (w : State × Record) (a : Action) : Prop := depth < w.1.stack.length ∧ cleans a = true

instance (depth : Nat) (w : State × Record) (a : Action) : Decidable (Within depth w a) :=
  inferInstanceAs (Decidable (depth < w.1.stack.length ∧ cleans a = true))

section Calls

variable {pass : Pass} {last : Nat} {rest above : List Frame} {stage : Stage} {r : Record}

/-- How far the call is with the last item it called. -/
def Has (r : Record) (items : Nat → WorkItem) : Stage → Prop
  | .loop => r.steps = 3 * r.called.length
  | .running p => r.steps + 2 = 3 * r.called.length ∧ r.called.getLast? = some (items p).id
  | .returned p _ => r.steps + 1 = 3 * r.called.length ∧ r.called.getLast? = some (items p).id

/-- The call stands at `stage`, with the passes `above` in its function. -/
structure During (pass : Pass) (last : Nat) (rest : List Frame) (s : State) (r : Record) (above : List Frame)
    (stage : Stage) : Prop where
  stack : s.stack = above ++ ⟨pass, last, stage⟩ :: rest
  nested : ∀ f ∈ above, f.pass = .zombies ∧ ∀ p, f.stage ≠ .returned p false
  running : above ≠ [] → ∃ p, stage = .running p
  le : last ≤ s.sequence
  has : Has r s.items stage
  again : ∀ p, stage = .returned p false → pass = .process

/-- The innermost pass is that of the call, or one above it. -/
theorem During.top (h : During pass last rest s r above stage) {f : Frame} {fs : List Frame} (hs : s.stack = f :: fs) :
    (above = [] ∧ f = ⟨pass, last, stage⟩ ∧ fs = rest) ∨
      ∃ above', above = f :: above' ∧ fs = above' ++ ⟨pass, last, stage⟩ :: rest ∧ f.pass = .zombies ∧
        (∀ p, f.stage ≠ .returned p false) ∧ fs.length ≠ rest.length ∧ (∃ p, stage = .running p) := by
  have hstack := h.stack
  rw [hs] at hstack
  cases above with
  | nil =>
    cases hstack
    exact .inl ⟨rfl, rfl, rfl⟩
  | cons g above' =>
    cases hstack
    obtain ⟨hpass, hstage⟩ := h.nested f List.mem_cons_self
    refine .inr ⟨above', rfl, rfl, hpass, hstage, ?_, h.running (by simp)⟩
    show (above' ++ _ :: rest).length ≠ rest.length
    rw [List.length_append, List.length_cons]
    omega

/-- The call stands at its beginning. -/
theorem During.enter (s : State) (pass : Pass) :
    During pass s.sequence s.stack { s with stack := ⟨pass, s.sequence, .loop⟩ :: s.stack } {} [] .loop where
  stack := rfl
  nested f hf := by cases hf
  running h := absurd rfl h
  le := Nat.le_refl _
  has := rfl
  again p hp := by cases hp

/-- The part of the record that the stage depends on -/
theorem Has.congr {f : Frame} {r' : Record} {items items' : Nat → WorkItem} (h : Has r items f.stage)
    (hcalled : r'.called = r.called)
    (hsteps : r'.steps = r.steps) (hitems : ∀ p ∈ f.held, (items' p).id = (items p).id) :
    Has r' items' f.stage := by
  obtain ⟨pass, last, stage⟩ := f
  unfold Has at h ⊢
  rw [hcalled, hsteps]
  cases stage with
  | loop => exact h
  | running p =>
    simp only [hitems p List.mem_cons_self]
    exact h
  | returned p done =>
    simp only [hitems p List.mem_cons_self]
    exact h

/-- The items that the call and the passes above it have stay as they are in a step outside the call. -/
theorem During.mem_held (h : During pass last rest s r above stage) (hp : p ∈ Frame.held ⟨pass, last, stage⟩) :
    p ∈ held s.stack := by
  rw [h.stack]
  exact List.mem_flatMap.2 ⟨_, List.mem_append_right _ List.mem_cons_self, hp⟩

/-- The item that `take` gives -/
theorem takenBy_some {d : Nat} {p : Nat} {links : Links} (hs : s.stack = ⟨pass, last, .loop⟩ :: rest)
    (ht : s.take last (pass = .zombies) = some (p, links)) :
    Record.takenBy d s .take = [⟨(s.items p).id, (s.items p).sequence, rest.length = d⟩] := by
  simp only [Record.takenBy, hs, ht]

theorem takenBy_none {d : Nat} (hs : s.stack = ⟨pass, last, .loop⟩ :: rest)
    (ht : s.take last (pass = .zombies) = none) : Record.takenBy d s .take = [] := by
  simp only [Record.takenBy, hs, ht]

/-- A step of the call that takes no item -/
theorem observe_own {f : Frame} (hs : s.stack = f :: rest) (ha : Record.passStep a = true)
    (ht : Record.takenBy rest.length s a = []) :
    (r.observe rest.length s a).called = r.called ∧ (r.observe rest.length s a).steps = r.steps + 1 := by
  refine ⟨?_, ?_⟩
  · simp [Record.called, Record.observe, ht]
  · have hlen : s.stack.length = rest.length + 1 := by rw [hs, List.length_cons]
    simp only [Record.observe]
    rw [if_pos ⟨hlen, ha⟩]

/-- Three steps for every function that was called -/
theorem During.steps_le (h : During pass last rest s r above stage) : r.steps ≤ 3 * r.called.length := by
  have hhas := h.has
  cases stage with
  | loop =>
    have : r.steps = 3 * r.called.length := hhas
    omega
  | running p =>
    have : r.steps + 2 = 3 * r.called.length := hhas.1
    omega
  | returned p done =>
    have : r.steps + 1 = 3 * r.called.length := hhas.1
    omega

/-- A step outside the call, or in a pass above it -/
theorem During.outside {above' : List Frame} (h : During pass last rest s r above stage)
    (hstack : t.stack = above' ++ ⟨pass, last, stage⟩ :: rest)
    (hnested : ∀ f ∈ above', f.pass = .zombies ∧ ∀ p, f.stage ≠ .returned p false)
    (hrunning : above' ≠ [] → ∃ p, stage = .running p) (hsequence : s.sequence ≤ t.sequence)
    (hitems : ∀ q ∈ held s.stack, t.items q = s.items q) (htaken : ∀ k ∈ Record.takenBy rest.length s a, k.own = false)
    (hsteps : s.stack.length ≠ rest.length + 1 ∨ Record.passStep a = false) :
    During pass last rest t (r.observe rest.length s a) above' stage where
  stack := hstack
  nested := hnested
  running := hrunning
  le := h.le.trans hsequence
  has := by
    refine Has.congr (f := ⟨pass, last, stage⟩) h.has ?_ ?_ fun p hp => ?_
    · have hnone : (Record.takenBy rest.length s a).filter (fun k => k.own) = [] :=
        List.filter_eq_nil_iff.2 fun k hk => by simp [htaken k hk]
      simp [Record.called, Record.observe, List.filter_append, hnone]
    · have hno : ¬ (s.stack.length = rest.length + 1 ∧ Record.passStep a = true) := by
        rintro ⟨hlen, hstep⟩
        rcases hsteps with hne | hfalse
        · exact hne hlen
        · rw [hstep] at hfalse
          cases hfalse
      simp only [Record.observe]
      rw [if_neg hno, Nat.add_zero]
    · rw [hitems p (h.mem_held hp)]
  again := h.again

/-- A step of a pass above the call -/
theorem During.deeper (h : During pass last rest s r above stage) {f g : Frame} {fs : List Frame}
    (hs : s.stack = f :: fs) (hne : fs.length ≠ rest.length) (hpass : g.pass = .zombies)
    (hstage : ∀ p, g.stage ≠ .returned p false) (hstack : t.stack = g :: fs) (hitems : t.items = s.items)
    (hsequence : t.sequence = s.sequence) (htaken : ∀ k ∈ Record.takenBy rest.length s a, k.own = false) :
    ∃ above', During pass last rest t (r.observe rest.length s a) above' stage := by
  obtain ⟨-, -, rfl⟩ | ⟨above', rfl, rfl, -, -, -, hrunning⟩ := h.top hs
  · exact absurd rfl hne
  · refine ⟨g :: above', h.outside (hstack.trans rfl) ?_ (fun _ => hrunning) hsequence.ge (fun q _ => by rw [hitems])
      htaken (.inl ?_)⟩
    · intro f' hf'
      rcases List.mem_cons.1 hf' with rfl | hf'
      · exact ⟨hpass, hstage⟩
      · exact h.nested f' (List.mem_cons_of_mem _ hf')
    · rw [hs, List.length_cons]
      omega

/-- **One step of a call**: it goes on, or returns. -/
theorem During.step (h : During pass last rest s r above stage) (hclear : pass ≠ .clear) (hd : s.Does ps a t qs)
    (hc : cleans a = true) :
    (∃ above' stage', During pass last rest t (r.observe rest.length s a) above' stage') ∨
      (t.stack = rest ∧ t.items = s.items ∧ t.sequence = s.sequence ∧ t.gone = s.gone ∧ qs = ps ∧
        (∀ q ∈ ps, (s.items q).sequence ≤ last → pass = .zombies ∧ s.zombie q = false) ∧
        (r.observe rest.length s a).taken = r.taken ∧ (r.observe rest.length s a).failed = r.failed ∧
        (r.observe rest.length s a).steps = 3 * r.called.length + 1) := by
  cases hd with
  | quiet act items stack sequence accepted finished =>
    refine .inl ⟨above, stage, h.outside (stack.trans h.stack) h.nested h.running sequence.ge
      (fun q hq => items q (.inr hq)) ?_ (.inr ?_)⟩
    · rintro k hk
      rcases act with ⟨p, client, rfl⟩ | ⟨c, rfl⟩ <;> cases hk
    · rcases act with ⟨p, client, rfl⟩ | ⟨c, rfl⟩ <;> rfl
  | queue items id new stack sequence accepted finished =>
    refine .inl ⟨above, stage, h.outside (stack.trans h.stack) h.nested h.running (by omega)
      (fun q hq => items q (.inr hq)) ?_ (.inr rfl)⟩
    rintro k hk
    cases hk
  | @enter pass' running =>
    have hpass : pass' = .zombies := of_decide_eq_true hc
    refine .inl ⟨⟨pass', s.sequence, .loop⟩ :: above, stage, h.outside ?_ ?_ ?_ (Nat.le_refl _) (fun _ _ => rfl) ?_
      (.inr rfl)⟩
    · rw [h.stack]
      rfl
    · intro f hf
      rcases List.mem_cons.1 hf with rfl | hf
      · exact ⟨hpass, fun p hp => by cases hp⟩
      · exact h.nested f hf
    · intro _
      cases above with
      | nil => exact running _ _ h.stack
      | cons f fs => exact h.running (by simp)
    · rintro k hk
      cases hk
  | @takes pass' last' rest' p links as bs stack take split le first gone call =>
    obtain ⟨rfl, hf, rfl⟩ | ⟨above', rfl, hfs, hpass, -, hne, hrunning⟩ := h.top stack
    · cases hf
      have htaken : Record.takenBy rest'.length s .take = [⟨(s.items p).id, (s.items p).sequence, true⟩] := by
        rw [takenBy_some stack take]
        simp
      have hcalled : (r.observe rest'.length s .take).called = r.called ++ [(s.items p).id] := by
        simp [Record.called, Record.observe, htaken, List.filter_append]
      have hlen : s.stack.length = rest'.length + 1 := by rw [stack, List.length_cons]
      have hsteps : (r.observe rest'.length s .take).steps = r.steps + 1 := by
        simp only [Record.observe]
        rw [if_pos ⟨hlen, rfl⟩]
      have hhas : r.steps = 3 * r.called.length := h.has
      refine .inl ⟨[], .running p, rfl, nofun, fun hne => absurd rfl hne, h.le, ⟨?_, ?_⟩,
        nofun⟩
      · rw [hsteps, hcalled, List.length_append, List.length_singleton]
        omega
      · rw [hcalled, List.getLast?_concat]
    · subst hpass
      obtain ⟨above', h'⟩ := h.deeper (g := ⟨.zombies, last', .running p⟩)
        (t := { s with links := links, stack := ⟨.zombies, last', .running p⟩ :: rest' }) stack hne rfl nofun rfl rfl rfl fun k hk => by
          rw [takenBy_some stack take] at hk
          rw [List.mem_singleton.1 hk]
          exact decide_eq_false hne
      exact .inl ⟨above', stage, h'⟩
  | @clears last' rest' t' qs' stack =>
    obtain ⟨rfl, hf, rfl⟩ | ⟨above', rfl, hfs, hpass, -, hne, hrunning⟩ := h.top stack
    · cases hf
      exact absurd rfl hclear
    · cases hpass
  | @leaves pass' last' rest' stack take none =>
    obtain ⟨rfl, hf, rfl⟩ | ⟨above', rfl, hfs, hpass, -, hne, hrunning⟩ := h.top stack
    · cases hf
      have hhas : r.steps = 3 * r.called.length := h.has
      have hno := takenBy_none (d := rest'.length) stack take
      obtain ⟨-, hsteps⟩ := observe_own (r := r) stack rfl hno
      refine .inr ⟨rfl, rfl, rfl, rfl, rfl, none, ?_, ?_, hsteps.trans (by rw [hhas])⟩
      · simp [Record.observe, hno]
      · simp [Record.observe, Record.failedBy]
    · -- the pass above returns to the function that called it
      refine .inl ⟨above', stage, h.outside hfs (fun f hf => h.nested f (List.mem_cons_of_mem _ hf)) (fun _ => hrunning)
        (Nat.le_refl _) (fun _ _ => rfl) ?_ (.inl ?_)⟩
      · rw [takenBy_none stack take]
        exact fun k hk => by cases hk
      · rw [stack, List.length_cons]
        omega
  | @fails last' p rest' stack =>
    obtain ⟨rfl, hf, rfl⟩ | ⟨above', rfl, hfs, hpass, -, hne, hrunning⟩ := h.top stack
    · cases hf
      obtain ⟨hcalled, hsteps⟩ := observe_own (r := r) (a := .ret false) stack rfl rfl
      obtain ⟨hhas, hlast⟩ : r.steps + 2 = 3 * r.called.length ∧ r.called.getLast? = some (s.items p).id := h.has
      refine .inl ⟨[], .returned p false, rfl, nofun, fun hne => absurd rfl hne, h.le, ⟨?_, ?_⟩,
        fun _ _ => rfl⟩
      · rw [hsteps, hcalled]
        omega
      · rw [hcalled, hlast]
    · cases hpass
  | @ends pass' last' p rest' done stack stopped =>
    obtain ⟨rfl, hf, rfl⟩ | ⟨above', rfl, hfs, hpass, -, hne, hrunning⟩ := h.top stack
    · cases hf
      obtain ⟨hcalled, hsteps⟩ := observe_own (r := r) (a := .ret done) stack rfl rfl
      obtain ⟨hhas, hlast⟩ : r.steps + 2 = 3 * r.called.length ∧ r.called.getLast? = some (s.items p).id := h.has
      refine .inl ⟨[], .returned p true, rfl, nofun, fun hne => absurd rfl hne, h.le, ⟨?_, ?_⟩,
        nofun⟩
      · rw [hsteps, hcalled]
        omega
      · rw [hcalled, hlast]
    · obtain ⟨above', h'⟩ := h.deeper (g := ⟨pass', last', .returned p true⟩)
        (t := { s with
          stack := ⟨pass', last', .returned p true⟩ :: rest'
          finished := s.finished ++ [((s.items p).id, if pass' = .process then .executed else .zombie)] })
        (a := .ret done) stack hne hpass nofun rfl rfl rfl fun k hk => by cases hk
      exact .inl ⟨above', stage, h'⟩
  | @frees pass' last' p rest' stack =>
    obtain ⟨rfl, hf, rfl⟩ | ⟨above', rfl, hfs, hpass, -, hne, hrunning⟩ := h.top stack
    · cases hf
      obtain ⟨hcalled, hsteps⟩ := observe_own (r := r) (a := .dispose) stack rfl rfl
      obtain ⟨hhas, hlast⟩ : r.steps + 1 = 3 * r.called.length ∧ r.called.getLast? = some (s.items p).id := h.has
      refine .inl ⟨[], .loop, rfl, nofun, fun hne => absurd rfl hne, h.le, ?_,
        nofun⟩
      show (r.observe rest'.length s .dispose).steps = 3 * (r.observe rest'.length s .dispose).called.length
      rw [hsteps, hcalled]
      omega
    · obtain ⟨above', h'⟩ := h.deeper (g := ⟨pass', last', .loop⟩)
        (t := { s with stack := ⟨pass', last', .loop⟩ :: rest', allocated := s.allocated.erase p })
        (a := .dispose) stack hne hpass nofun rfl rfl rfl fun k hk => by cases hk
      exact .inl ⟨above', stage, h'⟩
  | @requeues pass' last' p rest' t' before items id new stack sequence accepted finished =>
    obtain ⟨rfl, hf, rfl⟩ | ⟨above', rfl, hfs, hpass, hstage, hne, hrunning⟩ := h.top before
    · cases hf
      obtain ⟨hcalled, hsteps⟩ := observe_own (r := r) (a := .dispose) before rfl rfl
      obtain ⟨hhas, hlast⟩ : r.steps + 1 = 3 * r.called.length ∧ r.called.getLast? = some (s.items p).id := h.has
      have hle := h.le
      refine .inl ⟨[], .loop, stack, nofun, fun hne => absurd rfl hne, by omega, ?_,
        nofun⟩
      show (r.observe rest'.length s .dispose).steps = 3 * (r.observe rest'.length s .dispose).called.length
      rw [hsteps, hcalled]
      omega
    · exact absurd rfl (hstage p)

end Calls

/-! ## What `ProcessWorkQueue` executes -/

section Fairness

variable {last : Nat} {rest above : List Frame} {stage : Stage} {r r' : Record} {before : List Nat}

/-- The items of the list up to `last` -/
def due (s : State) (last : Nat) (qs : List Nat) : List Nat := qs.filter fun q => (s.items q).sequence ≤ last

/-- Of the items `before` the pass, those that nested calls did not clean up are executed, in their order, or still due; an
item that failed is in the list again behind them, was cleaned up later, or is about to be queued. -/
structure Fair (before : List Nat) (last : Nat) (rest : List Frame) (s : State) (r : Record) (qs : List Nat) : Prop where
  nodup : before.Nodup
  part : (before.filter fun i => i ∉ r.cleaned last) = r.called ++ ids s.items (due s last qs)
  failed : ∀ i ∈ r.failed, i ∈ r.called
  again : ∀ i ∈ r.failed, (∃ q ∈ qs, (s.items q).id = i ∧ last < (s.items q).sequence) ∨
    (∃ k ∈ r.taken, k.own = false ∧ k.id = i) ∨
    ∃ p, s.stack = ⟨.process, last, .returned p false⟩ :: rest ∧ (s.items p).id = i

theorem due_congr (h : ∀ q ∈ qs, t.items q = s.items q) : ids t.items (due t last qs) = ids s.items (due s last qs) := by
  have hdue : due t last qs = due s last qs := List.filter_congr fun q hq => by rw [h q hq]
  rw [hdue]
  exact List.map_congr_left fun q hq => by rw [h q (List.mem_of_mem_filter hq)]

/-- An item behind the snapshot is not due. -/
theorem due_append (h : last < (s.items p).sequence) : due s last (qs ++ [p]) = due s last qs := by
  unfold due
  rw [List.filter_append, List.filter_cons_of_neg (by simpa using h), List.filter_nil, List.append_nil]

/-- A list without one of its elements -/
theorem filter_ne_of_nodup {xs ys : List Nat} {i : Nat} (h : (xs ++ i :: ys).Nodup) :
    (xs ++ i :: ys).filter (fun j => j ≠ i) = xs ++ ys := by
  obtain ⟨hi, hrest⟩ := List.nodup_cons.1 (List.nodup_middle.1 h)
  rw [List.filter_append, List.filter_cons_of_neg (by simp), ← List.filter_append]
  refine List.filter_eq_self.2 fun j hj => decide_eq_true ?_
  rintro rfl
  exact hi hj

/-- A step that takes nothing and lets nothing fail -/
theorem Fair.congr (h : Fair before last rest s r ps) (htaken : r'.taken = r.taken) (hfailed : r'.failed = r.failed)
    (hitems : ∀ q ∈ ps, t.items q = s.items q)
    (hstack : ∀ p, s.stack = ⟨.process, last, .returned p false⟩ :: rest →
      t.stack = s.stack ∧ (t.items p).id = (s.items p).id) : Fair before last rest t r' ps where
  nodup := h.nodup
  part := by
    have hcalled : r'.called = r.called := by
      unfold Record.called
      rw [htaken]
    have hcleaned : r'.cleaned last = r.cleaned last := by
      unfold Record.cleaned
      rw [htaken]
    rw [hcalled, hcleaned, due_congr hitems]
    exact h.part
  failed := by
    unfold Record.called
    rw [hfailed, htaken]
    exact h.failed
  again := by
    intro i hi
    rw [hfailed] at hi
    rw [htaken]
    obtain ⟨q, hq, hid, hlt⟩ | hnested | ⟨p, hs, hid⟩ := h.again i hi
    · exact .inl ⟨q, hq, by rw [hitems q hq, hid], by rw [hitems q hq]; exact hlt⟩
    · exact .inr (.inl hnested)
    · obtain ⟨ht, hp⟩ := hstack p hs
      exact .inr (.inr ⟨p, ht.trans hs, hp.trans hid⟩)

/-- An item is queued behind the snapshot. -/
theorem Fair.append (h : Fair before last rest s r ps) (hnew : last < (s.items p).sequence) :
    Fair before last rest s r (ps ++ [p]) where
  nodup := h.nodup
  part := by
    rw [due_append hnew]
    exact h.part
  failed := h.failed
  again := by
    intro i hi
    obtain ⟨q, hq, hid⟩ | hother := h.again i hi
    · exact .inl ⟨q, List.mem_append_left _ hq, hid⟩
    · exact .inr hother

/-- The pass takes the first item. -/
theorem Fair.take (h : Fair before last rest s r (p :: ps)) (hle : (s.items p).sequence ≤ last)
    (hs : ∀ q, s.stack ≠ ⟨.process, last, .returned q false⟩ :: rest) (hitems : t.items = s.items)
    (htaken : r'.taken = r.taken ++ [⟨(s.items p).id, (s.items p).sequence, true⟩]) (hfailed : r'.failed = r.failed) :
    Fair before last rest t r' ps where
  nodup := h.nodup
  part := by
    have hcalled : r'.called = r.called ++ [(s.items p).id] := by simp [Record.called, htaken, List.filter_append]
    have hcleaned : r'.cleaned last = r.cleaned last := by simp [Record.cleaned, htaken, List.filter_append]
    have hdue : due s last (p :: ps) = p :: due s last ps := List.filter_cons_of_pos (by simpa using hle)
    have hitems' : ids t.items (due t last ps) = ids s.items (due s last ps) := due_congr fun q _ => by rw [hitems]
    rw [hcalled, hcleaned, h.part, hdue, hitems', List.append_assoc]
    rfl
  failed := by
    have hcalled : r'.called = r.called ++ [(s.items p).id] := by simp [Record.called, htaken, List.filter_append]
    intro i hi
    rw [hfailed] at hi
    rw [hcalled]
    exact List.mem_append_left _ (h.failed i hi)
  again := by
    intro i hi
    rw [hfailed] at hi
    rw [htaken, hitems]
    obtain ⟨q, hq, hid, hlt⟩ | ⟨k, hk, hkid⟩ | ⟨q, hq, -⟩ := h.again i hi
    · rcases List.mem_cons.1 hq with rfl | hq
      · omega
      · exact .inl ⟨q, hq, hid, hlt⟩
    · exact .inr (.inl ⟨k, List.mem_append_left _ hk, hkid⟩)
    · exact absurd hq (hs q)

/-- A nested call takes an item. -/
theorem Fair.clean {as bs : List Nat} (h : Fair before last rest s r (as ++ p :: bs))
    (hs : ∀ q, s.stack ≠ ⟨.process, last, .returned q false⟩ :: rest) (hitems : t.items = s.items)
    (htaken : r'.taken = r.taken ++ [⟨(s.items p).id, (s.items p).sequence, false⟩]) (hfailed : r'.failed = r.failed) :
    Fair before last rest t r' (as ++ bs) where
  nodup := h.nodup
  part := by
    have hcalled : r'.called = r.called := by simp [Record.called, htaken, List.filter_append]
    have hitems' : ids t.items (due t last (as ++ bs)) = ids s.items (due s last (as ++ bs)) :=
      due_congr fun q _ => by rw [hitems]
    by_cases hle : (s.items p).sequence ≤ last
    · have hcleaned : r'.cleaned last = r.cleaned last ++ [(s.items p).id] := by
        simp [Record.cleaned, htaken, List.filter_append, hle]
      have hdue : due s last (as ++ p :: bs) = due s last as ++ p :: due s last bs := by
        unfold due
        rw [List.filter_append, List.filter_cons_of_pos (by simpa using hle)]
      have hdue' : due s last (as ++ bs) = due s last as ++ due s last bs := List.filter_append _ _
      have hpart := h.part
      have hnodup : (before.filter fun i => i ∉ r.cleaned last).Nodup := h.nodup.filter _
      rw [hpart, hdue] at hnodup
      have hsplit : (before.filter fun i => i ∉ r'.cleaned last) =
          (before.filter fun i => i ∉ r.cleaned last).filter fun i => i ≠ (s.items p).id := by
        rw [List.filter_filter]
        refine List.filter_congr fun i _ => ?_
        rw [hcleaned]
        simp [Bool.and_comm]
      rw [hcalled, hitems', hsplit, hpart, hdue, hdue']
      unfold ids at hnodup ⊢
      rw [List.map_append, List.map_cons, ← List.append_assoc] at hnodup ⊢
      rw [filter_ne_of_nodup hnodup, List.map_append, List.append_assoc]
    · have hcleaned : r'.cleaned last = r.cleaned last := by
        simp [Record.cleaned, htaken, List.filter_append, hle]
      have hdue : due s last (as ++ p :: bs) = due s last (as ++ bs) := by
        unfold due
        rw [List.filter_append, List.filter_cons_of_neg (by simpa using hle), List.filter_append]
      rw [hcalled, hcleaned, hitems', h.part, hdue]
  failed := by
    have hcalled : r'.called = r.called := by simp [Record.called, htaken, List.filter_append]
    rw [hfailed, hcalled]
    exact h.failed
  again := by
    intro i hi
    rw [hfailed] at hi
    rw [htaken, hitems]
    obtain ⟨q, hq, hid, hlt⟩ | ⟨k, hk, hkid⟩ | ⟨q, hq, -⟩ := h.again i hi
    · by_cases hqp : q = p
      · subst hqp
        exact .inr (.inl ⟨_, List.mem_append_right _ (List.mem_singleton_self _), rfl, hid⟩)
      · refine .inl ⟨q, ?_, hid, hlt⟩
        rcases List.mem_append.1 hq with hq | hq
        · exact List.mem_append_left _ hq
        · exact List.mem_append_right _ ((List.mem_cons.1 hq).resolve_left hqp)
    · exact .inr (.inl ⟨k, List.mem_append_left _ hk, hkid⟩)
    · exact absurd hq (hs q)

/-- An item fails. -/
theorem Fair.fail (h : Fair before last rest s r ps) (hp : (s.items p).id ∈ r.called) (hitems : t.items = s.items)
    (hs : ∀ q, s.stack ≠ ⟨.process, last, .returned q false⟩ :: rest)
    (hstack : t.stack = ⟨.process, last, .returned p false⟩ :: rest) (htaken : r'.taken = r.taken)
    (hfailed : r'.failed = r.failed ++ [(s.items p).id]) : Fair before last rest t r' ps where
  nodup := h.nodup
  part := by
    have hitems' : ids t.items (due t last ps) = ids s.items (due s last ps) := due_congr fun q _ => by rw [hitems]
    rw [hitems']
    unfold Record.called Record.cleaned
    rw [htaken]
    exact h.part
  failed := by
    unfold Record.called
    rw [hfailed, htaken]
    intro i hi
    rcases List.mem_append.1 hi with hi | hi
    · exact h.failed i hi
    · rw [List.mem_singleton.1 hi]
      exact hp
  again := by
    intro i hi
    rw [hfailed] at hi
    rw [htaken, hitems]
    rcases List.mem_append.1 hi with hi | hi
    · obtain hq | hnested | ⟨q, hq, -⟩ := h.again i hi
      · exact .inl hq
      · exact .inr (.inl hnested)
      · exact absurd hq (hs q)
    · exact .inr (.inr ⟨p, hstack, (List.mem_singleton.1 hi).symm⟩)

/-- The item that failed is queued again. -/
theorem Fair.requeue (h : Fair before last rest s r ps) (hp : p ∉ ps)
    (hs : s.stack = ⟨.process, last, .returned p false⟩ :: rest) (hitems : ∀ q, q ≠ p → t.items q = s.items q)
    (hid : (t.items p).id = (s.items p).id) (hnew : last < (t.items p).sequence) (htaken : r'.taken = r.taken)
    (hfailed : r'.failed = r.failed) : Fair before last rest t r' (ps ++ [p]) where
  nodup := h.nodup
  part := by
    have hitems' : ids t.items (due t last ps) = ids s.items (due s last ps) :=
      due_congr fun q hq => hitems q (ne_of_mem_of_not_mem hq hp)
    rw [due_append hnew, hitems']
    unfold Record.called Record.cleaned
    rw [htaken]
    exact h.part
  failed := by
    unfold Record.called
    rw [hfailed, htaken]
    exact h.failed
  again := by
    intro i hi
    rw [hfailed] at hi
    rw [htaken]
    obtain ⟨q, hq, hqid, hlt⟩ | hnested | ⟨q, hq, hqid⟩ := h.again i hi
    · have hsame := hitems q (ne_of_mem_of_not_mem hq hp)
      exact .inl ⟨q, List.mem_append_left _ hq, by rw [hsame, hqid], by rw [hsame]; exact hlt⟩
    · exact .inr (.inl hnested)
    · rw [hs] at hq
      cases hq
      exact .inl ⟨p, List.mem_append_right _ (List.mem_singleton_self p), hid.trans hqid, hnew⟩

/-- No step but `take` takes, and none but `ret` fails. -/
theorem observe_same {d : Nat} (htaken : Record.takenBy d s a = []) (hfailed : Record.failedBy d s a = []) :
    (r.observe d s a).taken = r.taken ∧ (r.observe d s a).failed = r.failed := by
  simp [Record.observe, htaken, hfailed]

/-- **One step of a pass** keeps its balance. -/
theorem Fair.step (h : Fair before last rest s r ps) (hd : During .process last rest s r above stage) (hinv : s.Inv ps)
    (hdoes : s.Does ps a t qs) : Fair before last rest t (r.observe rest.length s a) qs := by
  have hle := hd.le
  cases hdoes with
  | quiet act items stack sequence accepted finished =>
    have hsame : (r.observe rest.length s a).taken = r.taken ∧ (r.observe rest.length s a).failed = r.failed := by
      rcases act with ⟨p, client, rfl⟩ | ⟨c, rfl⟩ <;> exact observe_same rfl rfl
    refine h.congr hsame.1 hsame.2 (fun q hq => items q (.inl hq)) fun p hs => ⟨stack, ?_⟩
    rw [items p (.inr (by rw [hs]; exact List.mem_cons_self))]
  | @queue p t items id new stack sequence accepted finished =>
    obtain ⟨htaken, hfailed⟩ := observe_same (r := r) (d := rest.length) (s := s) (a := .queue p) rfl rfl
    refine (h.congr htaken hfailed (fun q hq => items q (.inl hq)) fun p hs => ⟨stack, ?_⟩).append (by omega)
    rw [items p (.inr (by rw [hs]; exact List.mem_cons_self))]
  | @enter pass running =>
    obtain ⟨htaken, hfailed⟩ := observe_same (r := r) (d := rest.length) (s := s) (a := .enter pass) rfl rfl
    refine h.congr htaken hfailed (fun _ _ => rfl) fun p hs => ?_
    obtain ⟨q, hq⟩ := running _ _ hs
    cases hq
  | @takes pass last' rest' p links as bs stack take split le first gone call =>
    have hs : ∀ q, s.stack ≠ ⟨.process, last, .returned q false⟩ :: rest := by
      intro q hq
      rw [stack] at hq
      cases hq
    have htaken := takenBy_some (d := rest.length) stack take
    obtain ⟨rfl, hf, rfl⟩ | ⟨above', rfl, hfs, hpass, -, hne, hrunning⟩ := hd.top stack
    · cases hf
      obtain rfl := first (by decide)
      rw [decide_eq_true rfl] at htaken
      subst split
      refine h.take le hs rfl ?_ ?_
      · simp [Record.observe, htaken]
      · simp [Record.observe, Record.failedBy]
    · rw [decide_eq_false hne] at htaken
      subst split
      refine h.clean hs rfl ?_ ?_
      · simp [Record.observe, htaken]
      · simp [Record.observe, Record.failedBy]
  | @clears last' rest' t qs stack =>
    obtain ⟨rfl, hf, rfl⟩ | ⟨above', rfl, hfs, hpass, -, hne, hrunning⟩ := hd.top stack
    · cases hf
    · cases hpass
  | @leaves pass last' rest' stack take none =>
    obtain ⟨htaken, hfailed⟩ := observe_same (r := r) (takenBy_none (d := rest.length) stack take) rfl
    refine h.congr htaken hfailed (fun _ _ => rfl) fun p hs => ?_
    rw [stack] at hs
    cases hs
  | @fails last' p rest' stack =>
    obtain ⟨rfl, hf, rfl⟩ | ⟨above', rfl, hfs, hpass, -, hne, hrunning⟩ := hd.top stack
    · cases hf
      obtain ⟨-, hlast⟩ : r.steps + 2 = 3 * r.called.length ∧ r.called.getLast? = some (s.items p).id := hd.has
      refine h.fail (p := p) (List.mem_of_getLast? hlast) rfl ?_ rfl ?_ ?_
      · intro q hq
        rw [stack] at hq
        cases hq
      · simp [Record.observe, Record.takenBy]
      · simp [Record.observe, Record.failedBy, stack]
    · cases hpass
  | @ends pass last' p rest' done stack stopped =>
    have hno : Record.failedBy rest.length s (.ret done) = [] := by
      cases done with
      | true => rfl
      | false =>
        cases pass with
        | process => cases stopped rfl
        | zombies => simp [Record.failedBy, stack]
        | clear => simp [Record.failedBy, stack]
    obtain ⟨htaken, hfailed⟩ := observe_same (r := r) (d := rest.length) (s := s) (a := .ret done) rfl hno
    refine h.congr htaken hfailed (fun _ _ => rfl) fun q hs => ?_
    rw [stack] at hs
    cases hs
  | @frees pass last' p rest' stack =>
    obtain ⟨htaken, hfailed⟩ := observe_same (r := r) (d := rest.length) (s := s) (a := .dispose) rfl rfl
    refine h.congr htaken hfailed (fun _ _ => rfl) fun q hs => ?_
    rw [stack] at hs
    cases hs
  | @requeues pass last' p rest' t before' items id new stack sequence accepted finished =>
    obtain ⟨rfl, hf, rfl⟩ | ⟨above', rfl, hfs, hpass, hstage, hne, hrunning⟩ := hd.top before'
    · cases hf
      obtain ⟨htaken, hfailed⟩ := observe_same (r := r) (d := rest'.length) (s := s) (a := .dispose) rfl rfl
      have hp : p ∈ held s.stack := by
        rw [before']
        exact List.mem_cons_self
      exact h.requeue (hinv.apart hp).1 before' items id (by omega) htaken hfailed
    · exact absurd rfl (hstage p)

/-- The numbers of queued items are distinct. -/
theorem State.Inv.ids_nodup (h : s.Inv ps) : (ids s.items ps).Nodup := by
  refine List.nodup_iff_count_le_one.2 fun i => ?_
  have hstates := h.states i
  split at hstates <;> omega

theorem State.Inv.id_lt (h : s.Inv ps) {i : Nat} (hi : i ∈ ids s.items ps) : i < s.accepted := by
  have hstates := h.states i
  have hpos := List.count_pos_iff.2 hi
  split at hstates
  · assumption
  · omega

/-- All items are due when the pass begins. -/
theorem Fair.enter (h : s.Inv ps) (pass : Pass) :
    Fair (ids s.items ps) s.sequence s.stack { s with stack := ⟨pass, s.sequence, .loop⟩ :: s.stack } {} ps where
  nodup := h.ids_nodup
  part := by
    have hall : due s s.sequence ps = ps := List.filter_eq_self.2 fun q hq => decide_eq_true (h.ordered.bound q hq)
    have hbefore : ((ids s.items ps).filter fun i => i ∉ Record.cleaned {} s.sequence) = ids s.items ps :=
      List.filter_eq_self.2 fun i _ => by simp [Record.cleaned]
    rw [hbefore]
    show ids s.items ps = ids s.items (due s s.sequence ps)
    rw [hall]
  failed := nofun
  again := nofun

/-- A sorted list falls into the items that are due and the others. -/
theorem sorted_split (h : qs.Pairwise fun p q => (s.items p).sequence < (s.items q).sequence) (last : Nat) :
    qs = due s last qs ++ qs.filter fun q => last < (s.items q).sequence := by
  induction qs with
  | nil => rfl
  | cons q qs ih =>
    obtain ⟨hq, hqs⟩ := List.pairwise_cons.1 h
    unfold due at ih ⊢
    by_cases hle : (s.items q).sequence ≤ last
    · rw [List.filter_cons_of_pos (by simpa using hle), List.filter_cons_of_neg (by simpa using hle), List.cons_append,
        ← ih hqs]
    · have hnone : qs.filter (fun q => (s.items q).sequence ≤ last) = [] := by
        refine List.filter_eq_nil_iff.2 fun p hp => ?_
        have := hq p hp
        simp only [decide_eq_true_eq]
        omega
      have hall : qs.filter (fun q => last < (s.items q).sequence) = qs := by
        refine List.filter_eq_self.2 fun p hp => decide_eq_true ?_
        have := hq p hp
        omega
      rw [List.filter_cons_of_neg (by simpa using hle), List.filter_cons_of_pos (by simpa using hle), hnone, hall,
        List.nil_append]

/-- What holds of a pass, until it returns and when it does. -/
def Balanced (before : List Nat) (last : Nat) (rest : List Frame) (w : State × Record) : Prop :=
  ∃ qs, w.1.Inv qs ∧ Fair before last rest w.1 w.2 qs ∧
    ((∃ above stage, During .process last rest w.1 w.2 above stage) ∨
      (w.1.stack = rest ∧ due w.1 last qs = [] ∧ w.2.steps = 3 * w.2.called.length + 1))

/-- Every step of the run keeps the balance. -/
theorem Balanced.step {w w' : State × Record} {a : Action} (h : Balanced before last rest w)
    (hc : Within rest.length w a) (hs : watch rest.length w a = some w') : Balanced before last rest w' := by
  obtain ⟨ps, hinv, hfair, hduring | ⟨hreturned, -, -⟩⟩ := h
  · obtain ⟨above, stage, hduring⟩ := hduring
    obtain ⟨t, ht, rfl⟩ := Option.map_eq_some_iff.1 hs
    obtain ⟨qs, hdoes, hinv'⟩ := State.does_of_step hinv ht
    have hfair' := hfair.step hduring hinv hdoes
    refine ⟨qs, hinv', hfair', ?_⟩
    obtain hgoes | ⟨hstack, hitems, -, -, rfl, hnone, htaken, -, hsteps⟩ := hduring.step (by decide) hdoes hc.2
    · exact .inl hgoes
    · refine .inr ⟨hstack, ?_, ?_⟩
      · refine List.filter_eq_nil_iff.2 fun q hq hle => ?_
        rw [hitems] at hle
        obtain ⟨hpass, -⟩ := hnone q hq (of_decide_eq_true hle)
        cases hpass
      · unfold Record.called
        rw [htaken]
        exact hsteps
  · have hlt := hc.1
    rw [hreturned] at hlt
    exact absurd hlt (Nat.lt_irrefl _)

/-- The number of steps and of functions that were called -/
theorem Balanced.steps_le {w : State × Record} (h : Balanced before last rest w) :
    w.2.called.length ≤ before.length ∧ w.2.steps ≤ 3 * before.length + 1 := by
  obtain ⟨qs, -, hfair, hstage⟩ := h
  have hlen : w.2.called.length ≤ before.length := by
    have hpart := congrArg List.length hfair.part
    have hle := List.length_filter_le (fun i => decide (i ∉ w.2.cleaned last)) before
    rw [List.length_append] at hpart
    omega
  refine ⟨hlen, ?_⟩
  obtain ⟨above, stage, hduring⟩ | ⟨-, -, hsteps⟩ := hstage
  · have := hduring.steps_le
    omega
  · omega

/-- A pass that is not in a function can go on. -/
theorem pass_enabled {pass : Pass} (hs : s.stack = ⟨pass, last, stage⟩ :: rest) (hstage : ∀ p, stage ≠ .running p) :
    ∃ a t, Record.passStep a = true ∧ step s a = some t := by
  cases stage with
  | loop =>
    refine ⟨.take, ?_⟩
    simp only [WorkQueue.step, hs]
    split
    · split
      · exact ⟨_, rfl, rfl⟩
      · exact ⟨_, rfl, rfl⟩
    · exact ⟨_, rfl, rfl⟩
  | running p => exact absurd rfl (hstage p)
  | returned p done =>
    refine ⟨.dispose, ?_⟩
    simp only [WorkQueue.step, hs]
    split
    · exact ⟨_, rfl, rfl⟩
    · exact ⟨_, rfl, rfl⟩

/-- A pass is stuck in no state but within a function. -/
theorem pass_goes_on {n : Nat} (hlt : n < s.stack.length) (hidle : ∀ f rest, s.stack = f :: rest → ∀ p, f.stage ≠ .running p) :
    ∃ a t, Record.passStep a = true ∧ step s a = some t := by
  cases hs : s.stack with
  | nil =>
    rw [hs] at hlt
    exact absurd hlt (Nat.not_lt_zero _)
  | cons f rest => exact pass_enabled hs (hidle f rest hs)

/-- A state that is reached has the invariant. -/
theorem inv_of_reach (h : Reach step Free State.init s) : ∃ ps, s.Inv ps := by
  refine Reach.invariant (I := fun s : State => ∃ ps, s.Inv ps) ⟨[], .init⟩ ?_ h
  rintro t a u ⟨ps, hps⟩ - hs
  exact hps.step_inv hs

end Fairness

/-- **A pass of `ProcessWorkQueue` is finite and fair.** Let `ps` be the list when the pass begins, and let the functions of its
items, and other threads, do anything but start a pass that is not `ProcessWorkQueueZombies`. Then at any time, and when the
pass returns, it has called the functions of the first of those items of `ps` which were not cleaned up before it came to
them, in their order and once each; the others, `as`, stand in front of everything that was queued since, `bs`. An item that
failed is in `bs`, unless it was cleaned up later or is about to be queued. When the pass returns, `as` is empty. It takes
at most three steps for each item of `ps`, and one, and is never stuck outside the functions. -/
theorem process_pass {s₀ s s' : State} {r : Record} (h₀ : Reach step Free State.init s₀)
    (henter : step s₀ (.enter .process) = some s)
    (hrun : Reach (watch s₀.stack.length) (Within s₀.stack.length) (s, {}) (s', r)) :
    ∃ ps as bs : List Nat, s₀.links.Holds ps ∧ s'.links.Holds (as ++ bs) ∧
      (∀ q ∈ as, (s'.items q).sequence ≤ s₀.sequence) ∧ (∀ q ∈ bs, s₀.sequence < (s'.items q).sequence) ∧
      (ids s₀.items ps).Nodup ∧
      ((ids s₀.items ps).filter fun i => i ∉ r.cleaned s₀.sequence) = r.called ++ ids s'.items as ∧
      (∀ i ∈ r.failed, i ∈ r.called ∧ ((∃ q ∈ bs, (s'.items q).id = i) ∨ (∃ k ∈ r.taken, k.own = false ∧ k.id = i) ∨
        ∃ p, s'.stack = ⟨.process, s₀.sequence, .returned p false⟩ :: s₀.stack ∧ (s'.items p).id = i)) ∧
      (s'.stack.length = s₀.stack.length → as = []) ∧
      r.called.length ≤ ps.length ∧ r.steps ≤ 3 * ps.length + 1 ∧
      (s₀.stack.length < s'.stack.length →
        (∀ f rest, s'.stack = f :: rest → ∀ p, f.stage ≠ .running p) →
          ∃ a t, Record.passStep a = true ∧ step s' a = some t) := by
  obtain ⟨ps, hps⟩ := inv_of_reach h₀
  obtain ⟨qs₀, hdoes, hinv⟩ := State.does_of_step hps henter
  have hstart : Balanced (ids s₀.items ps) s₀.sequence s₀.stack (s, {}) := by
    cases hdoes with
    | quiet act =>
      obtain ⟨p, client, ha⟩ | ⟨c, ha⟩ := act <;> cases ha
    | enter running => exact ⟨ps, hinv, Fair.enter hps .process, .inl ⟨[], .loop, During.enter s₀ .process⟩⟩
  have hend : Balanced (ids s₀.items ps) s₀.sequence s₀.stack (s', r) :=
    hrun.invariant hstart fun w a w' hw hc hs => hw.step hc hs
  obtain ⟨hcalled, hsteps⟩ := hend.steps_le
  rw [show (ids s₀.items ps).length = ps.length from List.length_map _] at hcalled hsteps
  obtain ⟨qs, hqs, hfair, hstage⟩ := hend
  have hsplit := sorted_split hqs.ordered.sorted s₀.sequence
  refine ⟨ps, due s' s₀.sequence qs, qs.filter fun q => s₀.sequence < (s'.items q).sequence, hps.ordered.holds, ?_, ?_, ?_,
    hfair.nodup, hfair.part, ?_, ?_, hcalled, hsteps, ?_⟩
  · rw [← hsplit]
    exact hqs.ordered.holds
  · intro q hq
    exact of_decide_eq_true (List.mem_filter.1 hq).2
  · intro q hq
    exact of_decide_eq_true (List.mem_filter.1 hq).2
  · intro i hi
    refine ⟨hfair.failed i hi, ?_⟩
    obtain ⟨q, hq, hid, hlt⟩ | hother := hfair.again i hi
    · exact .inl ⟨q, List.mem_filter.2 ⟨hq, decide_eq_true hlt⟩, hid⟩
    · exact .inr hother
  · intro hlen
    obtain ⟨above, stage, hduring⟩ | ⟨-, hdue, -⟩ := hstage
    · rw [hduring.stack, List.length_append, List.length_cons] at hlen
      omega
    · exact hdue
  · exact pass_goes_on

/-- Three items, the last one of a client -/
def threeItems : List Action := [.malloc 1 none, .queue 1, .malloc 2 none, .queue 2, .malloc 3 (some 7), .queue 3]

/-- The first function closes the client and cleans up, and fails; the second one succeeds. -/
def cleaningPass : List Action :=
  [.take, .closeClient 7, .enter .zombies, .take, .malloc 4 none, .queue 4, .ret false, .dispose, .take, .ret false,
    .dispose, .take, .ret true, .dispose, .take]

theorem process_pass_cleaning :
    ∃ (s₀ s s' : State) (r : Record), exec step State.init threeItems = some s₀ ∧
      step s₀ (.enter .process) = some s ∧ s'.stack = [] ∧ r.called = [0, 1] ∧ r.failed = [0] ∧ r.steps = 7 ∧
      ∃ ps : List Nat, s₀.links.Holds ps ∧ ((ids s₀.items ps).filter fun i => i ∉ r.cleaned s₀.sequence) = r.called := by
  obtain ⟨s₀, h₀, s, henter, s', r, hrun, hstack, hcalled, hfailed, hsteps⟩ :
      ∃ s₀, exec step State.init threeItems = some s₀ ∧ ∃ s, step s₀ (.enter .process) = some s ∧
        ∃ (s' : State) (r : Record),
          exec (fun w a => if Within s₀.stack.length w a then watch s₀.stack.length w a else none) (s, {}) cleaningPass =
            some (s', r) ∧ (s'.stack = [] ∧ s'.stack.length = s₀.stack.length) ∧ r.called = [0, 1] ∧ r.failed = [0] ∧
            r.steps = 7 :=
    ⟨_, rfl, _, rfl, _, _, rfl, ⟨rfl, rfl⟩, rfl, rfl, rfl⟩
  obtain ⟨ps, as, bs, hps, -, -, -, -, hpart, -, hempty, -⟩ :=
    process_pass (.of_exec threeItems h₀) henter (.of_exec_guarded cleaningPass hrun)
  obtain rfl := hempty hstack.2
  exact ⟨s₀, s, s', r, h₀, henter, hstack.1, hcalled, hfailed, hsteps, ps, hps, hpart.trans (List.append_nil _)⟩

end Lorie.WorkQueue
