import Lorie.Present.Vblanks
import Mathlib.Data.List.Induction

/-!
# The media counter, and the order of a pass

- `current_msc_monotone`: the values of `pvfb->current_msc` never decrease, exactly when no flip is later than its
  target and the counter does not come round;
- `dueFrom_of_forall_flipped`: without flips the entries that are due are those up to the counter;
- `due_order`: a pass notifies the entries that are due, newest first; that is the order of their `msc` exactly when of
  any two the one queued later has the smaller `msc`.
-/

namespace Lorie.Present.Vblanks

open Lorie.Lib

/-! ## The values of the counter -/

/-- The value of `pvfb->current_msc` that an event shows. -/
def Event.msc? : Event → Option UInt64
  | .redraw msc | .flip _ _ msc | .getUstMsc msc | .pass msc | .notify _ msc => some msc
  | .queue _ | .abort _ _ | .ret => none

def values (log : List Event) : List UInt64 := log.filterMap Event.msc?

/-- The counter behind a log. -/
def counter (log : List Event) : UInt64 := (values log).getLast?.getD 0

/-- What an event shows, from the counter before it. -/
def Event.Follows (c : UInt64) : Event → Prop
  | .redraw msc => msc = c + 1
  | .flip _ target_msc msc => msc = min (c + 1) target_msc
  | .getUstMsc msc | .pass msc | .notify _ msc => msc = c
  | .queue _ | .abort _ _ | .ret => True

/-- A redraw finds the counter below its end, and a flip also not above its target. -/
def Event.Advances (c : UInt64) : Event → Prop
  | .redraw _ => c.toNat + 1 < UInt64.size
  | .flip _ target_msc _ => c.toNat + 1 < UInt64.size ∧ c ≤ target_msc
  | _ => True

/-- Every event is as `P` says of the counter before it. -/
def Every (P : UInt64 → Event → Prop) (log : List Event) : Prop := ∀ l e, l ++ [e] <+: log → P (counter l) e

theorem every_snoc {P : UInt64 → Event → Prop} {log : List Event} {e : Event} :
    Every P (log ++ [e]) ↔ Every P log ∧ P (counter log) e := by
  unfold Every
  constructor
  · intro h
    exact ⟨fun l x hx => h l x (hx.trans (List.prefix_append _ _)), h log e (List.prefix_refl _)⟩
  · rintro ⟨h, he⟩ l x hx
    rcases List.prefix_concat_iff.1 hx with heq | hx
    · obtain ⟨rfl, hxe⟩ := List.append_inj' heq rfl
      cases hxe
      exact he
    · exact h l x hx

theorem values_snoc (log : List Event) (e : Event) : values (log ++ [e]) = values log ++ e.msc?.toList := by
  unfold values
  rw [List.filterMap_append]
  cases h : e.msc? <;> simp [h]

theorem counter_snoc (log : List Event) (e : Event) : counter (log ++ [e]) = e.msc?.getD (counter log) := by
  unfold counter
  rw [values_snoc]
  cases e.msc? with
  | none => simp
  | some msc => simp

/-- The last of values that never decrease is the greatest. -/
theorem le_counter_iff {log : List Event} (h : (values log).Pairwise (· ≤ ·)) (msc : UInt64) :
    (∀ x ∈ values log, x ≤ msc) ↔ counter log ≤ msc := by
  unfold counter
  rcases List.eq_nil_or_concat (values log) with hv | ⟨l, c, hv⟩
  · rw [hv]
    simp [UInt64.le_iff_toNat_le]
  · rw [hv] at h ⊢
    rw [List.concat_eq_append, List.getLast?_concat, Option.getD_some]
    rw [List.concat_eq_append] at h
    refine ⟨fun hall => hall c (by simp), fun hc x hx => ?_⟩
    rcases List.mem_append.1 hx with hx | hx
    · exact UInt64.le_trans ((List.pairwise_append.1 h).2.2 x hx c (by simp)) hc
    · rw [List.mem_singleton.1 hx]
      exact hc

/-- The next value is not smaller, exactly when the event advances the counter. -/
theorem Event.Follows.le_iff {c : UInt64} {e : Event} (h : e.Follows c) :
    (∀ msc, e.msc? = some msc → c ≤ msc) ↔ e.Advances c := by
  have hsucc : c.toNat + 1 < UInt64.size ↔ c ≤ c + 1 := by
    rw [UInt64.le_iff_toNat_le, UInt64.toNat_add]
    have := c.toNat_lt
    simp only [UInt64.size, UInt64.reduceToNat]
    omega
  cases e with
  | redraw msc =>
    cases h
    simp only [Event.msc?, Option.some.injEq, forall_eq', Event.Advances, hsucc]
  | flip event_id target_msc msc =>
    cases h
    simp only [Event.msc?, Option.some.injEq, forall_eq', Event.Advances, hsucc]
    rw [show min (c + 1) target_msc = if c + 1 ≤ target_msc then c + 1 else target_msc from rfl]
    simp only [UInt64.le_iff_toNat_le] at hsucc ⊢
    split <;> rename_i hle
    · exact ⟨fun h' => ⟨h', Nat.le_trans h' hle⟩, fun h' => h'.1⟩
    · refine ⟨fun h' => ⟨?_, h'⟩, fun h' => h'.2⟩
      omega
  | getUstMsc msc | pass msc | notify v msc =>
    cases h
    simp [Event.msc?, Event.Advances]
  | queue v | abort id removed | ret => simp [Event.msc?, Event.Advances]

/-- The values of a log never decrease exactly when every event advances the counter. -/
theorem pairwise_values_iff {log : List Event} (h : Every (fun c e => e.Follows c) log) :
    (values log).Pairwise (· ≤ ·) ↔ Every (fun c e => e.Advances c) log := by
  induction log using List.reverseRecOn with
  | nil => exact ⟨fun _ l e hle => by simp at hle, fun _ => List.Pairwise.nil⟩
  | append_singleton log e ih =>
    obtain ⟨hlog, he⟩ := every_snoc.1 h
    rw [every_snoc, ← ih hlog, ← he.le_iff, values_snoc, List.pairwise_append]
    constructor
    · rintro ⟨hv, -, hle⟩
      refine ⟨hv, fun msc hm => (le_counter_iff hv msc).1 fun x hx => hle x hx msc ?_⟩
      rw [hm]
      exact List.mem_singleton_self msc
    · rintro ⟨hv, hle⟩
      refine ⟨hv, ?_, fun x hx y hy => ?_⟩
      · cases e.msc? <;> simp
      · exact (le_counter_iff hv y).2 (hle y (Option.mem_toList.1 hy)) x hx

/-! ## The counter of a run -/

section Counter

variable {L : IntrusiveList Nat} {calloc : Calloc} {s t : State L}

/-- The counter is the one behind the log, and every event shows it. -/
def Shown (s : State L) : Prop := s.current_msc = counter s.log ∧ Every (fun c e => e.Follows c) s.log

/-- An event that shows the counter, or shows nothing. -/
theorem Shown.record (h : Shown s) {e : Event} (he : e.Follows s.current_msc)
    (hc : e.msc?.getD s.current_msc = s.current_msc) : Shown (s.record e) := by
  refine ⟨?_, every_snoc.2 ⟨h.2, h.1 ▸ he⟩⟩
  rw [State.record, counter_snoc, ← h.1]
  exact hc.symm

/-- An event that sets the counter. -/
theorem Shown.set (h : Shown s) {e : Event} {msc : UInt64} (he : e.Follows s.current_msc) (hm : e.msc? = some msc) :
    Shown { s with current_msc := msc, log := s.log ++ [e] } := by
  refine ⟨?_, every_snoc.2 ⟨h.2, h.1 ▸ he⟩⟩
  rw [counter_snoc, hm]
  rfl

theorem Shown.call (h : Shown s) (c : Call) : Shown (s.call calloc c) := by
  cases c with
  | getUstMsc => exact h.record rfl rfl
  | afterFlip event_id target_msc => exact h.set rfl rfl
  | queueVblank event_id msc =>
    rcases queueVblank_cases calloc s event_id msc with ⟨p, -, heq⟩ | heq
    · rw [State.call, heq]
      exact h.record (show (Event.queue ⟨event_id, msc, s.queued⟩).Follows _ from trivial) rfl
    · rw [State.call, heq]
      exact h

theorem Shown.callAll (h : Shown s) (cs : List Call) : Shown (s.callAll calloc cs) := by
  induction cs generalizing s with
  | nil => exact h
  | cons c cs ih => exact ih (h.call c)

theorem Shown.perform (hinv : Inv s) (h : Shown s) {calls : Nat → List Call}
    (ht : s.loriePerformVblanks calloc calls = some t) : Shown t := by
  obtain ⟨u, hu, -, hshown⟩ := performVblanks_rule calloc calls (R := fun s _ => Shown s) (fun _ _ _ _ _ _ _ hs => hs)
    (fun r _ p _ _ _ _ hs => (Shown.record hs (e := .notify (r.vblanks p) r.current_msc) rfl rfl).callAll _) hinv
    (h.record (e := .pass s.current_msc) rfl rfl)
  rw [hu] at ht
  cases ht
  exact hshown.record trivial rfl

theorem Shown.reach {C : State L → Action → Prop} (h : Reach (step calloc) C State.init s) : Inv s ∧ Shown s := by
  refine h.invariant (I := fun s => Inv s ∧ Shown s) ⟨Inv.init, rfl, fun l e hle => by simp [State.init] at hle⟩ ?_
  rintro t a u ⟨hinv, hshown⟩ - hs
  obtain ⟨u', hu, hinv'⟩ := hinv.step calloc a
  rw [hu] at hs
  cases hs
  refine ⟨hinv', ?_⟩
  cases a with
  | call c =>
    cases hu
    exact hshown.call c
  | abort id =>
    have heq := (abortVblank_eq hinv id).symm.trans hu
    cases hf : t.allocated.find? fun p => (t.vblanks p).id = id with
    | none =>
      rw [hf] at heq
      cases heq
      exact hshown.record trivial rfl
    | some p =>
      rw [hf] at heq
      cases heq
      exact Shown.record (s := t.remove p) hshown trivial rfl
  | redraw calls =>
    have hnext : Inv { t with current_msc := t.current_msc + 1 } := ⟨hinv.holds, hinv.nodup, hinv.newest, hinv.lt⟩
    exact Shown.perform (hnext.record _) (hshown.set (e := .redraw (t.current_msc + 1)) rfl rfl) hu
  | setSize calls => exact hshown.perform hinv hu

/-- **The media counter**: in every run the values that the counter takes, that `loriePresentGetUstMsc` answers and
that notifications are given never decrease, exactly when every redraw finds the counter below its end and every flip
finds it below its end and not above its target. -/
theorem current_msc_monotone (h : Reach (step calloc) Free State.init s) :
    s.current_msc = counter s.log ∧
      ((values s.log).Pairwise (· ≤ ·) ↔ ∀ l e, l ++ [e] <+: s.log → e.Advances (counter l)) := by
  obtain ⟨-, hcounter, hevery⟩ := Shown.reach h
  exact ⟨hcounter, pairwise_values_iff hevery⟩

/-- An allocator that never reuses an address -/
def numbered : Calloc where
  answer n used := if n ∈ used then none else some n
  fresh {n used p} h := by
    split at h
    · cases h
    · cases h
      assumption

/-- A flip at its target between two redraws, and an answer -/
def punctualFlip : List Action :=
  [.redraw fun _ => [], .call (.afterFlip 7 2), .redraw fun _ => [], .call .getUstMsc]

theorem current_msc_monotone_punctual : ∃ s : State (ringList Nat),
    exec (step numbered) State.init punctualFlip = some s ∧ s.log.getLast? = some (.getUstMsc 3) ∧
      s.current_msc = counter s.log ∧
      ((values s.log).Pairwise (· ≤ ·) ↔ ∀ l e, l ++ [e] <+: s.log → e.Advances (counter l)) := by
  obtain ⟨s, hs, hlast⟩ : ∃ s : State (ringList Nat),
      exec (step numbered) State.init punctualFlip = some s ∧ s.log.getLast? = some (.getUstMsc 3) := ⟨_, rfl, rfl⟩
  exact ⟨s, hs, hlast, current_msc_monotone (Reach.of_exec punctualFlip hs)⟩

/-- A flip that is one redraw late sets the counter back. -/
theorem late_flip_steps_back : ¬ ∀ (calloc : Calloc) (s : State (ringList Nat)),
    Reach (step calloc) Free State.init s → (values s.log).Pairwise (· ≤ ·) := by
  intro h
  have hlate := h numbered _
    (Reach.of_exec [.redraw fun _ => [], .redraw fun _ => [], .call (.afterFlip 7 1)] rfl)
  revert hlate
  decide

end Counter

/-! ## The order of a pass -/

/-- The counter behind the flips of a notification. -/
def flipped (msc : UInt64) (cs : List Call) : UInt64 :=
  cs.foldl (fun msc c =>
    match c with
    | .afterFlip _ target_msc => min (msc + 1) target_msc
    | .queueVblank _ _ | .getUstMsc => msc) msc

/-- The entries whose turn finds them due, when a pass starts with the counter at `msc`. -/
def dueFrom (calls : Nat → List Call) : UInt64 → List Vblank → List Vblank
  | _, [] => []
  | msc, v :: vs =>
    if v.msc ≤ msc then v :: dueFrom calls (flipped msc (calls v.number)) vs else dueFrom calls msc vs

/-- The entries that were notified. -/
def notified (log : List Event) : List Vblank :=
  log.filterMap fun
    | .notify v _ => some v
    | _ => none

/-- The order that is asked for: by `msc`, then in queueing order. -/
def Before (v w : Vblank) : Prop := v.msc < w.msc ∨ v.msc = w.msc ∧ v.number < w.number

instance : DecidableRel Before := fun v w => inferInstanceAs (Decidable (v.msc < w.msc ∨ _))

theorem dueFrom_sublist (calls : Nat → List Call) (msc : UInt64) (vs : List Vblank) :
    (dueFrom calls msc vs).Sublist vs := by
  induction vs generalizing msc with
  | nil => exact .slnil
  | cons v vs ih =>
    unfold dueFrom
    split
    · exact (ih _).cons_cons v
    · exact (ih _).cons v

/-- Without flips the entries that are due are those up to the counter. -/
theorem dueFrom_of_forall_flipped {calls : Nat → List Call} {msc : UInt64}
    (h : ∀ n, flipped msc (calls n) = msc) (vs : List Vblank) :
    dueFrom calls msc vs = vs.filter fun v => v.msc ≤ msc := by
  induction vs with
  | nil => rfl
  | cons v vs ih =>
    unfold dueFrom
    rw [h, ih]
    by_cases hv : v.msc ≤ msc
    · rw [if_pos hv, List.filter_cons_of_pos (by simpa using hv)]
    · rw [if_neg hv, List.filter_cons_of_neg (by simpa using hv)]

/-- Newest first is the order that is asked for exactly when a newer entry has the smaller `msc`. -/
theorem pairwise_before_iff {vs : List Vblank} (h : vs.Pairwise fun v w => w.number < v.number) :
    vs.Pairwise Before ↔ ∀ v ∈ vs, ∀ w ∈ vs, v.number < w.number → w.msc < v.msc := by
  constructor
  · intro hb
    have hfront : vs.Pairwise fun v w => v.number < w.number → w.msc < v.msc :=
      h.imp fun hvw hlt => absurd hlt (Nat.lt_asymm hvw)
    have hback : vs.Pairwise (flip fun v w => v.number < w.number → w.msc < v.msc) := by
      refine (h.and hb).imp fun {v w} hvw _ => ?_
      rcases hvw.2 with hmsc | ⟨-, hlt⟩
      · exact hmsc
      · exact absurd hlt (Nat.lt_asymm hvw.1)
    intro v hv w hw
    exact hfront.forall_of_forall_of_flip (fun v _ hlt => absurd hlt (Nat.lt_irrefl _)) hback hv hw
  · intro hall
    exact h.imp_of_mem fun hv hw hlt => .inl (hall _ hw _ hv hlt)

section Order

variable {L : IntrusiveList Nat} {calloc : Calloc} {s t : State L}

/-- What calls leave of the counter, and what they add to the log. -/
theorem callAll_quiet (calloc : Calloc) (s : State L) (cs : List Call) :
    (s.callAll calloc cs).current_msc = flipped s.current_msc cs ∧
      ∃ evs, (s.callAll calloc cs).log = s.log ++ evs ∧ notified evs = [] := by
  induction cs generalizing s with
  | nil => exact ⟨rfl, [], (List.append_nil _).symm, rfl⟩
  | cons c cs ih =>
    obtain ⟨hmsc, evs, hlog, hnone⟩ := ih (s.call calloc c)
    have hone : (s.call calloc c).current_msc = flipped s.current_msc [c] ∧
        ∃ es, (s.call calloc c).log = s.log ++ es ∧ notified es = [] := by
      cases c with
      | getUstMsc => exact ⟨rfl, _, rfl, rfl⟩
      | afterFlip event_id target_msc => exact ⟨rfl, _, rfl, rfl⟩
      | queueVblank event_id msc =>
        rcases queueVblank_cases calloc s event_id msc with ⟨p, -, heq⟩ | heq
        · rw [State.call, heq]
          exact ⟨rfl, _, rfl, rfl⟩
        · rw [State.call, heq]
          exact ⟨rfl, [], (List.append_nil _).symm, rfl⟩
    obtain ⟨hc, es, hes, hnone'⟩ := hone
    refine ⟨?_, es ++ evs, ?_, ?_⟩
    · exact hmsc.trans (congrArg (flipped · cs) hc)
    · exact hlog.trans (by rw [hes, List.append_assoc])
    · unfold notified at *
      rw [List.filterMap_append, hnone, hnone', List.nil_append]

/-- A pass notifies the entries that are due, newest first. -/
theorem perform_notifies (calloc : Calloc) (h : Inv s) (calls : Nat → List Call) :
    ∃ t evs, s.loriePerformVblanks calloc calls = some t ∧ t.log = s.log ++ evs ∧
      notified evs = dueFrom calls s.current_msc s.entries := by
  let R : State L → List Nat → Prop := fun u rs => ∃ evs, u.log = s.log ++ evs ∧
    notified evs ++ dueFrom calls u.current_msc (rs.map u.vblanks) = dueFrom calls s.current_msc s.entries
  have hskip : ∀ u qs p rs, Inv u → u.allocated = qs ++ p :: rs → ¬ (u.vblanks p).msc ≤ u.current_msc →
      R u (p :: rs) → R u rs := by
    rintro u qs p rs - - hd ⟨evs, hlog, hevs⟩
    refine ⟨evs, hlog, ?_⟩
    rw [← hevs, List.map_cons, dueFrom, if_neg hd]
  have hdue : ∀ u qs p rs, Inv u → u.allocated = qs ++ p :: rs → (u.vblanks p).msc ≤ u.current_msc →
      R u (p :: rs) → R (u.settle calloc calls p) rs := by
    rintro u qs p rs hu heq hd ⟨evs, hlog, hevs⟩
    obtain ⟨-, -, hkept⟩ := Grows.settle calloc hu calls qs heq
    obtain ⟨hmsc, es, hes, hnone⟩ := callAll_quiet calloc (u.record (.notify (u.vblanks p) u.current_msc))
      (calls (u.vblanks p).number)
    refine ⟨evs ++ .notify (u.vblanks p) u.current_msc :: es, ?_, ?_⟩
    · refine hes.trans ?_
      rw [State.record, hlog]
      simp
    · have hmap : rs.map (u.settle calloc calls p).vblanks = rs.map u.vblanks :=
        List.map_congr_left fun q hq => hkept q (by rw [heq]; simp [hq])
      rw [← hevs, hmap, List.map_cons, dueFrom, if_pos hd, show (u.settle calloc calls p).current_msc =
        flipped u.current_msc (calls (u.vblanks p).number) from hmsc]
      unfold notified at *
      simp [hnone]
  obtain ⟨t, ht, -, evs, hlog, hevs⟩ := performVblanks_rule calloc calls hskip hdue h
    ⟨[.pass s.current_msc], rfl, rfl⟩
  refine ⟨_, evs ++ [.ret], ht, ?_, ?_⟩
  · rw [State.record, hlog, List.append_assoc]
  · rw [← hevs, notified, List.filterMap_append]
    rfl

/-- The counter that the pass of a call starts with, and the calls of its notifications. -/
def Action.pass? (s : State L) : Action → Option (UInt64 × (Nat → List Call))
  | .redraw calls => some (s.current_msc + 1, calls)
  | .setSize calls => some (s.current_msc, calls)
  | .call _ | .abort _ => none

/-- **The order of a pass**: in every run every pass notifies the entries that are due, newest first. The order is that
of their `msc`, and for equal `msc` the queueing order, exactly when of any two of them the one queued later has the
smaller `msc`. -/
theorem due_order {a : Action} {msc : UInt64} {calls : Nat → List Call} (h : Reach (step calloc) Free State.init s)
    (ha : a.pass? s = some (msc, calls)) :
    ∃ t evs, step calloc s a = some t ∧ t.log = s.log ++ evs ∧ notified evs = dueFrom calls msc s.entries ∧
      ((notified evs).Pairwise Before ↔ ∀ v ∈ dueFrom calls msc s.entries, ∀ w ∈ dueFrom calls msc s.entries,
        v.number < w.number → w.msc < v.msc) := by
  have hinv := Inv.reach calloc h
  have hpass : ∃ t evs, step calloc s a = some t ∧ t.log = s.log ++ evs ∧
      notified evs = dueFrom calls msc s.entries := by
    cases a with
    | call c => cases ha
    | abort id => cases ha
    | setSize calls =>
      cases ha
      exact perform_notifies calloc hinv calls
    | redraw calls =>
      cases ha
      have hnext : Inv { s with current_msc := s.current_msc + 1 } := ⟨hinv.holds, hinv.nodup, hinv.newest, hinv.lt⟩
      obtain ⟨t, evs, ht, hlog, hevs⟩ := perform_notifies calloc (hnext.record _) calls
      refine ⟨t, .redraw (s.current_msc + 1) :: evs, ht, ?_, hevs⟩
      rw [hlog, State.record, List.append_assoc]
      rfl
  obtain ⟨t, evs, ht, hlog, hevs⟩ := hpass
  refine ⟨t, evs, ht, hlog, hevs, ?_⟩
  rw [hevs]
  exact pairwise_before_iff (hinv.newest.sublist (dueFrom_sublist _ _ _))

/-- Two entries, and a flip that advances the counter to the first -/
def twoQueued (first second : UInt64) : List Action :=
  [.call (.queueVblank 7 first), .call (.queueVblank 8 second), .call (.afterFlip 9 5)]

theorem due_order_falling : ∃ s : State (ringList Nat), exec (step numbered) State.init (twoQueued 2 1) = some s ∧
    ∃ t evs, step numbered s (.redraw fun _ => []) = some t ∧ t.log = s.log ++ evs ∧
      notified evs = dueFrom (fun _ => []) 2 s.entries ∧
      ((notified evs).Pairwise Before ↔ ∀ v ∈ dueFrom (fun _ => []) 2 s.entries,
        ∀ w ∈ dueFrom (fun _ => []) 2 s.entries, v.number < w.number → w.msc < v.msc) := by
  obtain ⟨s, hs, hpass⟩ : ∃ s : State (ringList Nat), exec (step numbered) State.init (twoQueued 2 1) = some s ∧
      (Action.redraw fun _ => []).pass? s = some (2, fun _ => []) := ⟨_, rfl, rfl⟩
  exact ⟨s, hs, due_order (Reach.of_exec (twoQueued 2 1) hs) hpass⟩

/-- Two entries that are due at once are notified with the older one last. -/
theorem due_reversed : ¬ ∀ (calloc : Calloc) (s t : State (ringList Nat)) (calls : Nat → List Call) (evs : List Event),
    Reach (step calloc) Free State.init s → step calloc s (.redraw calls) = some t → t.log = s.log ++ evs →
      (notified evs).Pairwise Before := by
  intro h
  have hrising := h numbered _ _ (fun _ => [])
    [.redraw 2, .pass 2, .notify ⟨8, 2, 1⟩ 2, .notify ⟨7, 1, 0⟩ 2, .ret] (Reach.of_exec (twoQueued 1 2) rfl) rfl rfl
  revert hrising
  decide

end Order

end Lorie.Present.Vblanks
