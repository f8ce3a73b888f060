import Lorie.WorkQueue.Passes
import Mathlib.Data.List.Range

/-!
# Cleaning up after clients that are gone

`ProcessWorkQueueZombies` takes the items whose clients are gone, wherever they stand in the list, and calls their functions
for the last time. The functions may queue work, close further clients, and clean up in turn; every call begins again at the
head of the list after each function.

- `Cleaning`: which items are left, and where those that were taken are;
- `zombies_cleaned`: what holds when the call returns, and how many functions it calls;
- `zombies_endless`: functions that go on for ever keep a call from returning.
-/

namespace Lorie.WorkQueue

open Lorie.Lib

variable {s t : State} {ps qs : List Nat} {p : Nat} {a : Action}

/-- The items that were taken -/
def Record.removed (r : Record) : List Nat := r.taken.map Taken.id

section Cleanup

variable {last n : Nat} {rest above : List Frame} {stage : Stage} {r r' : Record} {before : List Nat}
  {already : List (Nat × Outcome)}

/-- The items `before` the call and those accepted since, numbered from `n` on, are in the list in their order, but for those
that were taken; each of these is in the function of one pass, or has ended. -/
structure Cleaning (before : List Nat) (n last : Nat) (rest : List Frame) (already : List (Nat × Outcome)) (s : State)
    (r : Record) (qs : List Nat) : Prop where
  nodup : before.Nodup
  lt : ∀ i ∈ before, i < n
  le : n ≤ s.accepted
  part : ids s.items qs = (before ++ List.range' n (s.accepted - n)).filter fun i => i ∉ r.removed
  removed : r.removed.Nodup
  below : ∀ i ∈ r.removed, i < s.accepted
  old : ∀ q ∈ qs, (s.items q).sequence ≤ last → (s.items q).id ∈ before
  called : ∀ i ∈ r.called, i ∈ before
  ledger : ∃ top fin, s.stack = top ++ rest ∧ s.finished = already ++ fin ∧ (∀ f ∈ fin, f.2 = .zombie) ∧
    (fin.map Prod.fst ++ ids s.items (executing top)).Perm r.removed

/-- Steps that leave the list and the items in it -/
theorem Cleaning.congr (h : Cleaning before n last rest already s r ps) (hitems : ∀ q ∈ ps, t.items q = s.items q)
    (haccepted : t.accepted = s.accepted) (htaken : r'.taken = r.taken)
    (hledger : ∃ top fin, t.stack = top ++ rest ∧ t.finished = already ++ fin ∧ (∀ f ∈ fin, f.2 = .zombie) ∧
      (fin.map Prod.fst ++ ids t.items (executing top)).Perm r.removed) :
    Cleaning before n last rest already t r' ps where
  nodup := h.nodup
  lt := h.lt
  le := by
    rw [haccepted]
    exact h.le
  part := by
    have hids : ids t.items ps = ids s.items ps := List.map_congr_left fun q hq => by rw [hitems q hq]
    unfold Record.removed
    rw [hids, haccepted, htaken]
    exact h.part
  removed := by
    unfold Record.removed
    rw [htaken]
    exact h.removed
  below := by
    unfold Record.removed
    rw [htaken, haccepted]
    exact h.below
  old := by
    intro q hq hle
    rw [hitems q hq] at hle ⊢
    exact h.old q hq hle
  called := by
    unfold Record.called
    rw [htaken]
    exact h.called
  ledger := by
    unfold Record.removed
    rw [htaken]
    exact hledger

/-- A new item -/
theorem Cleaning.queue (h : Cleaning before n last rest already s r ps) (hitems : ∀ q ∈ ps, t.items q = s.items q)
    (hid : (t.items p).id = s.accepted) (hnew : last < (t.items p).sequence) (haccepted : t.accepted = s.accepted + 1)
    (htaken : r'.taken = r.taken)
    (hledger : ∃ top fin, t.stack = top ++ rest ∧ t.finished = already ++ fin ∧ (∀ f ∈ fin, f.2 = .zombie) ∧
      (fin.map Prod.fst ++ ids t.items (executing top)).Perm r.removed) :
    Cleaning before n last rest already t r' (ps ++ [p]) where
  nodup := h.nodup
  lt := h.lt
  le := by
    rw [haccepted]
    exact h.le.trans (Nat.le_succ _)
  part := by
    have hids : ids t.items ps = ids s.items ps := List.map_congr_left fun q hq => by rw [hitems q hq]
    have hfresh : s.accepted ∉ r.removed := fun hin => absurd (h.below _ hin) (Nat.lt_irrefl _)
    have hlen : s.accepted + 1 - n = (s.accepted - n) + 1 := Nat.succ_sub h.le
    have hlast : n + (s.accepted - n) = s.accepted := Nat.add_sub_cancel' h.le
    have hremoved : r'.removed = r.removed := by
      unfold Record.removed
      rw [htaken]
    rw [State.ids_append, hids, haccepted, hlen, List.range'_1_concat, hlast, ← List.append_assoc, List.filter_append, hremoved,
      ← h.part, List.filter_cons_of_pos (by simpa using hfresh), List.filter_nil]
    show _ ++ [(t.items p).id] = _
    rw [hid]
  removed := by
    unfold Record.removed
    rw [htaken]
    exact h.removed
  below := by
    unfold Record.removed
    rw [htaken, haccepted]
    exact fun i hi => Nat.lt_succ_of_lt (h.below i hi)
  old := by
    intro q hq hle
    rcases List.mem_append.1 hq with hq | hq
    · rw [hitems q hq] at hle ⊢
      exact h.old q hq hle
    · rw [List.mem_singleton.1 hq] at hle
      omega
  called := by
    unfold Record.called
    rw [htaken]
    exact h.called
  ledger := by
    unfold Record.removed
    rw [htaken]
    exact hledger

/-- What has been numbered is below `accepted`. -/
theorem Cleaning.mem_lt (h : Cleaning before n last rest already s r ps) {i : Nat}
    (hi : i ∈ before ++ List.range' n (s.accepted - n)) : i < s.accepted := by
  have hle := h.le
  rcases List.mem_append.1 hi with hi | hi
  · exact lt_of_lt_of_le (h.lt i hi) hle
  · have := (List.mem_range'_1.1 hi).2
    omega

theorem Cleaning.numbered (h : Cleaning before n last rest already s r ps) :
    (before ++ List.range' n (s.accepted - n)).Nodup := by
  refine List.nodup_append.2 ⟨h.nodup, List.nodup_range', ?_⟩
  rintro i hi j hj rfl
  have := h.lt i hi
  have := (List.mem_range'_1.1 hj).1
  omega

/-- An item is taken. -/
theorem Cleaning.take {as bs : List Nat} (h : Cleaning before n last rest already s r (as ++ p :: bs)) (own : Bool)
    (hown : own = true → (s.items p).sequence ≤ last) (hitems : t.items = s.items) (haccepted : t.accepted = s.accepted)
    (htaken : r'.taken = r.taken ++ [⟨(s.items p).id, (s.items p).sequence, own⟩])
    (hledger : ∃ top fin, t.stack = top ++ rest ∧ t.finished = already ++ fin ∧ (∀ f ∈ fin, f.2 = .zombie) ∧
      (fin.map Prod.fst ++ ids t.items (executing top)).Perm (r.removed ++ [(s.items p).id])) :
    Cleaning before n last rest already t r' (as ++ bs) := by
  have hremoved : r'.removed = r.removed ++ [(s.items p).id] := by simp [Record.removed, htaken]
  have hmem : p ∈ as ++ p :: bs := List.mem_append_right _ List.mem_cons_self
  obtain ⟨hnumber, hnot⟩ : (s.items p).id ∈ before ++ List.range' n (s.accepted - n) ∧ (s.items p).id ∉ r.removed := by
    have hids : (s.items p).id ∈ ids s.items (as ++ p :: bs) := List.mem_map.2 ⟨p, hmem, rfl⟩
    rw [h.part] at hids
    exact ⟨(List.mem_filter.1 hids).1, of_decide_eq_true (List.mem_filter.1 hids).2⟩
  refine ⟨h.nodup, h.lt, ?_, ?_, ?_, ?_, ?_, ?_, ?_⟩
  · rw [haccepted]
    exact h.le
  · have hnodup := h.numbered.filter fun i => i ∉ r.removed
    have hsplit : ((before ++ List.range' n (s.accepted - n)).filter fun i => i ∉ r'.removed) =
        ((before ++ List.range' n (s.accepted - n)).filter fun i => i ∉ r.removed).filter fun i => i ≠ (s.items p).id := by
      rw [List.filter_filter]
      refine List.filter_congr fun i _ => ?_
      rw [hremoved]
      simp [Bool.and_comm]
    have hmid : ids s.items (as ++ p :: bs) = ids s.items as ++ (s.items p).id :: ids s.items bs := List.map_append
    rw [← h.part, hmid] at hnodup
    rw [haccepted, hsplit, ← h.part, hitems, hmid, filter_ne_of_nodup hnodup, State.ids_append]
  · rw [hremoved]
    exact List.nodup_append.2 ⟨h.removed, List.nodup_singleton _, by
      rintro i hi j hj rfl
      exact hnot (List.mem_singleton.1 hj ▸ hi)⟩
  · rw [hremoved, haccepted]
    intro i hi
    rcases List.mem_append.1 hi with hi | hi
    · exact h.below i hi
    · rw [List.mem_singleton.1 hi]
      exact h.mem_lt hnumber
  · intro q hq hle
    rw [hitems] at hle ⊢
    refine h.old q ?_ hle
    rcases List.mem_append.1 hq with hq | hq
    · exact List.mem_append_left _ hq
    · exact List.mem_append_right _ (List.mem_cons_of_mem _ hq)
  · intro i hi
    cases own with
    | true =>
      have hcalled : r'.called = r.called ++ [(s.items p).id] := by simp [Record.called, htaken, List.filter_append]
      rw [hcalled] at hi
      rcases List.mem_append.1 hi with hi | hi
      · exact h.called i hi
      · rw [List.mem_singleton.1 hi]
        exact h.old p hmem (hown rfl)
    | false =>
      have hcalled : r'.called = r.called := by simp [Record.called, htaken, List.filter_append]
      rw [hcalled] at hi
      exact h.called i hi
  · rw [hremoved]
    exact hledger

/-- The items of the innermost passes -/
theorem ids_executing {top : List Frame} (hs : s.stack = top ++ rest) (hitems : ∀ q ∈ held s.stack, t.items q = s.items q) :
    ids t.items (executing top) = ids s.items (executing top) := by
  refine List.map_congr_left fun q hq => ?_
  rw [hitems q]
  apply State.executing_sub_held
  rw [hs]
  unfold executing at hq ⊢
  rw [List.flatMap_append]
  exact List.mem_append_left _ hq

/-- The innermost pass is one of those that the call started, while it goes on. -/
theorem top_cons {top : List Frame} {f : Frame} {fs : List Frame} (hs : s.stack = top ++ rest) (hf : s.stack = f :: fs)
    (hlt : rest.length < s.stack.length) : ∃ top', top = f :: top' ∧ fs = top' ++ rest := by
  cases top with
  | nil =>
    rw [hs] at hlt
    exact absurd hlt (Nat.lt_irrefl _)
  | cons g top' =>
    rw [hf] at hs
    cases hs
    exact ⟨top', rfl, rfl⟩

/-- **One step of a call** keeps what is known of the items. -/
theorem Cleaning.step (h : Cleaning before n last rest already s r ps) (hd : During .zombies last rest s r above stage)
    (hdoes : s.Does ps a t qs) : Cleaning before n last rest already t (r.observe rest.length s a) qs := by
  have hle := hd.le
  have hlt : rest.length < s.stack.length := by
    rw [hd.stack, List.length_append, List.length_cons]
    omega
  obtain ⟨top, fin, hs, hfin, hzombie, hperm⟩ := h.ledger
  cases hdoes with
  | quiet act items stack sequence accepted finished =>
    have hsame : (r.observe rest.length s a).taken = r.taken := by
      rcases act with ⟨p, client, rfl⟩ | ⟨c, rfl⟩ <;> exact (observe_same rfl rfl).1
    refine h.congr (fun q hq => items q (.inl hq)) accepted hsame ⟨top, fin, stack.trans hs, finished.trans hfin, hzombie, ?_⟩
    rw [ids_executing hs fun q hq => items q (.inr hq)]
    exact hperm
  | @queue p t items id new stack sequence accepted finished =>
    obtain ⟨htaken, -⟩ := observe_same (r := r) (d := rest.length) (s := s) (a := .queue p) rfl rfl
    refine h.queue (fun q hq => items q (.inl hq)) id (by omega) accepted htaken
      ⟨top, fin, stack.trans hs, finished.trans hfin, hzombie, ?_⟩
    rw [ids_executing hs fun q hq => items q (.inr hq)]
    exact hperm
  | @enter pass running =>
    obtain ⟨htaken, -⟩ := observe_same (r := r) (d := rest.length) (s := s) (a := .enter pass) rfl rfl
    refine h.congr (fun _ _ => rfl) rfl htaken ⟨⟨pass, s.sequence, .loop⟩ :: top, fin, ?_, hfin, hzombie, hperm⟩
    rw [hs]
    rfl
  | @takes pass last' rest' p links as bs stack take split le first gone call =>
    have htaken := takenBy_some (d := rest.length) stack take
    obtain ⟨top', rfl, hrest⟩ := top_cons hs stack hlt
    subst split
    refine h.take (rest'.length = rest.length) ?_ rfl rfl ?_ ?_
    · intro hown
      obtain ⟨-, hf, -⟩ | ⟨-, -, -, -, -, hne, -⟩ := hd.top stack
      · cases hf
        exact le
      · exact absurd (of_decide_eq_true hown) hne
    · simp [Record.observe, htaken]
    · refine ⟨⟨pass, last', .running p⟩ :: top', fin, ?_, hfin, hzombie, ?_⟩
      · rw [hrest]
        rfl
      · rw [State.executing_cons, State.ids_append]
        refine (List.perm_append_comm_assoc _ _ _).trans ?_
        exact (List.perm_append_comm : (ids s.items [p] ++ _).Perm (_ ++ ids s.items [p])).trans (hperm.append_right _)
  | @clears last' rest' t qs stack =>
    obtain ⟨rfl, hf, rfl⟩ | ⟨above', rfl, hfs, hpass, -, hne, hrunning⟩ := hd.top stack
    · cases hf
    · cases hpass
  | @leaves pass last' rest' stack take none =>
    obtain ⟨htaken, -⟩ := observe_same (r := r) (takenBy_none (d := rest.length) stack take) rfl
    obtain ⟨top', rfl, hrest⟩ := top_cons hs stack hlt
    exact h.congr (fun _ _ => rfl) rfl htaken ⟨top', fin, hrest, hfin, hzombie, hperm⟩
  | @fails last' p rest' stack =>
    obtain ⟨rfl, hf, rfl⟩ | ⟨above', rfl, hfs, hpass, -, hne, hrunning⟩ := hd.top stack
    · cases hf
    · cases hpass
  | @ends pass last' p rest' done stack over' =>
    have hpass : pass = .zombies := by
      obtain ⟨-, hf, -⟩ | ⟨-, -, -, hpass, -, -, -⟩ := hd.top stack
      · cases hf
        rfl
      · exact hpass
    subst hpass
    obtain ⟨top', rfl, hrest⟩ := top_cons hs stack hlt
    refine h.congr (fun _ _ => rfl) rfl ?_
      ⟨⟨.zombies, last', .returned p true⟩ :: top', fin ++ [((s.items p).id, .zombie)], ?_, ?_, ?_, ?_⟩
    · simp [Record.observe, Record.takenBy]
    · rw [hrest]
      rfl
    · rw [hfin, List.append_assoc]
      rfl
    · intro f hf
      rcases List.mem_append.1 hf with hf | hf
      · exact hzombie f hf
      · rw [List.mem_singleton.1 hf]
    · rw [State.executing_cons, State.ids_append] at hperm
      rw [List.map_append, List.append_assoc]
      exact hperm
  | @frees pass last' p rest' stack =>
    obtain ⟨top', rfl, hrest⟩ := top_cons hs stack hlt
    refine h.congr (fun _ _ => rfl) rfl ?_ ⟨⟨pass, last', .loop⟩ :: top', fin, ?_, hfin, hzombie, hperm⟩
    · simp [Record.observe, Record.takenBy]
    · rw [hrest]
      rfl
  | @requeues pass last' p rest' t before' items id new stack sequence accepted finished =>
    obtain ⟨rfl, hf, rfl⟩ | ⟨above', rfl, hfs, hpass, hstage, hne, hrunning⟩ := hd.top before'
    · cases hf
      cases hd.again p rfl
    · exact absurd rfl (hstage p)

/-- What holds of a call, until it returns and when it does. -/
def Cleans (before : List Nat) (n last : Nat) (rest : List Frame) (already : List (Nat × Outcome)) (w : State × Record) : Prop :=
  ∃ qs, w.1.Inv qs ∧ Cleaning before n last rest already w.1 w.2 qs ∧
    ((∃ above stage, During .zombies last rest w.1 w.2 above stage) ∨
      (w.1.stack = rest ∧ (∀ q ∈ qs, (w.1.items q).sequence ≤ last → w.1.zombie q = false) ∧
        w.2.steps = 3 * w.2.called.length + 1))

theorem Cleans.step {w w' : State × Record} (h : Cleans before n last rest already w) (hc : Within rest.length w a)
    (hs : watch rest.length w a = some w') : Cleans before n last rest already w' := by
  obtain ⟨ps, hinv, hcleaning, hduring | ⟨hreturned, -, -⟩⟩ := h
  · obtain ⟨above, stage, hduring⟩ := hduring
    obtain ⟨t, ht, rfl⟩ := Option.map_eq_some_iff.1 hs
    obtain ⟨qs, hdoes, hinv'⟩ := State.does_of_step hinv ht
    refine ⟨qs, hinv', hcleaning.step hduring hdoes, ?_⟩
    obtain hgoes | ⟨hstack, hitems, -, hgone, rfl, hnone, htaken, -, hsteps⟩ := hduring.step (by decide) hdoes hc.2
    · exact .inl hgoes
    · refine .inr ⟨hstack, fun q hq hle => ?_, ?_⟩
      · have hzombie : t.zombie q = w.1.zombie q := by
          unfold State.zombie
          rw [hitems, hgone]
        rw [hitems] at hle
        rw [hzombie]
        exact (hnone q hq hle).2
      · unfold Record.called
        rw [htaken]
        exact hsteps
  · have hlt := hc.1
    rw [hreturned] at hlt
    exact absurd hlt (Nat.lt_irrefl _)

/-- The number of steps and of functions that the call itself calls -/
theorem Cleans.steps_le {w : State × Record} (h : Cleans before n last rest already w) :
    w.2.called.length ≤ before.length ∧ w.2.steps ≤ 3 * before.length + 1 := by
  obtain ⟨qs, -, hcleaning, hstage⟩ := h
  have hnodup : w.2.called.Nodup := hcleaning.removed.sublist (List.filter_sublist.map _)
  have hlen := (hnodup.subperm hcleaning.called).length_le
  refine ⟨hlen, ?_⟩
  obtain ⟨above, stage, hduring⟩ | ⟨-, -, hsteps⟩ := hstage
  · have := hduring.steps_le
    omega
  · omega

end Cleanup

/-- **`ProcessWorkQueueZombies` is complete and keeps the order.** Let `ps` be the list when the call begins, and let the functions
of the items, and other threads, do anything but start a pass that is not `ProcessWorkQueueZombies`. At any time the list
holds the items of `ps` and those accepted since, in this order, without those that were taken by the call or in its
functions, each of them once. When the call returns, no item up to the snapshot has a client that is gone, and the
functions of those that were taken have returned, once each. The call itself calls at most as many functions as `ps` has
items, takes at most three steps for each, and one, and is never stuck outside the functions. -/
theorem zombies_cleaned {s₀ s s' : State} {r : Record} (h₀ : Reach step Free State.init s₀)
    (henter : step s₀ (.enter .zombies) = some s)
    (hrun : Reach (watch s₀.stack.length) (Within s₀.stack.length) (s, {}) (s', r)) :
    ∃ ps qs : List Nat, s₀.links.Holds ps ∧ s'.links.Holds qs ∧
      ids s'.items qs =
        ((ids s₀.items ps ++ List.range' s₀.accepted (s'.accepted - s₀.accepted)).filter fun i => i ∉ r.removed) ∧
      r.removed.Nodup ∧
      (s'.stack.length = s₀.stack.length →
        (∀ q ∈ qs, (s'.items q).sequence ≤ s₀.sequence → s'.zombie q = false) ∧
          ∃ fin, s'.finished = s₀.finished ++ fin ∧ fin.Perm (r.removed.map fun i => (i, .zombie))) ∧
      r.called.length ≤ ps.length ∧ r.steps ≤ 3 * ps.length + 1 ∧
      (s₀.stack.length < s'.stack.length →
        (∀ f rest, s'.stack = f :: rest → ∀ p, f.stage ≠ .running p) →
          ∃ a t, Record.passStep a = true ∧ step s' a = some t) := by
  obtain ⟨ps, hps⟩ := inv_of_reach h₀
  obtain ⟨qs₀, hdoes, hinv⟩ := State.does_of_step hps henter
  have hstart : Cleans (ids s₀.items ps) s₀.accepted s₀.sequence s₀.stack s₀.finished (s, {}) := by
    cases hdoes with
    | quiet act =>
      obtain ⟨p, client, ha⟩ | ⟨c, ha⟩ := act <;> cases ha
    | enter running =>
      refine ⟨ps, hinv, ?_, .inl ⟨[], .loop, During.enter s₀ .zombies⟩⟩
      refine ⟨hps.ids_nodup, fun i hi => hps.id_lt hi, Nat.le_refl _, ?_, .nil, nofun, fun q hq _ => ?_, nofun,
        ⟨[⟨.zombies, s₀.sequence, .loop⟩], [], rfl, (List.append_nil _).symm, nofun, .nil⟩⟩
      · rw [Nat.sub_self, List.range'_zero, List.append_nil]
        exact (List.filter_eq_self.2 fun i _ => by simp [Record.removed]).symm
      · exact List.mem_map.2 ⟨q, hq, rfl⟩
  have hend : Cleans (ids s₀.items ps) s₀.accepted s₀.sequence s₀.stack s₀.finished (s', r) :=
    hrun.invariant hstart fun w a w' hw hc hs => hw.step hc hs
  obtain ⟨hcalled, hsteps⟩ := hend.steps_le
  rw [show (ids s₀.items ps).length = ps.length from List.length_map _] at hcalled hsteps
  obtain ⟨qs, hqs, hcleaning, hstage⟩ := hend
  refine ⟨ps, qs, hps.ordered.holds, hqs.ordered.holds, hcleaning.part, hcleaning.removed, ?_, hcalled, hsteps,
    pass_goes_on⟩
  intro hlen
  obtain ⟨above, stage, hduring⟩ | ⟨hstack, hnone, -⟩ := hstage
  · rw [hduring.stack, List.length_append, List.length_cons] at hlen
    omega
  · obtain ⟨top, fin, htop, hfin, hzombie, hperm⟩ := hcleaning.ledger
    rw [hstack] at htop
    obtain rfl : top = [] := by
      have := congrArg List.length htop
      rw [List.length_append] at this
      exact List.length_eq_zero_iff.1 (by omega)
    refine ⟨hnone, fin, hfin, ?_⟩
    have hall : fin = (fin.map Prod.fst).map fun i => (i, Outcome.zombie) := by
      rw [List.map_map]
      refine (List.map_id fin).symm.trans (List.map_congr_left fun f hf => ?_)
      exact Prod.ext rfl (hzombie f hf)
    rw [hall]
    refine List.Perm.map _ ?_
    rw [show ids s'.items (executing []) = [] from rfl, List.append_nil] at hperm
    exact hperm

/-- Three items, of which two are of one client -/
def twoZombies : List Action := [.malloc 1 (some 7), .queue 1, .malloc 2 none, .queue 2, .malloc 3 (some 7), .queue 3,
  .closeClient 7]

/-- The first function queues another item of the client and cleans up in turn. -/
def cleaningTwice : List Action :=
  [.take, .malloc 4 (some 7), .queue 4, .enter .zombies, .take, .ret false, .dispose, .take, .ret true, .dispose, .take,
    .ret true, .dispose, .take]

theorem zombies_cleaned_twice :
    ∃ s₀ s s' : State, exec step State.init twoZombies = some s₀ ∧ step s₀ (.enter .zombies) = some s ∧
      s'.finished = [(2, .zombie), (3, .zombie), (0, .zombie)] ∧
      ∃ qs : List Nat, s'.links.Holds qs ∧ ∀ q ∈ qs, (s'.items q).sequence ≤ s₀.sequence → s'.zombie q = false := by
  obtain ⟨s₀, h₀, s, henter, s', r, hrun, hstack, hfinished⟩ :
      ∃ s₀, exec step State.init twoZombies = some s₀ ∧ ∃ s, step s₀ (.enter .zombies) = some s ∧
        ∃ (s' : State) (r : Record),
          exec (fun w a => if Within s₀.stack.length w a then watch s₀.stack.length w a else none) (s, {})
              cleaningTwice = some (s', r) ∧
            s'.stack.length = s₀.stack.length ∧ s'.finished = [(2, .zombie), (3, .zombie), (0, .zombie)] :=
    ⟨_, rfl, _, rfl, _, _, rfl, rfl, rfl⟩
  obtain ⟨ps, qs, -, hqs, -, -, hreturned, -⟩ :=
    zombies_cleaned (.of_exec twoZombies h₀) henter (.of_exec_guarded cleaningTwice hrun)
  exact ⟨s₀, s, s', h₀, henter, hfinished, qs, hqs, (hreturned hstack).1⟩

/-! ## Functions that go on for ever -/

/-- The call takes an item, whose function queues another one of the same client and cleans up in turn. -/
def again (n : Nat) : List Action := [.take, .malloc (n + 2) (some 7), .queue (n + 2), .enter .zombies]

/-- After `n` functions, none of which has returned -/
structure Endless (n : Nat) (s : State) : Prop where
  inv : s.Inv [n + 1]
  zombie : s.zombie (n + 1) = true
  gone : 7 ∈ s.gone
  allocated : ∀ p ∈ s.allocated, p < n + 2
  stack : ∃ rest, s.stack = ⟨.zombies, s.sequence, .loop⟩ :: rest ∧ rest.length = n

theorem Endless.next {n : Nat} (h : Endless n s) : ∃ t, exec step s (again n) = some t ∧ Endless (n + 1) t := by
  obtain ⟨rest, hstack, hlen⟩ := h.stack
  -- the item is found
  have htake : ∃ links, s.take s.sequence true = some (n + 1, links) ∧ links.Holds [] := by
    cases htake : s.take s.sequence true with
    | none =>
      obtain ⟨-, hzombie⟩ := h.inv.take_none htake (n + 1) List.mem_cons_self (h.inv.ordered.bound _ List.mem_cons_self)
      rw [h.zombie] at hzombie
      cases hzombie
    | some item =>
      obtain ⟨p, links⟩ := item
      obtain ⟨as, bs, hsplit, hlinks, -⟩ := h.inv.take_some htake
      cases as with
      | nil =>
        cases hsplit
        have hremove := @Links.Holds.remove _ [] _ [] h.inv.ordered.holds
        exact ⟨links, rfl, by rw [hlinks]; exact hremove⟩
      | cons q as =>
        have hlen := congrArg List.length hsplit
        simp at hlen
  obtain ⟨links, htake, hempty⟩ := htake
  obtain ⟨s₁, hs₁⟩ : ∃ s₁ : State, s₁ = { s with
      links := links, stack := ⟨.zombies, s.sequence, .running (n + 1)⟩ :: rest } := ⟨_, rfl⟩
  have h₁ : WorkQueue.step s .take = some s₁ := by
    simp [WorkQueue.step, hstack, htake, hs₁]
  have hinv₁ : s₁.Inv [] := by
    obtain ⟨qs, hqs⟩ := h.inv.step_inv h₁
    obtain rfl := hqs.ordered.holds.unique (by rw [hs₁]; exact hempty)
    exact hqs
  -- another item of the client
  have hfresh : n + 2 ∉ s₁.allocated := by
    rw [hs₁]
    exact fun hin => absurd (h.allocated _ hin) (Nat.lt_irrefl _)
  obtain ⟨s₂, hs₂⟩ : ∃ s₂ : State, s₂ = { s₁ with
      items := Function.update s₁.items (n + 2) ⟨some 7, 0, 0⟩
      allocated := (n + 2) :: s₁.allocated
      preparing := (n + 2) :: s₁.preparing } := ⟨_, rfl⟩
  have h₂ : WorkQueue.step s₁ (.malloc (n + 2) (some 7)) = some s₂ := by
    simp [WorkQueue.step, hfresh, hs₂]
  obtain ⟨s₃, h₃⟩ : ∃ s₃, WorkQueue.step s₂ (.queue (n + 2)) = some s₃ := by
    simp [WorkQueue.step, hs₂]
  have hinv₃ := (hinv₁.malloc h₂).queue h₃
  have hs₃ : s₃.stack = s₁.stack ∧ s₃.gone = s₁.gone ∧ s₃.allocated = (n + 2) :: s₁.allocated ∧
      (s₃.items (n + 2)).client = some 7 := by
    simp [WorkQueue.step, hs₂, State.append] at h₃
    rw [← h₃]
    simp
  obtain ⟨hstack₃, hgone₃, hallocated₃, hclient₃⟩ := hs₃
  rw [hs₁] at hstack₃ hgone₃ hallocated₃
  have h₄ : WorkQueue.step s₃ (.enter .zombies) =
      some { s₃ with stack := ⟨.zombies, s₃.sequence, .loop⟩ :: s₃.stack } := by
    simp [WorkQueue.step, hstack₃]
  refine ⟨_, ?_, ⟨hinv₃.enter h₄, ?_, ?_, ?_, s₃.stack, rfl, ?_⟩⟩
  · simp only [again, exec, h₁, h₂, h₃, h₄, Option.bind_some]
  · have hin : 7 ∈ s₃.gone := by
      rw [hgone₃]
      exact h.gone
    show s₃.zombie (n + 2) = true
    unfold State.zombie
    rw [hclient₃]
    exact List.contains_iff_mem.2 hin
  · show 7 ∈ s₃.gone
    rw [hgone₃]
    exact h.gone
  · intro p hp
    have hp' : p ∈ (n + 2) :: s.allocated := hallocated₃ ▸ hp
    rcases List.mem_cons.1 hp' with rfl | hp'
    · omega
    · have := h.allocated p hp'
      omega
  · rw [hstack₃, List.length_cons, hlen]

/-- A run that never returns from functions that clean up again -/
theorem Endless.run (h : Endless 0 s) :
    ∃ run : Nat → State, run 0 = s ∧ ∀ n, exec step (run n) (again n) = some (run (n + 1)) ∧ (run n).stack.length = n + 1 := by
  have hnext : ∀ n (x : { s // Endless n s }), ∃ y : { t // Endless (n + 1) t }, exec step x.1 (again n) = some y.1 :=
    fun n x => by
      obtain ⟨t, ht, hend⟩ := x.2.next
      exact ⟨⟨t, hend⟩, ht⟩
  choose next hnext using hnext
  let run : (n : Nat) → { s // Endless n s } := fun n => Nat.rec ⟨s, h⟩ next n
  refine ⟨fun n => (run n).1, rfl, fun n => ⟨hnext n (run n), ?_⟩⟩
  obtain ⟨rest, hstack, hlen⟩ := (run n).2.stack
  rw [hstack, List.length_cons, hlen]

/-- The item of a client that is gone -/
def oneZombie : List Action := [.malloc 1 (some 7), .queue 1, .closeClient 7]

/-- **A call need not return**: every function queues an item of the client and cleans up in turn, and no one returns. -/
theorem zombies_endless :
    ∃ s₀ s : State, exec step State.init oneZombie = some s₀ ∧ s₀.stack = [] ∧ step s₀ (.enter .zombies) = some s ∧
      ∃ run : Nat → State, run 0 = s ∧
        ∀ n, exec step (run n) (again n) = some (run (n + 1)) ∧ (run n).stack.length = n + 1 := by
  obtain ⟨s₀, h₀, s, henter, hempty, hzombie, hgone, hallocated, hstack, hholds⟩ :
      ∃ s₀, exec step State.init oneZombie = some s₀ ∧ ∃ s, step s₀ (.enter .zombies) = some s ∧ s₀.stack = [] ∧
        s.zombie 1 = true ∧ 7 ∈ s.gone ∧ (∀ p ∈ s.allocated, p < 2) ∧ s.stack = [⟨.zombies, s.sequence, .loop⟩] ∧
        s.links.Holds [1] :=
    ⟨_, rfl, _, rfl, rfl, rfl, List.mem_cons_self, fun p hp => by simp [List.mem_singleton.1 hp], rfl,
      ⟨⟨rfl, trivial⟩, rfl, rfl, List.nodup_singleton 1⟩⟩
  obtain ⟨qs, hinv⟩ := inv_of_reach ((Reach.of_exec oneZombie h₀).tail trivial henter)
  obtain rfl := hinv.ordered.holds.unique hholds
  exact ⟨s₀, s, h₀, hempty, henter, Endless.run ⟨hinv, hzombie, hgone, hallocated, [], hstack, rfl⟩⟩

end Lorie.WorkQueue
