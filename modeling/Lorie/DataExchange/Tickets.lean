import Lorie.DataExchange.Operations

/-!
# Deferred work of the properties

A change of a property is not taken up in its callback: `propertyChanged` queues a `PropertyWork` for the transfer it
finds, and the work is done when the request has returned. Slots are released and used again in the meantime; the work
names its transfer by the slot and the ticket.

- `Keeps`: what every operation besides these two does to slots, tickets and the queue; one lemma for each function;
- `Tracked`: the flags of the transfers agree with the queue (`Tracked.step`);
- `Since`: a transfer that is older than a state was in its slot then (`Since.step`);
- `deferred_work`: work is done for the transfer it was queued for, and there is at most one for each.
-/

namespace Lorie.DataExchange

open Lorie.Lib State

/-- A ticket as the code stores it, in a `uint32_t`. -/
def ticketWord (n : Nat) : BitVec 32 := BitVec.ofNat 32 n

theorem ticketWord_inj {m n : Nat} (hm : m < 2 ^ 32) (hn : n < 2 ^ 32) : ticketWord m = ticketWord n ↔ m = n := by
  constructor
  · intro h
    have := congrArg BitVec.toNat h
    simp only [ticketWord, BitVec.toNat_ofNat, Nat.mod_eq_of_lt hm, Nat.mod_eq_of_lt hn] at this
    exact this
  · rintro rfl
    rfl

/-- While the exchange is off, no transfer is in use. -/
def State.Idle (s : State) : Prop := s.enabled = false → ∀ i, (s.transfers i).used = false

/-- Transfers end and begin; those that begin have new tickets. -/
structure Keeps (s t : State) : Prop where
  work : t.work = s.work
  sequence : s.transferSequence ≤ t.transferSequence
  slots : ∀ i, (t.transfers i).used = true → (s.transfers i).Stays (t.transfers i) ∨
    (s.transferSequence < (t.transfers i).ticket ∧ (t.transfers i).ticket ≤ t.transferSequence ∧
      (t.transfers i).queued = false)
  idle : s.Idle → t.Idle

namespace Keeps

variable {s t u : State} {i : Fin maxPending}

/-! ## Pieces -/

theorem refl (s : State) : Keeps s s := ⟨rfl, Nat.le_refl _, fun _ hu => .inl ⟨hu, rfl, rfl⟩, id⟩

theorem trans (h : Keeps s t) (h' : Keeps t u) : Keeps s u := by
  refine ⟨h'.work.trans h.work, Nat.le_trans h.sequence h'.sequence, fun i hi => ?_, h'.idle ∘ h.idle⟩
  have hst := h.sequence
  rcases h'.slots i hi with ⟨hused, hticket, hqueued⟩ | ⟨hlt, hle, hqueued⟩
  · rcases h.slots i hused with ⟨hused', hticket', hqueued'⟩ | ⟨hlt, hle, hqueued'⟩
    · exact .inl ⟨hused', hticket.trans hticket', hqueued.trans hqueued'⟩
    · have := h'.sequence
      rw [hticket, hqueued]
      exact .inr ⟨hlt, by omega, hqueued'⟩
  · exact .inr ⟨by omega, hle, hqueued⟩

/-- Nothing begins: a transfer that is in use was so, with the same ticket and flag. -/
theorem of_stays (hw : u.work = t.work) (hn : u.transferSequence = t.transferSequence) (he : u.enabled = t.enabled)
    (hs : ∀ i, (u.transfers i).used = true → (t.transfers i).Stays (u.transfers i)) : Keeps t u := by
  refine ⟨hw, Nat.le_of_eq hn.symm, fun i hi => .inl (hs i hi), fun hidle hoff i => ?_⟩
  rw [he] at hoff
  cases hi : (u.transfers i).used with
  | false => rfl
  | true =>
    have hold := (hs i hi).1
    rw [hidle hoff i] at hold
    cases hold

/-- Other variables change. -/
theorem frame (h : Keeps s t) (hw : u.work = t.work) (hn : u.transferSequence = t.transferSequence)
    (he : u.enabled = t.enabled) (ht : u.transfers = t.transfers) : Keeps s u := by
  refine h.trans (of_stays hw hn he fun i hi => ?_)
  rw [ht] at hi ⊢
  exact ⟨hi, rfl, rfl⟩

theorem drag (h : Keeps s t) (hstep : DragStep t u) : Keeps s u := by
  obtain ⟨d, l, -, -, rfl⟩ := hstep
  exact h.frame rfl rfl rfl rfl

theorem close (h : Keeps s t) (fd : Option Nat) : Keeps s (t.close fd) := h.frame rfl rfl rfl rfl

/-- A transfer begins, with the next ticket. -/
theorem begins {incoming : Bool} {c : Channel} {serial generation : Nat} {timer : Bool} (hon : s.enabled = true)
    (ha : s.allocate incoming c serial generation timer = some (i, t)) : Keeps s t := by
  have hself := transfers_allocate ha
  obtain ⟨hn, he, hw, hne⟩ : t.transferSequence = s.transferSequence + 1 ∧ t.enabled = s.enabled ∧ t.work = s.work ∧
      ∀ j, j ≠ i → t.transfers j = s.transfers j := by
    obtain ⟨-, rfl⟩ := allocate_eq ha
    exact ⟨rfl, rfl, rfl, fun j hj => transfers_setTransfer_ne s hj _⟩
  refine ⟨hw, hn ▸ Nat.le_succ _, fun j hj => ?_, fun _ hoff => ?_⟩
  · by_cases hji : j = i
    · subst hji
      rw [hself, hn]
      exact .inr ⟨Nat.lt_succ_self _, Nat.le_refl _, rfl⟩
    · rw [hne j hji] at hj ⊢
      exact .inl ⟨hj, rfl, rfl⟩
  · rw [he, hon] at hoff
    cases hoff

/-- The pieces of operations -/
theorem of_acts {n : Nat} (h : Acts n s t) : Keeps s t := by
  induction h with
  | refl s => exact .refl s
  | trans _ _ ih ih' => exact ih.trans ih'
  | @frame s t hw hn he ht _ _ => exact (Keeps.refl s).frame hw hn he ht
  | @write s i x hx =>
    refine of_stays rfl rfl rfl fun j hj => ?_
    by_cases hji : j = i
    · subst hji
      rw [transfers_setTransfer_self] at hj ⊢
      exact hx hj
    · rw [transfers_setTransfer_ne _ hji] at hj ⊢
      exact ⟨hj, rfl, rfl⟩
  | begins hon ha => exact begins hon ha
  | finished s x success a => exact (Keeps.refl s).drag ((DragStep.refl s).selectionFinished x success a)

/-! ## Functions -/

theorem reply (s : State) (c : Channel) (e : Event) (fd : Option Nat) (a : Answers) : Keeps s (s.reply c e fd a) := by
  obtain ⟨m, hm, -, -⟩ := (Acts.refl s).reply c e fd a
  exact of_acts hm

theorem complete (s : State) (success : Bool) : Keeps s (s.complete success) := by
  unfold State.complete
  refine Keeps.drag ?_ (DragStep.refl _).forgetDrag
  split
  · exact of_acts ((Acts.refl s).report success)
  · exact .refl s

theorem operate (hon : s.enabled = true) (c : Channel) (e : Event) (fd : Option Nat) (a : Answers) :
    Keeps s (s.operate c e fd a) := by
  have hrefl := Keeps.refl s
  have hdrag := DragStep.refl s
  unfold State.operate
  split
  · exact of_acts (((Acts.refl s).takeOffer c e fd a).close fd)
  · exact of_acts (((Acts.refl s).read hon c e a).close fd)
  · exact reply s c e fd a
  · exact (hrefl.drag (hdrag.enterDrag c e)).close fd
  · exact (hrefl.drag (hdrag.moveDrag e a)).close fd
  · exact (hrefl.drag hdrag.leaveTarget.forgetDrag).close fd
  · exact (hrefl.drag (hdrag.dropDrag a)).close fd
  · exact (complete s _).close fd
  · exact (complete s false).close fd
  · exact of_acts (((Acts.refl s).beginExport a).close fd)
  · exact hrefl.close fd

/-- The exchange is switched on. -/
theorem enable (s : State) (e : Event) (a : Answers) : Keeps s (s.enable e a) := by
  have hon : Keeps s { s with enabled := true, clipboardActive := e.x ≠ 0 } := by
    refine ⟨rfl, Nat.le_refl _, fun i hi => .inl ⟨hi, rfl, rfl⟩, ?_⟩
    intro _ hoff
    cases hoff
  unfold State.enable
  dsimp only
  split
  · exact hon
  · exact (hon.trans (of_acts ((Acts.refl _).newWindow a))).frame rfl rfl rfl rfl

theorem command (s : State) (e : Event) (fd : Option Nat) (a : Answers) : Keeps s (s.command e fd a) := by
  unfold State.command
  split
  · exact (Keeps.refl s).close fd
  · split
    · exact (enable s e a).close fd
    · split
      · exact (Keeps.refl s).close fd
      · rename_i hlive
        rw [not_or] at hlive
        exact operate (by simpa using hlive.1) e.selected e fd a

theorem lorieDataCommand (s : State) (e : Event) (fd : Bool) (a : Answers) : Keeps s (s.lorieDataCommand e fd a) := by
  unfold State.lorieDataCommand
  cases fd with
  | false =>
    have hasked : Keeps s (s.ask e) := (Keeps.refl s).frame rfl rfl rfl rfl
    exact hasked.trans (command _ e none a)
  | true =>
    have hfd : Keeps s (s.ask e).newFd.2 := (Keeps.refl s).frame rfl rfl rfl rfl
    exact hfd.trans (command _ e _ a)

/-- The reset switches the exchange off and ends all transfers. -/
theorem lorieDataReset (s : State) : Keeps s s.lorieDataReset := by
  have hnone := used_lorieDataReset s
  have hend : Keeps s (s.endExport freeResource) := of_acts (Acts.refl s).endExport
  unfold State.lorieDataReset at hnone ⊢
  unfold State.releaseAll at hnone ⊢
  generalize s.endExport freeResource = e at hend hnone ⊢
  have hall := of_acts ((acts_releases (List.finRange maxPending) { e with
    enabled := false
    clipboardActive := false
    abandoned := e.abandoned ++ e.usedTransfers.filterMap Transfer.request }).frees (frees_freeBridge _))
  refine ⟨?_, ?_, fun i hi => ?_, fun _ _ => hnone⟩
  · exact hall.work.trans hend.work
  · exact Nat.le_trans hend.sequence hall.sequence
  · rw [hnone i] at hi
    cases hi

end Keeps

/-! ## One operation -/

/-- What an operation does to slots, tickets and the queue. -/
inductive Defers (s : State) : Action → State → Prop
  | keeps {a : Action} {t : State} : Keeps s t → Defers s a t
  /-- Work is queued for a transfer that has none. -/
  | queue {i : Fin maxPending} {a : Answers} : (s.transfers i).used = true → (s.transfers i).queued = false →
    Defers s (.propertyChanged i a)
      { s.setTransfer i { s.transfers i with queued := true } with work := s.work ++ [(i, (s.transfers i).ticket)] }
  /-- Work is done for its transfer. -/
  | work {i : Fin maxPending} {k : Nat} {rest : List (Fin maxPending × Nat)} {a : Answers} {t : State} :
    s.work = (i, k) :: rest → (s.transfers i).used = true → (s.transfers i).ticket = k →
    Keeps ({ s with work := rest }.setTransfer i { s.transfers i with queued := false }) t → Defers s (.propertyWork a) t
  /-- Work whose transfer has ended is dropped. -/
  | drop {i : Fin maxPending} {k : Nat} {rest : List (Fin maxPending × Nat)} {a : Answers} :
    s.work = (i, k) :: rest → ¬(s.enabled = true ∧ (s.transfers i).used = true ∧ (s.transfers i).ticket = k) →
    Defers s (.propertyWork a) { s with work := rest }

/-- Every operation is of one of these kinds. -/
theorem defers_of_step {s t : State} {a : Action} (hs : step s a = some t) : Defers s a t := by
  cases happens_of_step hs with
  | acts h => exact .keeps (.of_acts h)
  | queue hu hq => exact .queue hu hq
  | @work i k rest a hw hon hu hk => exact .work hw hu hk (.of_acts (Acts.workOn (s := { s with work := rest }) hu a))
  | drop hw hne => exact .drop hw hne
  | status _ => exact .keeps ((Keeps.refl s).drag ((DragStep.refl s).dragStatus _ _))
  | finished _ => exact .keeps ((Keeps.refl s).drag ((DragStep.refl s).dragFinished _))
  | command e fd a => exact .keeps (.lorieDataCommand s e fd a)
  | reset => exact .keeps (.lorieDataReset s)

/-! ## The flags and the queue -/

/-- The flags of the transfers agree with the queue. -/
structure Tracked (s : State) : Prop where
  items : ∀ i k, (i, k) ∈ s.work → k ≤ s.transferSequence
  tickets : ∀ i, (s.transfers i).used = true → (s.transfers i).ticket ≤ s.transferSequence
  flags : ∀ i, (s.transfers i).used = true →
    s.work.count (i, (s.transfers i).ticket) = if (s.transfers i).queued = true then 1 else 0
  idle : s.Idle

namespace Tracked

variable {s t : State} {i : Fin maxPending} {k : Nat} {rest : List (Fin maxPending × Nat)}

theorem init (b : Bool) : Tracked (.init b) := ⟨nofun, nofun, nofun, fun _ _ => rfl⟩

theorem keeps (h : Tracked s) (hk : Keeps s t) : Tracked t := by
  have hseq := hk.sequence
  refine ⟨fun i k hik => ?_, fun i hi => ?_, fun i hi => ?_, hk.idle h.idle⟩
  · rw [hk.work] at hik
    exact Nat.le_trans (h.items i k hik) hseq
  · rcases hk.slots i hi with ⟨hu, hticket, -⟩ | ⟨-, hle, -⟩
    · have := h.tickets i hu
      omega
    · exact hle
  · rw [hk.work]
    rcases hk.slots i hi with ⟨hu, hticket, hqueued⟩ | ⟨hlt, -, hqueued⟩
    · rw [hticket, hqueued]
      exact h.flags i hu
    · -- no work names a ticket that was not given out
      rw [hqueued, if_neg nofun]
      refine List.count_eq_zero.2 fun hmem => ?_
      have := h.items i _ hmem
      omega

theorem queue (h : Tracked s) (hu : (s.transfers i).used = true) (hq : (s.transfers i).queued = false) :
    Tracked { s.setTransfer i { s.transfers i with queued := true } with
      work := s.work ++ [(i, (s.transfers i).ticket)] } := by
  refine ⟨fun j k hjk => ?_, fun j hj => ?_, fun j hj => ?_, fun hoff j => ?_⟩
  · rcases List.mem_append.1 hjk with hjk | hjk
    · exact h.items j k hjk
    · cases List.mem_singleton.1 hjk
      exact h.tickets i hu
  · by_cases hji : j = i
    · subst hji
      simp only [transfers_setTransfer_self]
      exact h.tickets j hu
    · simp only [transfers_setTransfer_ne _ hji] at hj ⊢
      exact h.tickets j hj
  · rw [List.count_append]
    by_cases hji : j = i
    · subst hji
      have hcount := h.flags j hu
      rw [hq, if_neg nofun] at hcount
      simp only [transfers_setTransfer_self, hcount, List.count_singleton, if_true, beq_self_eq_true]
    · simp only [transfers_setTransfer_ne _ hji] at hj ⊢
      have hnone : [(i, (s.transfers i).ticket)].count (j, (s.transfers j).ticket) = 0 :=
        List.count_eq_zero.2 fun hmem => hji (congrArg Prod.fst (List.mem_singleton.1 hmem))
      rw [hnone, h.flags j hj, Nat.add_zero]
  · have hidle := h.idle hoff i
    rw [hu] at hidle
    cases hidle

/-- Work is taken from the queue, and the flag of its transfer is cleared. -/
theorem work (h : Tracked s) (hw : s.work = (i, k) :: rest) (hu : (s.transfers i).used = true)
    (hk : (s.transfers i).ticket = k) :
    Tracked ({ s with work := rest }.setTransfer i { s.transfers i with queued := false }) := by
  refine ⟨fun j l hjl => ?_, fun j hj => ?_, fun j hj => ?_, fun hoff j => ?_⟩
  · exact h.items j l (hw ▸ List.mem_cons_of_mem _ hjl)
  · by_cases hji : j = i
    · subst hji
      rw [transfers_setTransfer_self]
      exact h.tickets j hu
    · rw [transfers_setTransfer_ne _ hji] at hj ⊢
      exact h.tickets j hj
  · show rest.count (j, _) = _
    by_cases hji : j = i
    · subst hji
      have hcount := h.flags j hu
      rw [hw, hk, List.count_cons_self] at hcount
      rw [transfers_setTransfer_self, if_neg nofun]
      show rest.count (j, (s.transfers j).ticket) = 0
      rw [hk]
      split at hcount <;> omega
    · rw [transfers_setTransfer_ne _ hji] at hj ⊢
      have hcount := h.flags j hj
      rw [hw, List.count_cons_of_ne fun heq => hji (congrArg Prod.fst heq).symm] at hcount
      exact hcount
  · have hidle := h.idle hoff i
    rw [hu] at hidle
    cases hidle

theorem drop (h : Tracked s) (hw : s.work = (i, k) :: rest)
    (hne : ¬(s.enabled = true ∧ (s.transfers i).used = true ∧ (s.transfers i).ticket = k)) :
    Tracked { s with work := rest } := by
  refine ⟨fun j l hjl => h.items j l (hw ▸ List.mem_cons_of_mem _ hjl), h.tickets, fun j hj => ?_, h.idle⟩
  have hcount := h.flags j hj
  have hdiff : (i, k) ≠ (j, (s.transfers j).ticket) := by
    intro heq
    cases heq
    -- a transfer in use belongs to an exchange that is on
    have hon : s.enabled = true := by
      cases he : s.enabled with
      | true => rfl
      | false =>
        rw [h.idle he i] at hj
        cases hj
    exact hne ⟨hon, hj, rfl⟩
  rw [hw, List.count_cons_of_ne hdiff] at hcount
  exact hcount

/-- Every operation keeps flags and queue in agreement. -/
theorem step {a : Action} (h : Tracked s) (hs : step s a = some t) : Tracked t := by
  cases defers_of_step hs with
  | keeps hk => exact h.keeps hk
  | queue hu hq => exact h.queue hu hq
  | work hw hu hk hkeeps => exact (h.work hw hu hk).keeps hkeeps
  | drop hw hne => exact h.drop hw hne

theorem run {as : List Action} (h : Tracked s) (hrun : exec DataExchange.step s as = some t) : Tracked t :=
  (Reach.of_exec as hrun).invariant h fun _ _ _ ht _ hs => ht.step hs

end Tracked

/-! ## The transfers of the past -/

/-- A transfer of `t` that is not younger than `s` was in its slot then. -/
structure Since (s t : State) : Prop where
  sequence : s.transferSequence ≤ t.transferSequence
  slots : ∀ i, (t.transfers i).used = true → (t.transfers i).ticket ≤ s.transferSequence →
    (s.transfers i).used = true ∧ (s.transfers i).ticket = (t.transfers i).ticket

namespace Since

variable {s t u : State}

theorem refl (s : State) : Since s s := ⟨Nat.le_refl _, fun _ hu _ => ⟨hu, rfl⟩⟩

theorem trans (h : Since s t) (h' : Since t u) : Since s u := by
  refine ⟨Nat.le_trans h.sequence h'.sequence, fun i hi hle => ?_⟩
  obtain ⟨hu, hticket⟩ := h'.slots i hi (Nat.le_trans hle h.sequence)
  obtain ⟨hu', hticket'⟩ := h.slots i hu (hticket ▸ hle)
  exact ⟨hu', hticket'.trans hticket⟩

theorem of_keeps (h : Keeps s t) : Since s t := by
  refine ⟨h.sequence, fun i hi hle => ?_⟩
  rcases h.slots i hi with ⟨hu, hticket, -⟩ | ⟨hlt, -, -⟩
  · exact ⟨hu, hticket.symm⟩
  · omega

/-- A flag changes. -/
theorem setQueued (s : State) (i : Fin maxPending) (b : Bool) (w : List (Fin maxPending × Nat)) :
    Since s { s.setTransfer i { s.transfers i with queued := b } with work := w } := by
  refine ⟨Nat.le_refl _, fun j hj _ => ?_⟩
  by_cases hji : j = i
  · subst hji
    simp only [transfers_setTransfer_self] at hj ⊢
    exact ⟨hj, trivial⟩
  · simp only [transfers_setTransfer_ne _ hji] at hj ⊢
    exact ⟨hj, trivial⟩

theorem step {a : Action} (hs : step s a = some t) : Since s t := by
  cases defers_of_step hs with
  | keeps hk => exact of_keeps hk
  | @queue i a hu hq => exact setQueued s i true _
  | @work i k rest a t hw hu hk hkeeps => exact (setQueued s i false rest).trans (of_keeps hkeeps)
  | drop hw hne => exact ⟨Nat.le_refl _, fun _ hu _ => ⟨hu, rfl⟩⟩

theorem run {as : List Action} (hrun : exec DataExchange.step s as = some t) : Since s t :=
  (Reach.of_exec as hrun).rel (I := fun _ => True) refl (fun _ _ _ => trans) trivial (fun _ _ _ _ _ _ => trivial)
    fun _ _ _ _ _ hs => step hs

end Since

/-! ## Whole runs -/

/-- A callback of the run queued the work for the transfer `k`, which has been in the slot since. -/
def QueuedFor (s₀ : State) (as : List Action) (i : Fin maxPending) (k : Nat) : Prop :=
  ∃ before a after r t, as = before ++ .propertyChanged i a :: after ∧ exec step s₀ before = some r ∧
    step r (.propertyChanged i a) = some t ∧ t.work = r.work ++ [(i, k)] ∧
    (r.transfers i).used = true ∧ (r.transfers i).ticket = k ∧
    ∀ mid rest u, after = mid ++ rest → exec step t mid = some u →
      (u.transfers i).used = true ∧ (u.transfers i).ticket = k

/-- Work in the queue was there at the beginning, or a callback queued it. -/
theorem work_origin {i : Fin maxPending} {k : Nat} (as : List Action) {s u : State} (h : exec step s as = some u)
    (hw : (i, k) ∈ u.work) : (i, k) ∈ s.work ∨
      ∃ before a after r t, as = before ++ .propertyChanged i a :: after ∧ exec step s before = some r ∧
        step r (.propertyChanged i a) = some t ∧ exec step t after = some u ∧ t.work = r.work ++ [(i, k)] ∧
        (r.transfers i).used = true ∧ (r.transfers i).ticket = k := by
  induction as generalizing s with
  | nil =>
    cases h
    exact .inl hw
  | cons a as ih =>
    simp only [exec] at h
    obtain ⟨v, hv, h'⟩ := Option.bind_eq_some_iff.1 h
    rcases ih h' with hmem | ⟨before, b, after, r, t, rfl, hr, hrest⟩
    · cases defers_of_step hv with
      | keeps hk => exact .inl (hk.work ▸ hmem)
      | @queue j b hu hq =>
        rcases List.mem_append.1 hmem with hmem | hmem
        · exact .inl hmem
        · cases List.mem_singleton.1 hmem
          exact .inr ⟨[], b, as, s, _, rfl, rfl, hv, h', rfl, hu, rfl⟩
      | @work j l rest b v hw' hu hk hkeeps =>
        rw [hkeeps.work] at hmem
        exact .inl (hw' ▸ List.mem_cons_of_mem _ hmem)
      | drop hw' hne => exact .inl (hw' ▸ List.mem_cons_of_mem _ hmem)
    · refine .inr ⟨a :: before, b, after, r, t, rfl, ?_, hrest⟩
      simp only [exec, hv, Option.bind_some]
      exact hr

/-- How much of the queued work names the transfer in a slot. -/
def State.outstanding (s : State) (i : Fin maxPending) : Nat :=
  s.work.countP fun w => w.1 = i ∧ ticketWord w.2 = ticketWord (s.transfers i).ticket

theorem Tracked.outstanding_eq {s : State} (h : Tracked s) (hn : s.transferSequence < 2 ^ 32) {i : Fin maxPending}
    (hi : (s.transfers i).used = true) : s.outstanding i = if (s.transfers i).queued = true then 1 else 0 := by
  rw [← h.flags i hi, State.outstanding, List.count]
  refine List.countP_congr fun w hw => ?_
  have hitem := h.items w.1 w.2 hw
  have hticket := h.tickets i hi
  rw [decide_eq_true_iff, beq_iff_eq, ticketWord_inj (by omega) (by omega), Prod.ext_iff]

/-- **Deferred work is done for the transfer it was queued for**: after every run with fewer than `2 ^ 32` transfers, the
queue holds work for a transfer that is in use at most once, and exactly when its flag is set; work whose ticket is that of
the transfer in its slot was queued by a callback for this very transfer, which has been there since; and `propertyWork`
does nothing for other work. -/
theorem deferred_work {b : Bool} {as : List Action} {s : State} (h : exec step (.init b) as = some s)
    (hn : s.transferSequence < 2 ^ 32) :
    (∀ i, (s.transfers i).used = true →
      s.outstanding i ≤ 1 ∧ ((s.transfers i).queued = true ↔ s.outstanding i = 1)) ∧
    (∀ i k, (i, k) ∈ s.work → (s.transfers i).used = true → ticketWord (s.transfers i).ticket = ticketWord k →
      QueuedFor (.init b) as i k) ∧
    ∀ a t, step s (.propertyWork a) = some t → ∃ i k rest, s.work = (i, k) :: rest ∧
      t = if s.enabled = true ∧ (s.transfers i).used = true ∧ ticketWord (s.transfers i).ticket = ticketWord k then
        { s with work := rest }.workOn i a else { s with work := rest } := by
  have htracked := (Tracked.init b).run h
  refine ⟨fun i hi => ?_, fun i k hw hi hk => ?_, fun a t hs => ?_⟩
  · rw [htracked.outstanding_eq hn hi]
    cases (s.transfers i).queued <;> simp
  · have hitem := htracked.items i k hw
    have hticket := htracked.tickets i hi
    rw [ticketWord_inj (by omega) (by omega)] at hk
    rcases work_origin as h hw with hmem | ⟨before, c, after, r, t, rfl, hr, ht, hafter, hwork, hused, hold⟩
    · cases hmem
    · refine ⟨before, c, after, r, t, rfl, hr, ht, hwork, hused, hold, fun mid rest u hsplit hu => ?_⟩
      rw [hsplit, exec_append hu] at hafter
      -- the transfer was there when the work was queued, so it is not younger than any later state
      have hle := ((Tracked.init b).run hr).tickets i hused
      have hru := ((Since.step ht).trans (.run hu)).sequence
      obtain ⟨hu', hticket'⟩ := (Since.run hafter).slots i hi (by omega)
      exact ⟨hu', hticket'.trans hk⟩
  · simp only [step] at hs
    split at hs
    · rename_i i k rest hwork
      cases hs
      refine ⟨i, k, rest, hwork, ?_⟩
      have hitem := htracked.items i k (hwork ▸ List.mem_cons_self)
      rw [propertyWork_eq]
      by_cases hi : (s.transfers i).used = true
      · have hticket := htracked.tickets i hi
        have hiff : ticketWord (s.transfers i).ticket = ticketWord k ↔ (s.transfers i).ticket = k :=
          ticketWord_inj (by omega) (by omega)
        simp only [hiff]
      · rw [if_neg fun hp => hi hp.2.1, if_neg fun hp => hi hp.2.1]
    · cases hs

/-- `transfers[0]` -/
def firstSlot : Fin maxPending := ⟨0, by decide⟩

/-- Work is queued for an incremental transfer, whose time is up; a second one takes its slot, and work is queued for it
too. -/
def reusedSlot : List Action :=
  announced ++ ([.propertyChanged firstSlot {}, .expired firstSlot,
    .dataCommand { operation := .read, channel := 0, serial := 6, offer := 1, mime := some (.other 3) } false
      { newWindow := some 1 },
    .selectionNotify .clipboard (some (.server 1)) (.other 3) .data
      { property := some { type := .incr, format := 32, size := 1, value := 70000 } },
    .propertyChanged firstSlot {}] : List Action)

theorem deferred_work_reused :
    ∃ s, exec step (.init false) reusedSlot = some s ∧ s.work = [(firstSlot, 1), (firstSlot, 2)] ∧
      (s.transfers firstSlot).used = true ∧
      QueuedFor (.init false) reusedSlot firstSlot 2 := by
  have hrun : (exec step (.init false) reusedSlot).map
      (fun s => (s.work, s.transferSequence, (s.transfers firstSlot).used, (s.transfers firstSlot).ticket)) =
    some ([(firstSlot, 1), (firstSlot, 2)], 2, true, 2) := by decide +kernel
  obtain ⟨s, hs, hfacts⟩ := Option.map_eq_some_iff.1 hrun
  simp only [Prod.mk.injEq] at hfacts
  obtain ⟨hwork, hsequence, hused, hticket⟩ := hfacts
  refine ⟨s, hs, hwork, hused, (deferred_work hs (by rw [hsequence]; decide)).2.1 firstSlot 2 ?_ hused (by rw [hticket])⟩
  rw [hwork]
  exact List.mem_cons_of_mem _ List.mem_cons_self

end Lorie.DataExchange
