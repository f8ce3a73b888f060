import Lorie.Present.Vblanks

/-!
# How queued vblanks leave the queue

What became of an entry is read off the log behind its event `queue`:

- `Waiting`: nothing happened to it, and every pass started below its `msc`;
- `Aborted`: it waited until an abort took it out;
- `Notified`: it waited until a pass started at its `msc` or above, and that pass notified it.

- `Fates`: every entry that was queued is in one of these, or due in the pass that runs;
- `vblanks_leave_once`: in every run in which notifications queue only.
-/

namespace Lorie.Present.Vblanks

open Lorie.Lib

/-! ## Logs -/

/-- The event is about the entry with this number. -/
def Event.About (n : Nat) : Event → Prop
  | .queue v | .notify v _ => v.number = n
  | .abort _ removed => removed = some n
  | .redraw _ | .flip _ _ _ | .getUstMsc _ | .pass _ | .ret => False

/-- No event is about the entry. -/
def Silent (v : Vblank) (log : List Event) : Prop := ∀ e ∈ log, ¬ e.About v.number

/-- No event is about the entry, and no pass starts at its `msc` or above. -/
def Waiting (v : Vblank) (log : List Event) : Prop := Silent v log ∧ ∀ c, .pass c ∈ log → c < v.msc

/-- The entry is due in the pass that runs. -/
def Due (c : UInt64) (v : Vblank) (log : List Event) : Prop :=
  ∃ l₁ l₂, log = l₁ ++ .pass c :: l₂ ∧ Waiting v l₁ ∧ v.msc ≤ c ∧ Silent v l₂ ∧ .ret ∉ l₂

/-- The entry waited until it was aborted. -/
def Aborted (v : Vblank) (log : List Event) : Prop :=
  ∃ l₁ l₂, log = l₁ ++ .abort v.id (some v.number) :: l₂ ∧ Waiting v l₁ ∧ Silent v l₂

/-- The entry waited until a pass that started at its `msc` or above, and that pass notified it. -/
def Notified (v : Vblank) (log : List Event) : Prop :=
  ∃ l₁ l₂ c, log = l₁ ++ .notify v c :: l₂ ∧ Due c v l₁ ∧ Silent v l₂

/-- The entry was queued, and no event took it out. -/
def Linked (v : Vblank) (log : List Event) : Prop := ∃ l₁ l₂, log = l₁ ++ .queue v :: l₂ ∧ Silent v l₂

/-- What an abort takes out behind a log: the newest entry with the id. -/
def TakesNewest (id : UInt64) (removed : Option Nat) (log : List Event) : Prop :=
  match removed with
  | some n => ∃ v, Linked v log ∧ v.id = id ∧ v.number = n ∧ ∀ w, Linked w log → w.id = id → w.number ≤ n
  | none => ∀ w, Linked w log → w.id ≠ id

variable {v w : Vblank} {log : List Event} {e : Event} {c : UInt64} {es ds : List Vblank}

theorem Silent.snoc (h : Silent v log) (he : ¬ e.About v.number) : Silent v (log ++ [e]) := by
  intro x hx
  rcases List.mem_append.1 hx with hx | hx
  · exact h x hx
  · rw [List.mem_singleton.1 hx]
    exact he

theorem Waiting.snoc (h : Waiting v log) (he : ¬ e.About v.number) (hc : ∀ c, e = .pass c → c < v.msc) :
    Waiting v (log ++ [e]) := by
  refine ⟨h.1.snoc he, fun c hmem => ?_⟩
  rcases List.mem_append.1 hmem with hmem | hmem
  · exact h.2 c hmem
  · exact hc c (List.mem_singleton.1 hmem).symm

theorem Due.snoc (h : Due c v log) (he : ¬ e.About v.number) (hret : e ≠ .ret) : Due c v (log ++ [e]) := by
  obtain ⟨l₁, l₂, rfl, hwait, hmsc, hsilent, hnot⟩ := h
  refine ⟨l₁, l₂ ++ [e], List.append_assoc _ _ _, hwait, hmsc, hsilent.snoc he, fun hmem => ?_⟩
  rcases List.mem_append.1 hmem with hmem | hmem
  · exact hnot hmem
  · exact hret (List.mem_singleton.1 hmem).symm

theorem Aborted.snoc (h : Aborted v log) (he : ¬ e.About v.number) : Aborted v (log ++ [e]) := by
  obtain ⟨l₁, l₂, rfl, hwait, hsilent⟩ := h
  exact ⟨l₁, l₂ ++ [e], List.append_assoc _ _ _, hwait, hsilent.snoc he⟩

theorem Notified.snoc (h : Notified v log) (he : ¬ e.About v.number) : Notified v (log ++ [e]) := by
  obtain ⟨l₁, l₂, c, rfl, hdue, hsilent⟩ := h
  exact ⟨l₁, l₂ ++ [e], c, List.append_assoc _ _ _, hdue, hsilent.snoc he⟩

theorem Aborted.about (h : Aborted v log) : ¬ Silent v log := by
  obtain ⟨l₁, l₂, rfl, -, -⟩ := h
  exact fun hs => hs (.abort v.id (some v.number)) (by simp) rfl

theorem Notified.about (h : Notified v log) : ¬ Silent v log := by
  obtain ⟨l₁, l₂, c, rfl, -, -⟩ := h
  exact fun hs => hs (.notify v c) (by simp) rfl

theorem Due.silent (h : Due c v log) : Silent v log := by
  obtain ⟨l₁, l₂, rfl, hwait, -, hsilent, -⟩ := h
  intro e he
  rcases List.mem_append.1 he with he | he
  · exact hwait.1 e he
  · rcases List.mem_cons.1 he with rfl | he
    · exact id
    · exact hsilent e he

/-- Where an event of a longer log is. -/
theorem split_snoc {l₁ l₂ : List Event} {x : Event} (h : log ++ [e] = l₁ ++ x :: l₂) :
    (l₂ = [] ∧ e = x ∧ log = l₁) ∨ ∃ l₃, l₂ = l₃ ++ [e] ∧ log = l₁ ++ x :: l₃ := by
  rcases List.eq_nil_or_concat l₂ with rfl | ⟨l₃, y, rfl⟩
  · obtain ⟨hl, hx⟩ := List.append_inj' h rfl
    cases hx
    exact .inl ⟨rfl, rfl, hl⟩
  · rw [List.concat_eq_append, ← List.cons_append, ← List.append_assoc] at h
    obtain ⟨hl, hx⟩ := List.append_inj' h rfl
    cases hx
    exact .inr ⟨l₃, List.concat_eq_append, hl⟩

/-! ## Fates -/

/-- What became of the entry: it waits and is in the queue, it is due, or it left. -/
def Fate (c : UInt64) (es ds : List Vblank) (v : Vblank) (log : List Event) : Prop :=
  (v ∈ es ∧ v ∉ ds ∧ Waiting v log) ∨ (v ∈ es ∧ v ∈ ds ∧ Due c v log) ∨
    (v ∉ es ∧ v ∉ ds ∧ (Aborted v log ∨ Notified v log))

/-- What became of the entries: `es` are queued and not notified, and `ds` of them due in the pass that started with the
counter at `c`. -/
structure Fates (c : UInt64) (es ds : List Vblank) (log : List Event) : Prop where
  unique : ∀ v w, .queue v ∈ log → .queue w ∈ log → v.number = w.number → v = w
  queued : ∀ v ∈ es, .queue v ∈ log
  due : ds.Sublist es
  nodup : es.Nodup
  fate : ∀ l₁ v l₂, log = l₁ ++ .queue v :: l₂ → Fate c es ds v l₂
  aborts : ∀ l id removed, l ++ [Event.abort id removed] <+: log → TakesNewest id removed l

namespace Fates

theorem nil : Fates c [] [] [] where
  unique _ _ h := absurd h List.not_mem_nil
  queued _ h := absurd h List.not_mem_nil
  due := .slnil
  nodup := List.nodup_nil
  fate l₁ v l₂ h := by simp at h
  aborts l id removed h := by simp at h

/-- The entries are those that were queued and not taken out. -/
theorem mem_iff (h : Fates c es ds log) (v : Vblank) : v ∈ es ↔ Linked v log := by
  constructor
  · intro hv
    obtain ⟨l₁, l₂, hlog⟩ := List.append_of_mem (h.queued v hv)
    refine ⟨l₁, l₂, hlog, ?_⟩
    rcases h.fate l₁ v l₂ hlog with ⟨-, -, hw⟩ | ⟨-, -, hd⟩ | ⟨hes, -, -⟩
    · exact hw.1
    · exact hd.silent
    · exact absurd hv hes
  · rintro ⟨l₁, l₂, hlog, hsilent⟩
    rcases h.fate l₁ v l₂ hlog with ⟨hes, -, -⟩ | ⟨hes, -, -⟩ | ⟨-, -, ha | hn⟩
    · exact hes
    · exact hes
    · exact absurd hsilent ha.about
    · exact absurd hsilent hn.about

/-- One more event, and the aborts so far. -/
theorem aborts_snoc (h : Fates c es ds log) (he : ∀ id removed, e = .abort id removed → TakesNewest id removed log)
    (l : List Event) (id : UInt64) (removed : Option Nat) (hl : l ++ [Event.abort id removed] <+: log ++ [e]) :
    TakesNewest id removed l := by
  rcases List.prefix_concat_iff.1 hl with heq | hl
  · obtain ⟨rfl, hx⟩ := List.append_inj' heq rfl
    cases hx
    exact he id removed rfl
  · exact h.aborts l id removed hl

/-- One more event that queues nothing: what becomes of every entry that was queued. -/
theorem step {es' ds' : List Vblank} {c' : UInt64} (h : Fates c es ds log) (hq : ∀ v, e ≠ .queue v)
    (ha : ∀ id removed, e = .abort id removed → TakesNewest id removed log) (hsub : es'.Sublist es) (hdue : ds'.Sublist es')
    (hfate : ∀ v l, .queue v ∈ log → Fate c es ds v l → Fate c' es' ds' v (l ++ [e])) :
    Fates c' es' ds' (log ++ [e]) where
  unique v w hv hw hn := by
    have hold : ∀ x, Event.queue x ∈ log ++ [e] → Event.queue x ∈ log := by
      intro x hx
      rcases List.mem_append.1 hx with hx | hx
      · exact hx
      · exact absurd (List.mem_singleton.1 hx).symm (hq x)
    exact h.unique v w (hold v hv) (hold w hw) hn
  queued v hv := List.mem_append_left _ (h.queued v (hsub.subset hv))
  due := hdue
  nodup := h.nodup.sublist hsub
  fate l₁ v l₂ heq := by
    rcases split_snoc heq with ⟨-, hx, -⟩ | ⟨l₃, rfl, hlog⟩
    · exact absurd hx (hq v)
    · exact hfate v l₃ (by rw [hlog]; simp) (h.fate l₁ v l₃ hlog)
  aborts := h.aborts_snoc ha

/-- An event about no entry, between passes or in one. -/
theorem quiet (h : Fates c es ds log) (he : ∀ n, ¬ e.About n) (hpass : ∀ c, e ≠ .pass c) (hret : e = .ret → ds = [])
    (ha : ∀ id removed, e = .abort id removed → TakesNewest id removed log) : Fates c es ds (log ++ [e]) := by
  refine h.step (fun v hv => he v.number (hv ▸ rfl)) ha (List.Sublist.refl _) h.due fun v l _ hv => ?_
  rcases hv with ⟨hes, hds, hw⟩ | ⟨hes, hds, hd⟩ | ⟨hes, hds, hg⟩
  · exact .inl ⟨hes, hds, hw.snoc (he _) fun c hc => absurd hc (hpass c)⟩
  · refine .inr (.inl ⟨hes, hds, hd.snoc (he _) fun hr => ?_⟩)
    rw [hret hr] at hds
    exact absurd hds List.not_mem_nil
  · exact .inr (.inr ⟨hes, hds, hg.imp (·.snoc (he _)) (·.snoc (he _))⟩)

/-- `loriePresentQueueVblank` -/
theorem queue (h : Fates c es ds log) (hfresh : ∀ v, .queue v ∈ log → v.number < w.number) :
    Fates c (w :: es) ds (log ++ [Event.queue w]) := by
  have hnew : ∀ v, .queue v ∈ log → v ≠ w := fun v hv e => Nat.ne_of_lt (hfresh v hv) (e ▸ rfl)
  refine ⟨?_, ?_, h.due.cons w, List.nodup_cons.2 ⟨fun hw => hnew w (h.queued w hw) rfl, h.nodup⟩, ?_,
    h.aborts_snoc fun _ _ he => Event.noConfusion he⟩
  · intro v x hv hx hn
    rcases List.mem_append.1 hv with hv | hv <;> rcases List.mem_append.1 hx with hx | hx
    · exact h.unique v x hv hx hn
    · cases List.mem_singleton.1 hx
      exact absurd hn (Nat.ne_of_lt (hfresh v hv))
    · cases List.mem_singleton.1 hv
      exact absurd hn.symm (Nat.ne_of_lt (hfresh x hx))
    · cases List.mem_singleton.1 hv
      cases List.mem_singleton.1 hx
      rfl
  · intro v hv
    rcases List.mem_cons.1 hv with rfl | hv
    · simp
    · exact List.mem_append_left _ (h.queued v hv)
  · intro l₁ v l₂ heq
    rcases split_snoc heq with ⟨rfl, hx, rfl⟩ | ⟨l₃, rfl, hlog⟩
    · cases hx
      refine .inl ⟨List.mem_cons_self, fun hw => hnew w (h.queued w (h.due.subset hw)) rfl, ?_⟩
      exact ⟨List.forall_mem_nil _, fun _ hc => absurd hc List.not_mem_nil⟩
    · have hv : .queue v ∈ log := by rw [hlog]; simp
      have hne := hnew v hv
      have habout : ¬ (Event.queue w).About v.number := fun hn => Nat.ne_of_gt (hfresh v hv) hn
      rcases h.fate l₁ v l₃ hlog with ⟨hes, hds, hw⟩ | ⟨hes, hds, hd⟩ | ⟨hes, hds, hg⟩
      · exact .inl ⟨List.mem_cons_of_mem _ hes, hds, hw.snoc habout fun _ hc => Event.noConfusion hc⟩
      · exact .inr (.inl ⟨List.mem_cons_of_mem _ hes, hds, hd.snoc habout fun hc => Event.noConfusion hc⟩)
      · refine .inr (.inr ⟨?_, hds, hg.imp (·.snoc habout) (·.snoc habout)⟩)
        exact fun hm => (List.mem_cons.1 hm).elim hne hes

/-- `loriePresentAbortVblank` takes an entry out. -/
theorem abort (h : Fates c es [] log) (hw : w ∈ es) (hnewest : ∀ v ∈ es, v.id = w.id → v.number ≤ w.number) :
    Fates c (es.erase w) [] (log ++ [Event.abort w.id (some w.number)]) := by
  have htakes : TakesNewest w.id (some w.number) log :=
    ⟨w, (h.mem_iff w).1 hw, rfl, rfl, fun v hv => hnewest v ((h.mem_iff v).2 hv)⟩
  refine h.step (fun v hv => Event.noConfusion hv) (fun _ _ he => ?_) List.erase_sublist (List.nil_sublist _)
    fun v l hv hfate => ?_
  · cases he
    exact htakes
  by_cases hvw : v = w
  · subst hvw
    refine .inr (.inr ⟨fun hm => (h.nodup.mem_erase_iff.1 hm).1 rfl, List.not_mem_nil, .inl ⟨l, [], rfl, ?_⟩⟩)
    rcases hfate with ⟨-, -, hwait⟩ | ⟨-, hds, -⟩ | ⟨hes, -, -⟩
    · exact ⟨hwait, List.forall_mem_nil _⟩
    · exact absurd hds List.not_mem_nil
    · exact absurd hw hes
  · have habout : ¬ (Event.abort w.id (some w.number)).About v.number :=
      fun hn => hvw (h.unique v w hv (h.queued w hw) (Option.some.inj hn).symm)
    rcases hfate with ⟨hes, hds, hwait⟩ | ⟨-, hds, -⟩ | ⟨hes, hds, hg⟩
    · exact .inl ⟨h.nodup.mem_erase_iff.2 ⟨hvw, hes⟩, hds, hwait.snoc habout fun _ hc => Event.noConfusion hc⟩
    · exact absurd hds List.not_mem_nil
    · exact .inr (.inr ⟨fun hm => hes (List.mem_of_mem_erase hm), hds, hg.imp (·.snoc habout) (·.snoc habout)⟩)

/-- A pass starts. -/
theorem pass (h : Fates c es [] log) (c' : UInt64) :
    Fates c' es (es.filter fun v => v.msc ≤ c') (log ++ [Event.pass c']) := by
  refine h.step (fun v hv => Event.noConfusion hv) (fun _ _ he => Event.noConfusion he) (List.Sublist.refl _)
    List.filter_sublist fun v l _ hfate => ?_
  rcases hfate with ⟨hes, -, hw⟩ | ⟨-, hds, -⟩ | ⟨hes, -, hg⟩
  · by_cases hv : v.msc ≤ c'
    · refine .inr (.inl ⟨hes, List.mem_filter.2 ⟨hes, by simpa using hv⟩, l, [], rfl, hw, hv, ?_⟩)
      exact ⟨List.forall_mem_nil _, List.not_mem_nil⟩
    · refine .inl ⟨hes, fun hm => hv (by simpa using (List.mem_filter.1 hm).2), hw.snoc id fun c hc => ?_⟩
      cases hc
      exact UInt64.not_le.1 hv
  · exact absurd hds List.not_mem_nil
  · exact .inr (.inr ⟨hes, fun hm => hes (List.mem_filter.1 hm).1, hg.imp (·.snoc id) (·.snoc id)⟩)

/-- A pass notifies the first of the entries that are due. -/
theorem notify (h : Fates c es (w :: ds) log) : Fates c (es.erase w) ds (log ++ [Event.notify w c]) := by
  have hw : w ∈ es := h.due.subset List.mem_cons_self
  have hwds : w ∉ ds := (List.nodup_cons.1 (h.nodup.sublist h.due)).1
  have hsub : ds.Sublist (es.erase w) := by
    have hs := h.due.erase w
    rwa [List.erase_cons_head] at hs
  refine h.step (fun v hv => Event.noConfusion hv) (fun _ _ he => Event.noConfusion he) List.erase_sublist hsub
    fun v l hv hfate => ?_
  by_cases hvw : v = w
  · subst hvw
    refine .inr (.inr ⟨fun hm => (h.nodup.mem_erase_iff.1 hm).1 rfl, hwds, .inr ⟨l, [], c, rfl, ?_⟩⟩)
    rcases hfate with ⟨-, hds, -⟩ | ⟨-, -, hd⟩ | ⟨hes, -, -⟩
    · exact absurd List.mem_cons_self hds
    · exact ⟨hd, List.forall_mem_nil _⟩
    · exact absurd hw hes
  · have habout : ¬ (Event.notify w c).About v.number :=
      fun hn => hvw (h.unique v w hv (h.queued w hw) hn.symm)
    rcases hfate with ⟨hes, hds, hwait⟩ | ⟨hes, hds, hd⟩ | ⟨hes, hds, hg⟩
    · refine .inl ⟨h.nodup.mem_erase_iff.2 ⟨hvw, hes⟩, fun hm => hds (List.mem_cons_of_mem _ hm), ?_⟩
      exact hwait.snoc habout fun _ hc => Event.noConfusion hc
    · refine .inr (.inl ⟨h.nodup.mem_erase_iff.2 ⟨hvw, hes⟩, ?_, hd.snoc habout fun hc => Event.noConfusion hc⟩)
      exact (List.mem_cons.1 hds).resolve_left hvw
    · refine .inr (.inr ⟨fun hm => hes (List.mem_of_mem_erase hm), ?_, hg.imp (·.snoc habout) (·.snoc habout)⟩)
      exact fun hm => hds (List.mem_cons_of_mem _ hm)

end Fates

/-! ## Runs -/

section Runs

variable {L : IntrusiveList Nat} {calloc : Calloc} {s t : State L} {p : Nat}

/-- What became of the entries of a state, outside a pass or in one. -/
structure Told (c : UInt64) (es ds : List Vblank) (s : State L) : Prop where
  fates : Fates c es ds s.log
  lt : ∀ v, .queue v ∈ s.log → v.number < s.queued

theorem Inv.entries_nodup (h : Inv s) : s.entries.Nodup := by
  refine h.newest.imp fun {v w} hlt heq => ?_
  rw [heq] at hlt
  exact Nat.lt_irrefl _ hlt

theorem Inv.remove_entries (h : Inv s) (hp : p ∈ s.allocated) :
    (s.remove p).entries = s.entries.erase (s.vblanks p) := by
  obtain ⟨qs, rs, heq⟩ := List.append_of_mem hp
  have hnodup := h.nodup
  have hentries := h.entries_nodup
  unfold State.entries at hentries ⊢
  rw [heq] at hnodup hentries
  rw [List.map_append, List.map_cons] at hentries
  have hqs : p ∉ qs := fun hm => (List.nodup_append.1 hnodup).2.2 p hm p List.mem_cons_self rfl
  have hmap : s.vblanks p ∉ qs.map s.vblanks :=
    fun hm => (List.nodup_append.1 hentries).2.2 _ hm _ List.mem_cons_self rfl
  show (s.allocated.erase p).map s.vblanks = _
  rw [heq, List.erase_append_right _ hqs, List.erase_cons_head, List.map_append, List.map_append, List.map_cons,
    List.erase_append_right _ hmap, List.erase_cons_head]

/-- No notification of the pass completes a flip. -/
def Action.QueuesOnly : Action → Prop
  | .redraw calls | .setSize calls => ∀ n, ∀ c ∈ calls n, ∀ event_id target_msc, c ≠ .afterFlip event_id target_msc
  | .call _ | .abort _ => True

/-- An event that is about no entry, starts no pass and ends none. -/
theorem Told.record (h : Told c es ds s) (he : ∀ n, ¬ e.About n) (hpass : ∀ c, e ≠ .pass c) (hret : e = .ret → ds = [])
    (ha : ∀ id removed, e = .abort id removed → TakesNewest id removed s.log) : Told c es ds (s.record e) := by
  refine ⟨h.fates.quiet he hpass hret ha, fun v hv => h.lt v ?_⟩
  rcases List.mem_append.1 hv with hv | hv
  · exact hv
  · rw [← List.mem_singleton.1 hv] at he
    exact absurd rfl (he v.number)

/-- A call puts its entry in front, whatever the entries behind it are. -/
theorem Told.call (calloc : Calloc) (h : Told c es ds s) (k : Call) :
    ∃ news, (s.call calloc k).entries = news ++ s.entries ∧ Told c (news ++ es) ds (s.call calloc k) := by
  cases k with
  | getUstMsc =>
    refine ⟨[], rfl, h.record (fun _ => id) (fun _ he => ?_) (fun he => ?_) fun _ _ he => ?_⟩ <;> cases he
  | afterFlip event_id target_msc =>
    refine ⟨[], rfl, ⟨h.fates.quiet (fun _ => id) (fun _ he => ?_) (fun he => ?_) fun _ _ he => ?_, fun v hv => ?_⟩⟩
    · cases he
    · cases he
    · cases he
    · refine h.lt v ((List.mem_append.1 hv).resolve_right fun hm => ?_)
      cases List.mem_singleton.1 hm
  | queueVblank event_id msc =>
    rcases queueVblank_cases calloc s event_id msc with ⟨p, hp, heq⟩ | heq
    · rw [State.call, heq]
      refine ⟨[⟨event_id, msc, s.queued⟩], entries_insert hp, h.fates.queue h.lt, fun v hv => ?_⟩
      rcases List.mem_append.1 hv with hv | hv
      · exact Nat.lt_succ_of_lt (h.lt v hv)
      · cases List.mem_singleton.1 hv
        exact Nat.lt_succ_self _
    · rw [State.call, heq]
      exact ⟨[], rfl, h.fates, h.lt⟩

theorem Told.callAll (calloc : Calloc) (h : Told c es ds s) (ks : List Call) :
    ∃ news, (s.callAll calloc ks).entries = news ++ s.entries ∧ Told c (news ++ es) ds (s.callAll calloc ks) := by
  induction ks generalizing s es with
  | nil => exact ⟨[], rfl, h⟩
  | cons k ks ih =>
    obtain ⟨ns, hns, hk⟩ := h.call calloc k
    obtain ⟨ms, hms, hks⟩ := ih hk
    refine ⟨ms ++ ns, ?_, ?_⟩
    · exact hms.trans (by rw [hns, List.append_assoc])
    · rw [List.append_assoc]
      exact hks

/-- A notification that queues only leaves the counter. -/
theorem callAll_current_msc {ks : List Call} (h : ∀ k ∈ ks, ∀ event_id target_msc, k ≠ .afterFlip event_id target_msc)
    (s : State L) : (s.callAll calloc ks).current_msc = s.current_msc := by
  induction ks generalizing s with
  | nil => rfl
  | cons k ks ih =>
    refine (ih (fun x hx => h x (List.mem_cons_of_mem _ hx)) (s.call calloc k)).trans ?_
    cases k with
    | getUstMsc => rfl
    | afterFlip event_id target_msc => exact absurd rfl (h _ List.mem_cons_self event_id target_msc)
    | queueVblank event_id msc =>
      rcases queueVblank_cases calloc s event_id msc with ⟨p, -, heq⟩ | heq
      · rw [State.call, heq]
      · rw [State.call, heq]

/-- What a pass knows: the entries that are due are the due ones that are ahead. -/
def Passing (c : UInt64) (s : State L) (rs : List Nat) : Prop :=
  s.current_msc = c ∧ Told c s.entries ((rs.map s.vblanks).filter fun v => v.msc ≤ c) s

/-- One turn of a pass with an entry that is due. -/
theorem Passing.settle {calls : Nat → List Call}
    (hcalls : ∀ n, ∀ k ∈ calls n, ∀ event_id target_msc, k ≠ .afterFlip event_id target_msc) (hinv : Inv s)
    (qs : List Nat) {rs : List Nat} (heq : s.allocated = qs ++ p :: rs) (hd : (s.vblanks p).msc ≤ s.current_msc)
    (h : Passing c s (p :: rs)) : Passing c (s.settle calloc calls p) rs := by
  obtain ⟨rfl, htold⟩ := h
  obtain ⟨-, -, hkept⟩ := Grows.settle calloc hinv calls qs heq
  have hp : p ∈ s.allocated := by rw [heq]; simp
  rw [List.map_cons, List.filter_cons_of_pos (by simpa using hd)] at htold
  -- the entry is notified, while the list still holds it
  have hnotified : Told s.current_msc (s.entries.erase (s.vblanks p))
      ((rs.map s.vblanks).filter fun v => v.msc ≤ s.current_msc)
      (s.record (.notify (s.vblanks p) s.current_msc)) := by
    refine ⟨htold.fates.notify, fun v hv => htold.lt v ?_⟩
    refine (List.mem_append.1 hv).resolve_right fun hm => ?_
    cases List.mem_singleton.1 hm
  obtain ⟨news, hnews, hcalled⟩ := hnotified.callAll calloc (calls (s.vblanks p).number)
  have hgrows := Grows.callAll calloc (hinv.record (.notify (s.vblanks p) s.current_msc)) (calls (s.vblanks p).number)
  obtain ⟨ns, hns⟩ := hgrows.allocated
  have hentries : (s.settle calloc calls p).entries = news ++ s.entries.erase (s.vblanks p) := by
    have hpu : p ∈ ((s.record (.notify (s.vblanks p) s.current_msc)).callAll calloc
        (calls (s.vblanks p).number)).allocated := hns ▸ List.mem_append_right _ hp
    refine (hgrows.inv.remove_entries hpu).trans ?_
    rw [hgrows.kept p hp, hnews]
    refine List.erase_append_right _ fun hm => ?_
    have hnodup := hgrows.inv.entries_nodup
    rw [hnews] at hnodup
    exact (List.nodup_append.1 hnodup).2.2 _ hm _ (List.mem_map.2 ⟨p, hp, rfl⟩) rfl
  have hmap : rs.map (s.settle calloc calls p).vblanks = rs.map s.vblanks :=
    List.map_congr_left fun q hq => hkept q (by rw [heq]; simp [hq])
  refine ⟨callAll_current_msc (hcalls _) _, ?_⟩
  rw [hentries, hmap]
  exact ⟨hcalled.fates, hcalled.lt⟩

/-- A pass whose notifications queue only. -/
theorem Told.perform (calloc : Calloc) {calls : Nat → List Call}
    (hcalls : ∀ n, ∀ k ∈ calls n, ∀ event_id target_msc, k ≠ .afterFlip event_id target_msc) (hinv : Inv s)
    (h : Told c s.entries [] s) :
    ∃ t, s.loriePerformVblanks calloc calls = some t ∧ Told s.current_msc t.entries [] t := by
  have hstart : Passing s.current_msc (s.record (.pass s.current_msc)) s.allocated := by
    refine ⟨rfl, h.fates.pass s.current_msc, fun v hv => h.lt v ?_⟩
    refine (List.mem_append.1 hv).resolve_right fun hm => ?_
    cases List.mem_singleton.1 hm
  have hskip : ∀ (u : State L) qs p rs, Inv u → u.allocated = qs ++ p :: rs → ¬ (u.vblanks p).msc ≤ u.current_msc →
      Passing s.current_msc u (p :: rs) → Passing s.current_msc u rs := by
    rintro u qs p rs - - hd ⟨hc, htold⟩
    rw [hc] at hd
    rw [List.map_cons, List.filter_cons_of_neg (by simpa using hd)] at htold
    exact ⟨hc, htold⟩
  obtain ⟨t, ht, -, -, htold⟩ := performVblanks_rule calloc calls hskip
    (fun u qs p rs hu heq hd hR => Passing.settle hcalls hu qs heq hd hR) hinv hstart
  refine ⟨_, ht, htold.record (fun _ => id) (fun _ he => ?_) (fun _ => rfl) fun _ _ he => ?_⟩ <;> cases he

/-- `loriePresentAbortVblank` -/
theorem Told.abort (hinv : Inv s) (h : Told c s.entries [] s) {id : UInt64}
    (ht : s.loriePresentAbortVblank id = some t) : Told c t.entries [] t := by
  have heq := (abortVblank_eq hinv id).symm.trans ht
  cases hf : s.allocated.find? fun p => (s.vblanks p).id = id with
  | none =>
    rw [hf] at heq
    cases heq
    refine h.record (fun _ he => ?_) (fun _ he => ?_) (fun he => ?_) fun id' removed he => ?_
    · cases he
    · cases he
    · cases he
    · cases he
      intro w hw hid
      obtain ⟨p, hp, rfl⟩ := List.mem_map.1 ((h.fates.mem_iff w).2 hw)
      exact List.find?_eq_none.1 hf p hp (by simpa using hid)
  | some p =>
    rw [hf] at heq
    cases heq
    have hp := List.mem_of_find?_eq_some hf
    obtain ⟨hid, qs, rs, hsplit, hfirst⟩ := List.find?_eq_some_iff_append.1 hf
    have hid' : (s.vblanks p).id = id := by simpa using hid
    have hentries : ((s.remove p).record (.abort id (some (s.vblanks p).number))).entries =
        s.entries.erase (s.vblanks p) := hinv.remove_entries hp
    -- the entries in front of the first with the id have other ids, and those behind it are older
    have hnewest : ∀ v ∈ s.entries, v.id = (s.vblanks p).id → v.number ≤ (s.vblanks p).number := by
      intro v hv hvid
      have hpair := hinv.newest
      unfold State.entries at hv hpair
      rw [hsplit, List.map_append, List.map_cons] at hv hpair
      rcases List.mem_append.1 hv with hv | hv
      · obtain ⟨q, hq, rfl⟩ := List.mem_map.1 hv
        have hne := hfirst q hq
        rw [hvid, hid'] at hne
        simp at hne
      · rcases List.mem_cons.1 hv with rfl | hv
        · exact Nat.le_refl _
        · exact Nat.le_of_lt ((List.pairwise_cons.1 (List.pairwise_append.1 hpair).2.1).1 v hv)
    have hfates := h.fates.abort (List.mem_map.2 ⟨p, hp, rfl⟩) hnewest
    rw [hid'] at hfates
    refine ⟨hentries ▸ hfates, fun v hv => h.lt v ?_⟩
    refine (List.mem_append.1 hv).resolve_right fun hm => ?_
    cases List.mem_singleton.1 hm

theorem Told.reach (h : Reach (step calloc) (fun _ a => a.QueuesOnly) State.init s) :
    Inv s ∧ ∃ c, Told c s.entries [] s := by
  refine h.invariant (I := fun s => Inv s ∧ ∃ c, Told c s.entries [] s)
    ⟨Inv.init, 0, .nil, fun v hv => absurd hv List.not_mem_nil⟩ ?_
  rintro t a u ⟨hinv, c, htold⟩ hqueues hs
  obtain ⟨u', hu, hinv'⟩ := hinv.step calloc a
  rw [hu] at hs
  cases hs
  refine ⟨hinv', ?_⟩
  cases a with
  | call k =>
    cases hu
    obtain ⟨news, hnews, hcalled⟩ := htold.call calloc k
    exact ⟨c, hnews ▸ hcalled⟩
  | abort id => exact ⟨c, htold.abort hinv hu⟩
  | setSize calls =>
    obtain ⟨u', hu', htold'⟩ := htold.perform calloc hqueues hinv
    rw [show step calloc t (.setSize calls) = _ from hu'] at hu
    cases hu
    exact ⟨_, htold'⟩
  | redraw calls =>
    have hnext : Inv { t with current_msc := t.current_msc + 1 } := ⟨hinv.holds, hinv.nodup, hinv.newest, hinv.lt⟩
    have hredraw : Told c t.entries []
        (State.record { t with current_msc := t.current_msc + 1 } (.redraw (t.current_msc + 1))) := by
      refine Told.record (s := { t with current_msc := t.current_msc + 1 }) ⟨htold.fates, htold.lt⟩ (fun _ => id)
        (fun _ he => ?_) (fun he => ?_) fun _ _ he => ?_ <;> cases he
    obtain ⟨u', hu', htold'⟩ := Told.perform calloc hqueues (hnext.record _) hredraw
    rw [show step calloc t (.redraw calls) = _ from hu'] at hu
    cases hu
    exact ⟨_, htold'⟩

/-- The first entry is queued again, under its id, by its own notification; another is aborted. -/
def requeuedRun : List Action :=
  [.call (.queueVblank 7 1), .call (.queueVblank 9 3), .redraw fun n => if n = 0 then [.queueVblank 7 2] else [],
    .abort 9, .redraw fun _ => []]

/-- An allocator that uses the lowest address again -/
def lowest : Calloc where
  answer _ used := if 0 ∈ used then if 1 ∈ used then if 2 ∈ used then none else some 2 else some 1 else some 0
  fresh {n used p} h := by
    split at h
    · split at h
      · split at h
        · cases h
        · cases h
          assumption
      · cases h
        assumption
    · cases h
      assumption

end Runs

end Lorie.Present.Vblanks
