import Lorie.DataExchange.Frees
import Lorie.Lib.Ledger
import Mathlib.Algebra.BigOperators.Fin
import Mathlib.Data.Fintype.Basic

/-!
# Every request is answered once

A request is a `LORIE_DATA_READ` of the host or a conversion of a selection that the bridge owns. It is answered by a
`LORIE_DATA_REPLY` with its serial, or by a `SelectionNotify` to its requestor; until then a transfer waits with it. The
first lines of `lorieDataCommand` turn a `LORIE_DATA_READ` away without an answer when there is no such channel, or the
exchange or its window is missing.

- `Settles q n s t`: between the two states `n` more answers to `q` went out or are waited for;
- `Covers`: what goes out before a transfer is released answers its request;
- `requests_answered`: the requests that are not turned away are the answers, the waiting transfers and what a reset
  dropped.
-/

namespace Lorie.DataExchange

open Lorie.Lib

/-- Whether an output answers a request. -/
def Output.answers (q : Request) : Output → Bool
  | .emit .reply _ serial _ _ _ _ _ _ => q = .read serial
  | .notify w c target _ time => q = .conversion (some w) c target time
  | _ => false

/-- Whether a transfer waits with a request. -/
def Transfer.awaits (q : Request) (t : Transfer) : Nat := if t.used = true ∧ t.request = some q then 1 else 0

/-- What the functions that only move data leave alone. -/
def Transfer.core (t : Transfer) : Transfer := { t with fd := none, size := 0, offset := 0, queued := false, timer := false }

theorem answers_quiet {o : Output} (h : o.isAnswer = false) (q : Request) : o.answers q = false := by
  cases o with
  | emit operation => cases operation <;> simp_all [Output.isAnswer, Output.answers]
  | message => rfl
  | notify => simp [Output.isAnswer] at h
  | releaseButton => rfl

theorem countP_quiet {l : List Output} (h : Quiet l) (q : Request) : l.countP (Output.answers q) = 0 := by
  apply List.countP_eq_zero.2
  intro o ho
  simp [answers_quiet (h o ho) q]

namespace State

/-- How many answers to a request went out. -/
def answers (s : State) (q : Request) : Nat := s.log.countP (Output.answers q)

/-- How many transfers wait with a request. -/
def waiting (s : State) (q : Request) : Nat := tally (Transfer.awaits q) s.transfers

/-- The requestor of a conversion is a window of a client, and it exists. -/
def Alive (s : State) : Request → Prop
  | .read _ => True
  | .conversion requestor _ _ _ => ∃ w ∈ requestor, w ∈ s.windows ∧ w.clientOwned = true

/-- The host replied for every transfer that it sends in pieces. -/
def Started (s : State) : Prop :=
  ∀ i, (s.transfers i).used = true → (s.transfers i).incoming = false → (s.transfers i).incremental = true →
    (s.transfers i).serial ∈ s.answered

/-- The variables that count requests, but for the log and the windows. -/
def book (s : State) : (Fin maxPending → Transfer) × List Request × List Nat × List Request :=
  (s.transfers, s.requests, s.answered, s.abandoned)

end State

open State

/-- Between the two states `n` more answers to `q` went out or are waited for; fewer, when its requestor is gone. -/
structure Settles (q : Request) (n : Nat) (s t : State) : Prop where
  requests : t.requests = s.requests
  answered : t.answered = s.answered
  abandoned : t.abandoned = s.abandoned
  started : s.Started → t.Started
  alive : t.Alive q → s.Alive q
  le : t.answers q + t.waiting q ≤ s.answers q + s.waiting q + n
  eq : t.Alive q → t.answers q + t.waiting q = s.answers q + s.waiting q + n

theorem alive_subset {s t : State} {q : Request} (h : ∀ w ∈ t.windows, w.clientOwned = true → w ∈ s.windows)
    (ha : t.Alive q) : s.Alive q := by
  cases q with
  | read k => trivial
  | conversion requestor c target time =>
    obtain ⟨w, hw, hmem, hc⟩ := ha
    exact ⟨w, hw, h w hmem hc, hc⟩

namespace Settles

variable {q : Request} {m n : Nat} {s t u : State} {i : Fin maxPending}

theorem trans (h : Settles q m s t) (h' : Settles q n t u) : Settles q (m + n) s u where
  requests := h'.requests.trans h.requests
  answered := h'.answered.trans h.answered
  abandoned := h'.abandoned.trans h.abandoned
  started := h'.started ∘ h.started
  alive := h.alive ∘ h'.alive
  le := by
    have := h.le
    have := h'.le
    omega
  eq := by
    intro ha
    have := h.eq (h'.alive ha)
    have := h'.eq ha
    omega

/-- What comes before adds nothing. -/
theorem before (h : Settles q 0 s t) (h' : Settles q n t u) : Settles q n s u := by
  have := h.trans h'
  rwa [Nat.zero_add] at this

/-- What comes behind adds nothing. -/
theorem behind (h : Settles q n s t) (h' : Settles q 0 t u) : Settles q n s u := h.trans h'

/-- No request and no transfer changes, and what goes out answers none. -/
theorem of_book {l : List Output} (hb : t.book = s.book) (hw : ∀ w ∈ t.windows, w.clientOwned = true → w ∈ s.windows)
    (hl : t.log = s.log ++ l) (hq : Quiet l) : Settles q 0 s t := by
  obtain ⟨ht, hr, ha, hd⟩ : t.transfers = s.transfers ∧ t.requests = s.requests ∧ t.answered = s.answered ∧
      t.abandoned = s.abandoned := by simpa [State.book] using hb
  have hsame : t.answers q + t.waiting q = s.answers q + s.waiting q := by
    simp [State.answers, State.waiting, hl, ht, List.countP_append, countP_quiet hq]
  constructor
  · exact hr
  · exact ha
  · exact hd
  · intro hs i
    rw [ht, ha]
    exact hs i
  · exact alive_subset hw
  · omega
  · intro _
    omega

theorem refl (s : State) : Settles q 0 s s := .of_book rfl (fun _ hw _ => hw) (List.append_nil _).symm .nil

theorem dragStep (h : DragStep s t) : Settles q 0 s t := by
  obtain ⟨d, l, hl, -, rfl⟩ := h
  exact .of_book rfl (fun _ hw _ => hw) rfl hl

theorem exportStep (h : ExportStep s t) : Settles q 0 s t := by
  obtain ⟨x, e, l, p, hl, rfl⟩ := h
  exact .of_book rfl (fun _ hw _ => hw) rfl hl

/-! ### Transfers -/

theorem waiting_setTransfer (s : State) (q : Request) (i : Fin maxPending) (x : Transfer) :
    (s.setTransfer i x).waiting q + (s.transfers i).awaits q = s.waiting q + x.awaits q :=
  tally_update (Transfer.awaits q) s.transfers i x

/-- A transfer changes, and what it has to answer changes with `n`. -/
theorem write {x : Transfer} (hw : x.awaits q = (s.transfers i).awaits q + n)
    (hs : s.Started → x.used = true → x.incoming = false → x.incremental = true → x.serial ∈ s.answered) :
    Settles q n s (s.setTransfer i x) := by
  have hwait := waiting_setTransfer s q i x
  have hans : (s.setTransfer i x).answers q = s.answers q := rfl
  constructor
  · rfl
  · rfl
  · rfl
  · intro hstart j hu hin hinc
    by_cases hj : j = i
    · subst hj
      rw [transfers_setTransfer_self] at hu hin hinc ⊢
      exact hs hstart hu hin hinc
    · rw [transfers_setTransfer_ne _ hj] at hu hin hinc ⊢
      exact hstart j hu hin hinc
  · exact id
  · omega
  · intro _
    omega

/-- Data moves. -/
theorem move {x : Transfer} (h : x.core = (s.transfers i).core) : Settles q 0 s (s.setTransfer i x) := by
  have hsame {α : Type} (f : Transfer → α) (hf : ∀ t, f t.core = f t) : f x = f (s.transfers i) := by rw [← hf x, h, hf]
  have hu := hsame Transfer.used fun _ => rfl
  have hin := hsame Transfer.incoming fun _ => rfl
  have hinc := hsame Transfer.incremental fun _ => rfl
  have hser := hsame Transfer.serial fun _ => rfl
  have hr := hsame Transfer.request fun _ => rfl
  apply write
  · simp [Transfer.awaits, hu, hr]
  · intro hs
    rw [hu, hin, hinc, hser]
    exact hs i

theorem clearFd (s : State) (i : Fin maxPending) : Settles q 0 s (s.clearFd i) := move rfl

end Settles

/-- What a transfer still owes to a request. -/
def Transfer.owes (q : Request) (t : Transfer) : Nat := if t.request = some q then 1 else 0

theorem awaits_used {q : Request} {t : Transfer} (h : t.used = true) : t.awaits q = t.owes q := by
  simp [Transfer.awaits, Transfer.owes, h]

/-- What goes out answers what a transfer owes; not all of it, when the requestor is gone. -/
structure Covers (s : State) (q : Request) (t : Transfer) (l : List Output) : Prop where
  le : l.countP (Output.answers q) ≤ t.owes q
  eq : s.Alive q → l.countP (Output.answers q) = t.owes q

namespace Covers

variable {s : State} {q : Request} {t : Transfer}

/-- Nothing is owed. -/
theorem nothing (h : t.request = none) : Covers s q t [] where
  le := Nat.zero_le _
  eq := by simp [Transfer.owes, h]

/-- The requestor is gone. -/
theorem gone (hin : t.incoming = false) (hw : ¬s.HasWindow t.requestor) : Covers s q t [] where
  le := Nat.zero_le _
  eq := by
    intro ha
    have hne : t.request ≠ some q := by
      intro hq
      simp only [Transfer.request, hin, Bool.false_eq_true, if_false] at hq
      split at hq
      · cases hq
      · cases hq
        obtain ⟨w, hw', hmem, -⟩ := ha
        exact hw ⟨w, hw', hmem⟩
    simp [Transfer.owes, hne]

/-- `SelectionNotify` -/
theorem notified (hin : t.incoming = false) (hinc : t.incremental = false) (success : Bool) :
    Covers s q t (s.notified t success) := by
  have howes : t.owes q = if q = .conversion t.requestor t.channel t.target t.time then 1 else 0 := by
    simp [Transfer.owes, Transfer.request, hin, hinc, eq_comm]
  unfold State.notified
  cases hreq : t.requestor with
  | none =>
    constructor
    · exact Nat.zero_le _
    · intro ha
      have hne : q ≠ .conversion t.requestor t.channel t.target t.time := by
        rintro rfl
        obtain ⟨w, hw, -⟩ := ha
        rw [hreq] at hw
        cases hw
      rw [howes, if_neg hne]
      rfl
  | some w =>
    dsimp only
    by_cases hw : w ∈ s.windows ∧ w.clientOwned
    · have hcount : [Output.notify w t.channel t.target (if success then some t.property else none) t.time].countP
          (Output.answers q) = t.owes q := by
        rw [howes, hreq]
        simp [Output.answers]
      rw [if_pos hw]
      constructor
      · exact hcount.le
      · exact fun _ => hcount
    · rw [if_neg hw]
      constructor
      · exact Nat.zero_le _
      · intro ha
        have hne : q ≠ .conversion t.requestor t.channel t.target t.time := by
          rintro rfl
          obtain ⟨v, hv, hmem⟩ := ha
          rw [hreq] at hv
          cases hv
          exact hw hmem
        rw [howes, if_neg hne]
        rfl

/-- `LORIE_DATA_REPLY` -/
theorem replied (hin : t.incoming = true) (ht : t.targets = false) (c : Channel) (g n : Nat) (m : Option Atom)
    (f : Option Nat) (w : Option Window) (x : Bool) : Covers s q t [.emit .reply c t.serial g m f n w x] := by
  have hcount : [Output.emit .reply c t.serial g m f n w x].countP (Output.answers q) = t.owes q := by
    simp [Output.answers, Transfer.owes, Transfer.request, hin, ht, eq_comm]
  constructor
  · exact hcount.le
  · exact fun _ => hcount

end Covers

/-- What `fail` tells the one who asked -/
def State.refused (s : State) (t : Transfer) : List Output :=
  if t.incoming then
    if t.targets then [] else [.emit .reply t.channel t.serial t.generation (some t.target) none 0 none false]
  else if t.incremental then []
  else s.notified t false

theorem refuse_eq (s : State) (t : Transfer) : s.refuse t = { s with log := s.log ++ s.refused t } := by
  unfold State.refuse State.refused
  repeat' split
  · rw [List.append_nil]
  · rfl
  · rw [List.append_nil]
  · rfl

theorem Covers.refused (s : State) (q : Request) (t : Transfer) : Covers s q t (s.refused t) := by
  unfold State.refused
  split
  · rename_i hin
    split
    · rename_i ht
      apply Covers.nothing
      simp [Transfer.request, hin, ht]
    · rename_i ht
      exact .replied hin (by simpa using ht) _ _ _ _ _ _ _
  · rename_i hin
    split
    · rename_i hinc
      apply Covers.nothing
      simp [Transfer.request, hin, hinc]
    · rename_i hinc
      exact .notified (by simpa using hin) (by simpa using hinc) false

namespace Settles

variable {q : Request} {m n : Nat} {s t u : State} {i : Fin maxPending}

theorem waiting_releaseSlot (s : State) (q : Request) (i : Fin maxPending) :
    (s.releaseSlot i).waiting q + (s.transfers i).awaits q = s.waiting q := by
  have htr : (s.releaseSlot i).transfers =
    Function.update s.transfers i { s.transfers i with used := false, timer := false } := rfl
  have hupd := tally_update (Transfer.awaits q) s.transfers i { s.transfers i with used := false, timer := false }
  have hgone : Transfer.awaits q { s.transfers i with used := false, timer := false } = 0 := by simp [Transfer.awaits]
  rw [hgone] at hupd
  rw [State.waiting, State.waiting, htr]
  omega

theorem started_releaseSlot (h : s.Started) (i : Fin maxPending) : (s.releaseSlot i).Started := by
  intro j hj
  by_cases hji : j = i
  · subst hji
    rw [transfers_releaseSlot_self] at hj
    cases hj
  · rw [transfers_releaseSlot_ne _ hji] at hj ⊢
    exact h j hj

/-- The slot of a transfer is released behind its answer. -/
theorem releaseSlot {l : List Output} (hu : (s.transfers i).used = true) (ht : t = { s with log := s.log ++ l })
    (hl : Covers s q (s.transfers i) l) : Settles q 0 s (t.releaseSlot i) := by
  have hwait := waiting_releaseSlot t q i
  have hans : (t.releaseSlot i).answers q = t.answers q := rfl
  have hlog : t.answers q = s.answers q + l.countP (Output.answers q) := by
    rw [State.answers, ht]
    exact List.countP_append ..
  have hold : t.waiting q = s.waiting q := by rw [ht]; rfl
  have htr : t.transfers = s.transfers := by rw [ht]
  rw [htr, awaits_used hu] at hwait
  have hle := hl.le
  constructor
  · rw [ht]
    rfl
  · rw [ht]
    rfl
  · rw [ht]
    rfl
  · intro hstart
    apply started_releaseSlot
    rw [ht]
    exact hstart
  · rw [ht]
    exact id
  · omega
  · intro ha
    rw [ht] at ha
    have heq := hl.eq ha
    omega

theorem failOutgoing (hu : (s.transfers i).used = true) : Settles q 0 s (s.failOutgoing i) := by
  have hslot := releaseSlot (q := q) hu (refuse_eq s (s.transfers i)) (Covers.refused s q _)
  unfold State.failOutgoing
  exact (hslot.behind (clearFd _ i)).behind (dragStep ((DragStep.refl _).selectionFinished _ _ _))

/-- What `FreeResource` does answers every transfer that it ends. -/
theorem frees {R : Rights} (h : Frees R s t) : Settles q 0 s t := by
  induction h with
  | refl s => exact refl s
  | trans _ _ ih ih' => exact ih.behind ih'
  | erase s _ => exact of_book rfl (fun v hv _ => List.mem_of_mem_erase hv) (List.append_nil _).symm .nil
  | lose _ => exact of_book rfl (fun v hv _ => hv) (List.append_nil _).symm .nil
  | @incoming s i hu _ => exact releaseSlot hu (refuse_eq s _) (Covers.refused s q _)
  | clearFd _ => exact clearFd _ _
  | outgoing hu _ _ => exact failOutgoing hu
  | renew _ => exact of_book rfl (fun v hv _ => hv) (List.append_nil _).symm .nil
  | cancel s => exact of_book rfl (fun v hv _ => hv) rfl (.singleton rfl)
  | @endExport s t _ _ ih => exact ((exportStep (.finishExport s)).behind ih).behind (exportStep (.leaveExport t))

/-! ### Functions -/

theorem fail (hu : (s.transfers i).used = true) : Settles q 0 s (s.fail freeResource i) :=
  frees (fail_frees hu)

/-- `release` behind the answer of the transfer -/
theorem release {l : List Output} (hu : (s.transfers i).used = true) (ht : t = { s with log := s.log ++ l })
    (hl : Covers s q (s.transfers i) l) : Settles q 0 s (t.release freeResource i) := by
  have hut : (t.transfers i).used = true := by
    rw [ht]
    exact hu
  rw [release_eq _ hut]
  exact ((releaseSlot hu ht hl).behind
    (frees (frees_freeRequestor freeing_freeResource (guarded_all _) fun _ _ _ => trivial))).behind (clearFd _ i)

/-- `release` of a transfer that owes nothing -/
theorem release_silent (h : (s.transfers i).used = true → Covers s q (s.transfers i) []) :
    Settles q 0 s (s.release freeResource i) := by
  cases hu : (s.transfers i).used with
  | false =>
    rw [release_unused _ hu]
    exact refl s
  | true => exact release hu (by rw [List.append_nil]) (h hu)

theorem selectionFinished (s : State) (x : Transfer) (success : Bool) (a : Answers) :
    Settles q 0 s (s.selectionFinished x success a) := dragStep ((DragStep.refl s).selectionFinished x success a)

theorem endExport (s : State) : Settles q 0 s (s.endExport freeResource) := by
  unfold State.endExport
  dsimp only
  split
  · exact ((exportStep (.finishExport s)).behind (frees (freeResource_frees _ _))).behind (exportStep (.leaveExport _))
  · exact (exportStep (.finishExport s)).behind (exportStep (.leaveExport _))

theorem close (s : State) (fd : Option Nat) : Settles q 0 s (s.close fd) :=
  of_book rfl (fun _ hv _ => hv) (List.append_nil _).symm .nil

theorem bytesFile (s : State) (size : Nat) (file : NewFile) : Settles q 0 s (s.bytesFile size file).2 := by
  unfold State.bytesFile
  repeat' split
  all_goals exact of_book rfl (fun _ hv _ => hv) (List.append_nil _).symm .nil

theorem publishTargets (s : State) (c : Channel) (file : NewFile) : Settles q 0 s (s.publishTargets c file) := by
  unfold State.publishTargets
  refine (bytesFile s (s.offers c).targets.length file).behind (Settles.behind ?_ (close _ _))
  exact of_book rfl (fun _ hv _ => hv) rfl (.singleton rfl)

theorem newWindow (s : State) (a : Answers) : Settles q 0 s (s.newWindow a).2 := by
  unfold State.newWindow
  split
  · split
    · exact refl s
    · refine of_book rfl (fun v hv hc => ?_) (List.append_nil _).symm .nil
      rcases List.mem_cons.1 hv with rfl | hv
      · cases hc
      · exact hv
  · exact refl s

/-- A new transfer, after its first fields -/
theorem allocate {incoming : Bool} {c : Channel} {serial generation : Nat} {timer : Bool} {x : Transfer}
    (h : s.allocate incoming c serial generation timer = some (i, t)) (hu : x.used = true)
    (hi : x.incremental = false) : Settles q (x.owes q) s (t.setTransfer i x) ∧ (t.setTransfer i x).transfers i = x := by
  unfold State.allocate at h
  obtain ⟨j, hj, heq⟩ := Option.map_eq_some_iff.1 h
  cases heq
  have hfree : (s.transfers i).used = false := by simpa using List.find?_some hj
  refine ⟨?_, transfers_setTransfer_self _ _ _⟩
  have hwrite : Settles q (x.owes q) s (s.setTransfer i x) := by
    apply write
    · rw [awaits_used hu]
      simp [Transfer.awaits, hfree]
    · intro _ _ _ hinc
      rw [hi] at hinc
      cases hinc
  refine hwrite.behind (of_book ?_ (fun _ hv _ => hv) (List.append_nil _).symm .nil)
  simp [State.book, State.setTransfer]

theorem newWindow_transfers (s : State) (a : Answers) : (s.newWindow a).2.transfers = s.transfers := by
  unfold State.newWindow
  split
  · split <;> rfl
  · rfl

/-- What `request` adds: a `READ` with its serial, and no list of targets -/
theorem request (s : State) (c : Channel) (serial generation : Nat) (target : Atom) (list : Bool) (a : Answers) :
    Settles q (if list = false ∧ q = .read serial then 1 else 0) s
      (s.request freeResource c serial generation target list a) := by
  obtain ⟨n, hn⟩ : ∃ n, n = if list = false ∧ q = .read serial then 1 else 0 := ⟨_, rfl⟩
  rw [← hn]
  have hrefused : Settles q n s
      (if list then s else s.emit .reply c serial generation (some target) none 0 none false) := by
    rw [hn]
    cases list with
    | true => exact refl s
    | false =>
      have hans : (s.emit .reply c serial generation (some target) none 0 none false).answers q =
          s.answers q + if q = .read serial then 1 else 0 := by
        simp [State.answers, State.emit, List.countP_append, Output.answers]
      have hwait : (s.emit .reply c serial generation (some target) none 0 none false).waiting q = s.waiting q := rfl
      constructor
      · rfl
      · rfl
      · rfl
      · exact id
      · exact id
      · simp [hans, hwait]
        omega
      · intro _
        simp [hans, hwait]
        omega
  have hcases := request_cases s c serial generation target list a
  generalize s.request freeResource c serial generation target list a = v at hcases ⊢
  cases hcases with
  | refused => exact hrefused
  | @asked i t u w halloc hnew =>
    have hold : t.transfers i =
        { used := true, incoming := true, channel := c, serial := serial, generation := generation
          ticket := s.transferSequence + 1, timer := a.timer } := by
      unfold State.allocate at halloc
      obtain ⟨j, -, heq⟩ := Option.map_eq_some_iff.1 halloc
      cases heq
      exact transfers_setTransfer_self _ _ _
    generalize hx : ({ t.transfers i with target := target, targets := list, property := .data } : Transfer) = x at hnew
    have hu : x.used = true := by rw [← hx, hold]
    have hin : x.incoming = true := by rw [← hx, hold]
    have howes : x.owes q = n := by
      rw [← hx, hold, hn]
      cases list <;> simp [Transfer.owes, Transfer.request, eq_comm]
    obtain ⟨hset, hself⟩ := allocate (q := q) halloc hu (by rw [← hx, hold])
    rw [howes] at hset
    generalize t.setTransfer i x = r at hset hself hnew
    have hwin := newWindow (q := q) r a
    have htr := newWindow_transfers r a
    rw [hnew] at hwin htr
    have hui : u.transfers i = x := by rw [htr, hself]
    cases w with
    | none =>
      refine (hset.behind hwin).behind (fail ?_)
      rw [hui]
      exact hu
    | some w =>
      refine (hset.behind hwin).behind (write ?_ ?_)
      · rw [hui]
        simp [Transfer.awaits, Transfer.request, hin]
      · intro _ _ hout
        rw [hui, hin] at hout
        cases hout

theorem selectionChanged (s : State) (c : Channel) (kind : Kind) (a : Answers) :
    Settles q 0 s (s.selectionChanged freeResource c kind a) := by
  rcases selectionChanged_cases freeing_freeResource kind a (guarded_all s) (c := c) fun _ _ => .inl trivial with
    heq | hfrees | ⟨-, -, -, hforget, heq⟩
  · rw [heq]
    exact refl s
  · exact frees hfrees
  · rw [heq]
    exact (frees hforget).behind (request _ _ _ _ _ true a)

theorem own (s : State) (c : Channel) (a : Answers) : Settles q 0 s (s.own c a) := by
  unfold State.own
  split
  · refine Settles.before ?_ (selectionChanged _ c .setOwner a)
    exact of_book rfl (fun _ hv _ => hv) (List.append_nil _).symm .nil
  · exact refl s

/-- Opening a file for a piece settles nothing. -/
theorem opens {file : NewFile} {fd : Option Nat} {r : State} (h : Opens s i file fd r) :
    Settles q 0 s (r.setTransfer i { s.transfers i with fd := fd }) := by
  have hsame : Settles q 0 s r := by
    cases h with
    | kept => exact refl s
    | opened _ hfile =>
      have hfd := bytesFile (q := q) s 0 file
      rwa [hfile] at hfd
  refine hsame.behind (move ?_)
  rw [h.transfers]
  rfl

theorem piece {file : NewFile} {fd : Option Nat} {r : State} (h : Opens s i file fd r) (n : Nat) :
    Settles q 0 s ((r.setTransfer i { s.transfers i with fd := fd }).setTransfer i
      { s.transfers i with fd := fd, size := (s.transfers i).size + n }) := by
  refine (opens h).behind (move ?_)
  rw [transfers_setTransfer_self]
  rfl

theorem receive (hu : (s.transfers i).used = true) (hin : (s.transfers i).incoming = true) (initial : Bool) (a : Answers) :
    Settles q 0 s (s.receive i initial a) := by
  have hreceives := receive_cases s i initial a
  generalize s.receive i initial a = t at hreceives ⊢
  cases hreceives with
  | fails => exact fail hu
  | @announced fd r _ _ _ _ _ hfile =>
    have hsame := bytesFile (q := q) s 0 a.file
    have htr := transfers_bytesFile s 0 a.file
    rw [hfile] at hsame htr
    cases fd with
    | none =>
      refine (hsame.behind (move ?_)).behind (fail ?_)
      · rw [htr]
        rfl
      · rw [transfers_setTransfer_self]
        exact hu
    | some d =>
      refine hsame.behind (write ?_ ?_)
      · rw [htr]
        simp [Transfer.awaits, Transfer.request, hin]
      · intro _ _ hout
        rw [hin] at hout
        cases hout
  | targets _ htargets =>
    -- a list of targets answers nothing
    refine Settles.behind (Settles.behind ?_ (publishTargets _ _ a.file)) (release_silent fun _ => ?_)
    · exact of_book rfl (fun _ hv _ => hv) (List.append_nil _).symm .nil
    · refine .nothing ?_
      rw [transfers_publishTargets]
      simp [Transfer.request, State.setOffer, hin, htargets]
  | lost h =>
    refine (opens h).behind (fail ?_)
    rw [transfers_setTransfer_self]
    exact hu
  | @last fd _ n h hlist =>
    refine (piece h n).behind (release ?_ rfl ?_)
    · rw [transfers_setTransfer_self]
      exact hu
    · rw [transfers_setTransfer_self]
      exact Covers.replied (t := { s.transfers i with fd := fd, size := (s.transfers i).size + n }) hin hlist _ _ _ _ _ _ _
  | more n h => exact piece h n

theorem advance (s : State) (i : Fin maxPending) : Settles q 0 s (s.advance i) := move rfl

theorem sendChunk (hu : (s.transfers i).used = true) (hin : (s.transfers i).incoming = false) (a : Answers) :
    Settles q 0 s (s.sendChunk i a).1 := by
  unfold State.sendChunk
  dsimp only
  split
  · rename_i hgone
    exact (release_silent fun _ => .gone hin hgone).behind (selectionFinished _ _ _ _)
  · split
    · exact fail hu
    · split
      · rename_i hend
        refine ((advance s i).behind (release_silent fun _ => .nothing ?_)).behind (selectionFinished _ _ _ _)
        simp [State.advance, Transfer.request, hin, hend.1]
      · exact advance s i

/-- A transfer that goes on after a piece -/
theorem sendChunk_used {a : Answers} (h : ((s.sendChunk i a).1.transfers i).used = true) :
    (s.sendChunk i a).1 = s.advance i := by
  revert h
  unfold State.sendChunk
  dsimp only
  split
  · intro h
    rw [transfers_drag ((DragStep.refl _).selectionFinished _ _ _), used_release freeing_freeResource] at h
    cases h
  · split
    · intro h
      rw [used_fail freeing_freeResource] at h
      cases h
    · split
      · intro h
        rw [transfers_drag ((DragStep.refl _).selectionFinished _ _ _), used_release freeing_freeResource] at h
        cases h
      · exact fun _ => rfl

theorem propertyWork (s : State) (i : Fin maxPending) (ticket : Nat) (a : Answers) :
    Settles q 0 s (s.propertyWork i ticket a) := by
  unfold State.propertyWork
  dsimp only
  split
  · rename_i hw
    have hset : Settles q 0 s (s.setTransfer i { s.transfers i with queued := false }) := move rfl
    have hself := transfers_setTransfer_self s i { s.transfers i with queued := false }
    refine hset.behind ?_
    split
    · rename_i hin
      apply receive
      · rw [hself]
        exact hw.2.1
      · rw [hself]
        exact hin
    · rename_i hin
      apply sendChunk
      · rw [hself]
        exact hw.2.1
      · rw [hself]
        simpa using hin
  · exact refl s

theorem serve (hu : (s.transfers i).used = true) (hin : (s.transfers i).incoming = false)
    (hinc : (s.transfers i).incremental = false) (a : Answers) : Settles q 0 s (s.serve i a) := by
  unfold State.serve
  dsimp only
  split
  · exact fail hu
  · split
    · exact release hu rfl (.notified hin hinc a.change)
    · split
      · exact of_book rfl (fun _ hv _ => hv) rfl (.singleton rfl)
      · exact fail hu

/-- What goes out answers a request that no transfer waits with. -/
theorem covered {x : Transfer} {l : List Output} (h : Covers s q x l) :
    Settles q (x.owes q) s { s with log := s.log ++ l } := by
  have hans : State.answers { s with log := s.log ++ l } q = s.answers q + l.countP (Output.answers q) :=
    List.countP_append ..
  have hwait : State.waiting { s with log := s.log ++ l } q = s.waiting q := rfl
  have hle := h.le
  constructor
  · rfl
  · rfl
  · rfl
  · exact id
  · exact id
  · omega
  · intro ha
    have heq := h.eq ha
    omega

theorem outgoingTransfer (s : State) (c : Channel) (requestor : Option Window) (target : Atom) (property : Option Atom)
    (time : Nat) (a : Answers) : Settles q (if q = .conversion requestor c target time then 1 else 0) s
      (s.outgoingTransfer c requestor target property time a) := by
  obtain ⟨n, hn⟩ : ∃ n, n = if q = .conversion requestor c target time then 1 else 0 := ⟨_, rfl⟩
  rw [← hn]
  unfold State.outgoingTransfer
  cases halloc : s.allocate false c s.requestSequence (s.offers c).generation a.timer with
  | none =>
    have howes : Transfer.owes q { channel := c, requestor := requestor, target := target, time := time } = n := by
      rw [hn]
      simp [Transfer.owes, Transfer.request, eq_comm]
    rw [← howes]
    exact covered (.notified rfl rfl false)
  | some r =>
    obtain ⟨i, t⟩ := r
    have hold : t.transfers i =
        { used := true, incoming := false, channel := c, serial := s.requestSequence
          generation := (s.offers c).generation, ticket := s.transferSequence + 1, timer := a.timer } := by
      unfold State.allocate at halloc
      obtain ⟨j, -, heq⟩ := Option.map_eq_some_iff.1 halloc
      cases heq
      exact transfers_setTransfer_self _ _ _
    dsimp only
    generalize hx : ({ t.transfers i with requestor := requestor, target := target, property := property.getD target,
                                          time := time } : Transfer) = x
    have hu : x.used = true := by rw [← hx, hold]
    have hin : x.incoming = false := by rw [← hx, hold]
    have hinc : x.incremental = false := by rw [← hx, hold]
    have howes : x.owes q = n := by
      rw [← hx, hold, hn]
      simp [Transfer.owes, Transfer.request, eq_comm]
    obtain ⟨hset, hself⟩ := allocate (q := q) halloc hu hinc
    rw [howes] at hset
    refine hset.behind (serve ?_ ?_ ?_ a)
    · rw [hself]
      exact hu
    · rw [hself]
      exact hin
    · rw [hself]
      exact hinc

theorem notified_some {c : Channel} {requestor : Option Window} {target : Atom}
    (hi : s.notified? c requestor target = some i) :
    (s.transfers i).used = true ∧ (s.transfers i).incoming = true := by
  have := List.find?_some hi
  simp only [Bool.and_eq_true] at this
  exact this.1.1.1

theorem selectionNotify (s : State) (c : Channel) (requestor : Option Window) (target property : Atom) (a : Answers) :
    Settles q 0 s (s.selectionNotify c requestor target property a) := by
  unfold State.selectionNotify
  split
  · exact refl s
  · split
    · rename_i i hi
      obtain ⟨hu, hin⟩ := notified_some hi
      split
      · exact receive hu hin true a
      · exact fail hu
    · exact refl s

theorem exportDrop (s : State) : Settles q 0 s s.exportDrop := by
  have hdrop : Settles q 0 s _ := exportStep (((ExportStep.refl s).withExport fun x => { x with dropped := true }).record
    fun r => { r with dropped := true })
  unfold State.exportDrop
  dsimp only
  split
  · exact hdrop.behind (endExport _)
  · exact hdrop

theorem clientMessage (s : State) (window : Option Window) (type : MessageType) (first : Option Window) (bit copy : Bool)
    (a : Answers) : Settles q 0 s (s.clientMessage window type first bit copy a) := by
  unfold State.clientMessage
  dsimp only
  repeat' split
  · exact refl s
  · exact dragStep ((DragStep.refl s).message _ _ fun _ => rfl)
  · exact refl s
  · exact exportDrop s
  · exact dragStep ((DragStep.refl s).dragStatus _ a)
  · exact dragStep ((DragStep.refl s).dragFinished bit)
  · exact refl s

/-! ### Replies of the host -/

/-- The transfer becomes incremental and its conversion is answered. -/
theorem startIncremental (hin : (s.transfers i).incoming = false) (hinc : (s.transfers i).incremental = false)
    (hu : (s.transfers i).used = true) (hser : (s.transfers i).serial ∈ s.answered) (a : Answers) :
    Settles q 0 s (s.startIncremental i a) := by
  obtain ⟨x, hx⟩ : ∃ x, x = { s.transfers i with incremental := true } := ⟨_, rfl⟩
  have hcover : Covers s q (s.transfers i) (s.notified x a.change) := by
    rw [hx]
    exact Covers.notified hin hinc a.change
  have hsilent : x.request = none := by simp [hx, Transfer.request, hin]
  have hself : (s.setTransfer i x).transfers i = x := transfers_setTransfer_self _ _ _
  have hwait := waiting_setTransfer s q i x
  have hgone : x.awaits q = 0 := by simp [Transfer.awaits, hsilent]
  rw [awaits_used hu, hgone] at hwait
  have hans : ((s.setTransfer i x).notify x a.change).answers q =
      s.answers q + (s.notified x a.change).countP (Output.answers q) := List.countP_append ..
  have hwait' : ((s.setTransfer i x).notify x a.change).waiting q = (s.setTransfer i x).waiting q := rfl
  have hle := hcover.le
  have hset : Settles q 0 s ((s.setTransfer i x).notify x a.change) := by
    constructor
    · rfl
    · rfl
    · rfl
    · intro hstart j hj hjin hjinc
      have htr : ((s.setTransfer i x).notify x a.change).transfers = (s.setTransfer i x).transfers := rfl
      rw [htr] at hj hjin hjinc ⊢
      by_cases hji : j = i
      · subst hji
        rw [hself, hx]
        exact hser
      · rw [transfers_setTransfer_ne _ hji] at hj hjin hjinc ⊢
        exact hstart j hj hjin hjinc
    · exact id
    · omega
    · intro ha
      have heq := hcover.eq ha
      omega
  unfold State.startIncremental
  dsimp only
  rw [← hx, hself]
  split
  · exact hset
  · refine hset.behind (release_silent fun _ => .nothing ?_)
    have htr : ((s.setTransfer i x).notify x a.change).transfers = (s.setTransfer i x).transfers := rfl
    rw [htr, hself]
    exact hsilent

theorem sendWhole (hu : (s.transfers i).used = true) (hin : (s.transfers i).incoming = false)
    (hinc : (s.transfers i).incremental = false) (a : Answers) : Settles q 0 s (s.sendWhole i a) := by
  have hchunk := sendChunk (q := q) hu hin a
  have hgoes := sendChunk_used (s := s) (i := i) (a := a)
  unfold State.sendWhole
  dsimp only
  generalize s.sendChunk i a = r at hchunk hgoes
  refine Settles.behind ?_ (selectionFinished _ _ _ _)
  split
  · rename_i hru
    have hself : r.1.transfers i = { s.transfers i with offset := (s.transfers i).offset + chunk (s.transfers i) } := by
      rw [hgoes hru]
      exact transfers_setTransfer_self _ _ _
    refine hchunk.behind (release hru rfl (.notified ?_ ?_ r.2))
    · rw [hself]
      exact hin
    · rw [hself]
      exact hinc
  · rename_i hru
    exact hchunk.behind (release_silent fun h => absurd h hru)

theorem deliver (hu : (s.transfers i).used = true) (hin : (s.transfers i).incoming = false)
    (hinc : (s.transfers i).incremental = false) (hser : (s.transfers i).serial ∈ s.answered) (a : Answers) :
    Settles q 0 s (s.deliver i a) := by
  unfold State.deliver
  split
  · rename_i hgone
    exact release_silent fun _ => .gone hin hgone
  · split
    · exact startIncremental hin hinc hu hser a
    · exact sendWhole hu hin hinc a

theorem replyTo (hu : (s.transfers i).used = true) (hin : (s.transfers i).incoming = false)
    (hinc : (s.transfers i).incremental = false) (hser : (s.transfers i).serial ∈ s.answered) (fd : Option Nat)
    (a : Answers) : Settles q 0 s (s.replyTo i fd a) := by
  unfold State.replyTo
  split
  · rename_i fd size _
    split
    · exact (fail hu).behind (close _ _)
    · have hset : Settles q 0 s (s.setTransfer i { s.transfers i with fd := some fd, size := size }) := move rfl
      have hself := transfers_setTransfer_self s i { s.transfers i with fd := some fd, size := size }
      refine hset.behind (deliver ?_ ?_ ?_ ?_ a)
      · rw [hself]
        exact hu
      · rw [hself]
        exact hin
      · rw [hself]
        exact hinc
      · rw [hself]
        exact hser
  · exact (fail hu).behind (close _ _)

theorem report (s : State) (success : Bool) : Settles q 0 s (s.report success) := by
  have hpointer : Settles q 0 s _ := exportStep ((((ExportStep.refl s).withExport fun x =>
    { x with completed := true, success := success }).record fun r =>
      { r with reports := r.reports ++ [success] }).releaseExportPointer)
  unfold State.report
  dsimp only
  split
  · exact hpointer.behind (endExport _)
  · exact hpointer

theorem complete (s : State) (success : Bool) : Settles q 0 s (s.complete success) := by
  unfold State.complete
  refine Settles.behind ?_ (dragStep (DragStep.refl _).forgetDrag)
  split
  · exact report s success
  · exact refl s

theorem beginExport (s : State) (a : Answers) : Settles q 0 s (s.beginExport a) := by
  have hwin := newWindow (q := q) s a
  unfold State.beginExport
  dsimp only
  split
  · split
    · exact refl s
    · split
      · rename_i heq
        rw [heq] at hwin
        exact hwin.behind (exportStep ((ExportStep.refl _).withExport _))
      · rename_i heq
        rw [heq] at hwin
        exact hwin.behind (of_book rfl (fun _ hv _ => hv) (List.append_nil _).symm .nil)
  · exact refl s

theorem takeOffer (s : State) (c : Channel) (e : Event) (fd : Option Nat) (a : Answers) :
    Settles q 0 s (s.takeOffer c e fd a) := by
  unfold State.takeOffer
  split
  · refine Settles.before ?_ (own _ c a)
    exact of_book rfl (fun _ hv _ => hv) (List.append_nil _).symm .nil
  · exact refl s

theorem enable (s : State) (e : Event) (a : Answers) : Settles q 0 s (s.enable e a) := by
  have hon : Settles q 0 s { s with enabled := true, clipboardActive := e.x ≠ 0 } :=
    of_book rfl (fun _ hv _ => hv) (List.append_nil _).symm .nil
  unfold State.enable
  dsimp only
  split
  · exact hon
  · exact (hon.behind (newWindow _ a)).behind (of_book rfl (fun _ hv _ => hv) (List.append_nil _).symm .nil)

end Settles

/-! ## A reset -/

/-- What a reset keeps while it releases the transfers -/
def State.told (s : State) : List Output × List Request × List Nat × List Request × Bool :=
  (s.log, s.requests, s.answered, s.abandoned, s.enabled)

section Reset

variable {s t : State} {q : Request}

/-- While the exchange is disabled, `FreeResource` tells nobody. -/
theorem told_freeResource (h : s.enabled = false) (w : Window) :
    (freeResource s w).told = s.told ∧ ∀ v ∈ (freeResource s w).windows, v ∈ s.windows := by
  have hloop : ∀ (n : Nat) (l : List Channel) (t : State), t.enabled = false →
      ∃ sel, l.foldl (fun s c =>
        if (s.selections c).window = some w then State.loseOwner (free n) .windowDestroy s c else s) t =
          { t with selections := sel } := by
    intro n l
    induction l with
    | nil => exact fun t _ => ⟨t.selections, rfl⟩
    | cons c l ih =>
      intro t ht
      rw [List.foldl_cons]
      split
      · have hlose : State.loseOwner (free n) .windowDestroy t c =
            t.setSelection c { t.selections c with window := none, client := none } := by
          simp [State.loseOwner, State.selectionChanged, ht]
        obtain ⟨sel, hsel⟩ := ih (t.setSelection c { t.selections c with window := none, client := none }) ht
        rw [hlose, hsel]
        exact ⟨sel, rfl⟩
      · exact ih t ht
  unfold freeResource
  cases s.windows.length with
  | zero => exact ⟨rfl, fun v hv => hv⟩
  | succ n =>
    unfold free
    split
    · obtain ⟨sel, hsel⟩ := hloop n s.channels { s with windows := s.windows.erase w } h
      rw [hsel]
      exact ⟨rfl, fun v hv => List.mem_of_mem_erase hv⟩
    · exact ⟨rfl, fun v hv => hv⟩

theorem told_release (h : s.enabled = false) (i : Fin maxPending) :
    (s.release freeResource i).told = s.told ∧ ∀ v ∈ (s.release freeResource i).windows, v ∈ s.windows := by
  cases hu : (s.transfers i).used with
  | false =>
    rw [release_unused _ hu]
    exact ⟨rfl, fun v hv => hv⟩
  | true =>
    rw [release_eq _ hu]
    have hslot : (s.releaseSlot i).enabled = false := h
    have hfree : ((s.releaseSlot i).freeRequestor freeResource (s.transfers i)).told = (s.releaseSlot i).told ∧
        ∀ v ∈ ((s.releaseSlot i).freeRequestor freeResource (s.transfers i)).windows, v ∈ (s.releaseSlot i).windows := by
      unfold State.freeRequestor
      split
      · exact told_freeResource hslot _
      · exact ⟨rfl, fun v hv => hv⟩
    exact hfree

/-- The transfers that are in use, as requests -/
theorem count_usedTransfers (s : State) (q : Request) :
    (s.usedTransfers.filterMap Transfer.request).count q = s.waiting q := by
  have hlist : ∀ l : List (Fin maxPending),
      (((l.map s.transfers).filter Transfer.used).filterMap Transfer.request).count q =
        (l.map fun i => (s.transfers i).awaits q).sum := by
    intro l
    induction l with
    | nil => rfl
    | cons i l ih =>
      cases hu : (s.transfers i).used with
      | false => simp [hu, ih, Transfer.awaits]
      | true =>
        cases hr : (s.transfers i).request with
        | none => simp [hu, hr, ih, Transfer.awaits]
        | some r =>
          simp [hu, hr, ih, Transfer.awaits, List.count_cons]
          omega
  rw [State.usedTransfers, hlist, State.waiting, tally, Fin.sum_univ_def]

theorem told_releaseAll (s : State) :
    s.releaseAll.told = (s.log, s.requests, s.answered, s.abandoned ++ s.usedTransfers.filterMap Transfer.request, false) ∧
      ∀ v ∈ s.releaseAll.windows, v ∈ s.windows := by
  have hloop : ∀ (l : List (Fin maxPending)) (t : State), t.enabled = false →
      (l.foldl (fun s i => s.release freeResource i) t).told = t.told ∧
        ∀ v ∈ (l.foldl (fun s i => s.release freeResource i) t).windows, v ∈ t.windows := by
    intro l
    induction l with
    | nil => exact fun t _ => ⟨rfl, fun v hv => hv⟩
    | cons i l ih =>
      intro t ht
      obtain ⟨htold, hwin⟩ := told_release ht i
      have hoff : (t.release freeResource i).enabled = false := by
        have : (t.release freeResource i).enabled = t.enabled := by
          simp only [State.told, Prod.mk.injEq] at htold
          exact htold.2.2.2.2
        rw [this, ht]
      obtain ⟨htold', hwin'⟩ := ih _ hoff
      rw [List.foldl_cons]
      exact ⟨htold'.trans htold, fun v hv => hwin v (hwin' v hv)⟩
  exact hloop _ _ rfl

theorem told_freeBridge (h : s.enabled = false) :
    s.freeBridge.told = s.told ∧ ∀ v ∈ s.freeBridge.windows, v ∈ s.windows := by
  unfold State.freeBridge
  split
  · exact told_freeResource h _
  · exact ⟨rfl, fun v hv => hv⟩

end Reset

/-! ## Operations -/

/-- A reply that is handled, with a serial that was replied to -/
def State.RepliesAgain (s : State) (e : Event) : Prop :=
  e.channel ≤ 1 ∧ e.operation = .reply ∧ s.enabled = true ∧ s.bridge ≠ none ∧ e.serial ∈ s.answered

/-- The guards of `lorieDataCommand` turn a request of the host away. -/
def State.Ignores (s : State) (q : Request) : Action → Prop
  | .dataCommand e _ _ => q ∈ e.asked ∧ (1 < e.channel ∨ s.enabled = false ∨ s.bridge = none)
  | _ => False

/-- The answers to a request, the transfers that wait with it, and what a reset dropped. -/
def State.settled (s : State) (q : Request) : Nat := s.answers q + s.waiting q + s.abandoned.count q

/-- An operation settles what is asked; less, when it turns that away or the requestor is gone. Only a reset drops
requests. -/
structure Balances (q : Request) (a : Action) (s t : State) : Prop where
  started : s.Started → t.Started
  kept : a = .dataReset ∨ t.abandoned = s.abandoned
  le : t.settled q + s.requests.count q ≤ s.settled q + t.requests.count q
  eq : ¬s.Ignores q a → t.Alive q → t.settled q + s.requests.count q = s.settled q + t.requests.count q

namespace Balances

variable {q r : Request} {s t u : State} {a : Action}

/-- Something is asked, and as many answers go out or are waited for as it takes. -/
theorem of_taken {n : Nat} (h : Settles q n t u) (hstart : s.Started → t.Started) (hs : t.settled q = s.settled q)
    (ha : t.abandoned = s.abandoned) (hr : s.requests.count q + n ≤ t.requests.count q)
    (htaken : ¬s.Ignores q a → t.requests.count q = s.requests.count q + n) : Balances q a s u := by
  have hsettled : u.settled q = u.answers q + u.waiting q + t.abandoned.count q := by rw [State.settled, h.abandoned]
  have hold : t.settled q = t.answers q + t.waiting q + t.abandoned.count q := rfl
  have hle := h.le
  rw [← h.requests] at hr htaken
  constructor
  · exact h.started ∘ hstart
  · exact .inr (h.abandoned.trans ha)
  · omega
  · intro hno halive
    have heq := h.eq halive
    have := htaken hno
    omega

theorem of_settles (h : Settles q 0 s t) : Balances q a s t :=
  of_taken h id rfl rfl (Nat.le_refl _) fun _ => rfl

theorem taken (h : Settles q (if q = r then 1 else 0) { s with requests := s.requests ++ [r] } t) : Balances q a s t := by
  have hone : [r].count q = if q = r then 1 else 0 := by
    rw [List.count_singleton]
    by_cases hq : r = q
    · simp [hq]
    · simp [hq, Ne.symm hq]
  have hcount : (s.requests ++ [r]).count q = s.requests.count q + if q = r then 1 else 0 := by
    rw [List.count_append, hone]
  exact of_taken h id rfl rfl hcount.ge fun _ => hcount

/-- A command that asks nothing. -/
theorem of_silent {e : Event} (he : e.asked = []) (h : Settles q 0 (s.ask e) t) : Balances q a s t := by
  have hcount : (s.ask e).requests.count q = s.requests.count q := by
    rw [State.ask, he, List.append_nil]
  exact of_taken h id rfl rfl hcount.ge fun _ => hcount

/-- A command that is turned away. -/
theorem of_ignored {e : Event} {fd : Bool} {x : Answers}
    (hignored : 1 < e.channel ∨ s.enabled = false ∨ s.bridge = none) (h : Settles q 0 (s.ask e) t) :
    Balances q (.dataCommand e fd x) s t := by
  have hcount : (s.ask e).requests.count q = s.requests.count q + e.asked.count q := List.count_append
  refine of_taken h id rfl rfl (by omega) fun hno => ?_
  have hnone : q ∉ e.asked := fun hq => hno ⟨hq, hignored⟩
  rw [hcount, List.count_eq_zero_of_not_mem hnone]

/-- What comes before touches no request. -/
theorem before (hb : t.book = s.book) (hl : t.log = s.log) (hi : t.Ignores q a → s.Ignores q a) (h : Balances q a t u) :
    Balances q a s u := by
  obtain ⟨ht, hr, ha, hd⟩ : t.transfers = s.transfers ∧ t.requests = s.requests ∧ t.answered = s.answered ∧
      t.abandoned = s.abandoned := by simpa [State.book] using hb
  have hsettled : t.settled q = s.settled q := by
    rw [State.settled, State.settled, State.answers, State.answers, State.waiting, State.waiting, hl, ht, hd]
  have hle := h.le
  rw [hsettled, hr] at hle
  constructor
  · intro hs
    apply h.started
    intro i
    rw [ht, ha]
    exact hs i
  · rw [← hd]
    exact h.kept
  · exact hle
  · intro hno halive
    have heq := h.eq (hno ∘ hi) halive
    rw [hsettled, hr] at heq
    exact heq

/-- What comes behind takes no request. -/
theorem behind (h : Balances q a s t) (h' : Settles q 0 t u) : Balances q a s u := by
  have hlast : Balances q a t u := of_settles h'
  have hr := h'.requests
  have hle := h.le
  have hle' := hlast.le
  constructor
  · exact h'.started ∘ h.started
  · rw [h'.abandoned]
    exact h.kept
  · rw [hr] at hle' ⊢
    omega
  · intro hno ha
    have heq := h.eq hno (h'.alive ha)
    have heq' := h'.eq ha
    have hsettled : u.settled q = t.settled q := by
      rw [State.settled, State.settled, h'.abandoned]
      omega
    rw [hsettled, hr]
    exact heq

theorem convert (s : State) (c : Channel) (requestor : Option Window) (target : Atom) (property : Option Atom) (time : Nat)
    (x : Answers) : Balances q a s (s.convert c requestor target property time x) := by
  unfold State.convert
  split
  · exact of_settles (.refl s)
  · refine taken (r := .conversion requestor c target time) (Settles.before ?_ (.outgoingTransfer _ c requestor target
      property time x))
    exact .of_book rfl (fun _ hv _ => hv) (List.append_nil _).symm .nil

theorem read {e : Event} (he : e.operation = .read) (s : State) (c : Channel) (x : Answers) :
    Balances q a s ((s.ask e).read c e x) := by
  unfold State.read
  split
  · rename_i target hmime
    have hasked : s.ask e = { s with requests := s.requests ++ [.read e.serial] } := by
      simp [State.ask, Event.asked, he, hmime]
    refine taken (r := .read e.serial) ?_
    rw [hasked]
    have h := Settles.request (q := q) { s with requests := s.requests ++ [.read e.serial] } c e.serial e.offer target
      false x
    simpa only [true_and] using h
  · rename_i hmime
    exact of_silent (e := e) (by simp [Event.asked, hmime]) (.refl _)

theorem replied_some {c : Channel} {serial generation : Nat} {i : Fin maxPending}
    (hi : s.replied? c serial generation = some i) :
    (s.transfers i).used = true ∧ (s.transfers i).incoming = false ∧ (s.transfers i).serial = serial := by
  have := List.find?_some hi
  simp only [Bool.and_eq_true, Bool.not_eq_true', decide_eq_true_eq] at this
  exact ⟨this.1.1.1.1, this.1.1.1.2, this.1.1.2⟩

theorem reply (c : Channel) {e : Event} (he : e.operation = .reply) (fd : Option Nat) (x : Answers) (hs : s.Started)
    (hfresh : e.serial ∉ s.answered) : Balances q a s ((s.ask e).reply c e fd x) := by
  have hnone : e.asked = [] := by simp [Event.asked, he]
  have hcount : (s.ask e).requests.count q = s.requests.count q := by
    rw [State.ask, hnone, List.append_nil]
  have hstart : s.Started → State.Started { s.ask e with answered := s.answered ++ [e.serial] } := by
    intro h i hu hin hinc
    exact List.mem_append_left _ (h i hu hin hinc)
  have hsettles : Settles q 0 { s.ask e with answered := s.answered ++ [e.serial] } ((s.ask e).reply c e fd x) := by
    unfold State.reply
    dsimp only
    split
    · exact .close _ _
    · rename_i i hi
      obtain ⟨hu, hin, hser⟩ := replied_some hi
      refine .replyTo hu hin ?_ ?_ fd x
      · -- the serial was not replied to, so nothing was sent
        cases hinc : (s.transfers i).incremental with
        | false => exact hinc
        | true =>
          have hmem := hs i hu hin hinc
          rw [show (s.transfers i).serial = e.serial from hser] at hmem
          exact absurd hmem hfresh
      · rw [hser]
        exact List.mem_append_right _ (List.mem_singleton_self _)
  exact of_taken hsettles hstart rfl rfl hcount.ge fun _ => hcount

theorem operate (c : Channel) (e : Event) (fd : Option Nat) (x : Answers) (hs : s.Started)
    (hfresh : e.operation = .reply → e.serial ∉ s.answered) : Balances q a s ((s.ask e).operate c e fd x) := by
  have hrefl := DragStep.refl (s.ask e)
  have hnone (hop : e.operation ≠ .read) : e.asked = [] := by simp [Event.asked, hop]
  unfold State.operate
  split
  · rename_i hop
    exact of_silent (hnone (by rw [hop]; nofun)) ((Settles.takeOffer _ c e fd x).behind (.close _ _))
  · rename_i hop
    exact (read hop s c x).behind (.close _ _)
  · rename_i hop
    exact reply c hop fd x hs (hfresh hop)
  · rename_i hop
    exact of_silent (hnone (by rw [hop]; nofun)) ((Settles.dragStep (hrefl.enterDrag c e)).behind (.close _ _))
  · rename_i hop
    exact of_silent (hnone (by rw [hop]; nofun)) ((Settles.dragStep (hrefl.moveDrag e x)).behind (.close _ _))
  · rename_i hop
    exact of_silent (hnone (by rw [hop]; nofun)) ((Settles.dragStep hrefl.leaveTarget.forgetDrag).behind (.close _ _))
  · rename_i hop
    exact of_silent (hnone (by rw [hop]; nofun)) ((Settles.dragStep (hrefl.dropDrag x)).behind (.close _ _))
  · rename_i hop
    exact of_silent (hnone (by rw [hop]; nofun)) ((Settles.complete _ _).behind (.close _ _))
  · rename_i hop
    exact of_silent (hnone (by rw [hop]; nofun)) ((Settles.complete _ false).behind (.close _ _))
  · rename_i hop
    exact of_silent (hnone (by rw [hop]; nofun)) ((Settles.beginExport _ x).behind (.close _ _))
  · rename_i hop _ _ _ _ _ _ _ _
    exact of_silent (hnone hop) (.close _ _)

theorem command (e : Event) (fd : Option Nat) (b : Bool) (x : Answers) (hs : s.Started) (hfresh : ¬s.RepliesAgain e) :
    Balances q (.dataCommand e b x) s ((s.ask e).command e fd x) := by
  unfold State.command
  split
  · rename_i hchannel
    exact of_ignored (.inl hchannel) (.close _ _)
  · rename_i hchannel
    split
    · rename_i hop
      exact of_silent (e := e) (by simp [Event.asked, hop]) ((Settles.enable _ e x).behind (.close _ _))
    · split
      · rename_i hdead
        exact of_ignored (.inr hdead) (.close _ _)
      · rename_i hlive
        rw [not_or] at hlive
        refine operate e.selected e fd x hs fun hop hmem => hfresh ?_
        exact ⟨by omega, hop, by simpa [State.ask] using hlive.1, hlive.2, hmem⟩

theorem lorieDataCommand (e : Event) (fd : Bool) (x : Answers) (hs : s.Started) (hfresh : ¬s.RepliesAgain e) :
    Balances q (.dataCommand e fd x) s (s.lorieDataCommand e fd x) := by
  unfold State.lorieDataCommand
  cases fd with
  | false => exact command e none false x hs hfresh
  | true =>
    have hnew : Balances q (.dataCommand e true x) s.newFd.2 ((s.newFd.2.ask e).command e s.newFd.1 x) :=
      command e _ true x hs hfresh
    rw [if_pos rfl]
    exact before (t := s.newFd.2) rfl rfl id hnew

/-- A reset drops the requests that transfers wait with. -/
theorem lorieDataReset (s : State) : Balances q .dataReset s s.lorieDataReset := by
  obtain ⟨r, hr⟩ : ∃ r, r = s.endExport freeResource := ⟨_, rfl⟩
  have hend : Settles q 0 s r := hr ▸ Settles.endExport s
  have hall := told_releaseAll r
  simp only [State.told, Prod.mk.injEq] at hall
  obtain ⟨⟨hlog, hreq, hans, haba, hoff⟩, hwin⟩ := hall
  have hbridge := told_freeBridge hoff
  simp only [State.told, Prod.mk.injEq] at hbridge
  obtain ⟨⟨hlog', hreq', hans', haba', -⟩, hwin'⟩ := hbridge
  have hlogt : s.lorieDataReset.log = r.log := by rw [← hlog, ← hlog', hr]; rfl
  have hreqt : s.lorieDataReset.requests = r.requests := by rw [← hreq, ← hreq', hr]; rfl
  have habat : s.lorieDataReset.abandoned = r.abandoned ++ r.usedTransfers.filterMap Transfer.request := by
    rw [← haba, ← haba', hr]
    rfl
  have hwint : ∀ v ∈ s.lorieDataReset.windows, v.clientOwned = true → v ∈ r.windows := by
    intro v hv _
    apply hwin v
    apply hwin' v
    rw [hr]
    exact hv
  have hwait : s.lorieDataReset.waiting q = 0 := by
    apply tally_eq_zero
    intro i
    simp [Transfer.awaits, used_lorieDataReset s i]
  have hsettled : s.lorieDataReset.settled q = r.settled q := by
    rw [State.settled, State.settled, hwait, State.answers, hlogt, habat, List.count_append, count_usedTransfers]
    rw [State.answers]
    omega
  have hold : Balances q .dataReset s r := of_settles hend
  have hle := hold.le
  constructor
  · intro _ i hu
    rw [used_lorieDataReset] at hu
    cases hu
  · exact .inl rfl
  · rw [hsettled, hreqt]
    exact hle
  · intro hno ha
    have heq := hold.eq hno (alive_subset hwint ha)
    rw [hsettled, hreqt]
    exact heq

end Balances

/-- The host replies for the second time with a serial. -/
def State.RepliesTwice (s : State) : Action → Prop
  | .dataCommand e _ _ => s.RepliesAgain e
  | _ => False

/-- **One operation** settles the requests that it takes. -/
theorem balances_step {q : Request} {s t : State} {a : Action} (hs : s.Started) (hok : ¬s.RepliesTwice a)
    (h : step s a = some t) : Balances q a s t := by
  cases a with
  | createWindow c n =>
    simp only [step] at h
    split at h
    · cases h
    · cases h
      constructor
      · exact id
      · exact .inr rfl
      · exact Nat.le_refl _
      · exact fun _ _ => rfl
  | destroyWindow w =>
    simp only [step] at h
    split at h
    · cases h
      exact .of_settles (.frees (freeResource_frees s w))
    · cases h
  | setSelectionOwner c window client time x =>
    simp only [step] at h
    split at h
    · cases h
      refine .of_settles (Settles.before ?_ (.selectionChanged _ c .setOwner x))
      exact .of_book rfl (fun _ hv _ => hv) (List.append_nil _).symm .nil
    · cases h
  | closeClient client =>
    simp only [step] at h
    split at h
    · cases h
      exact .of_settles (.frees (frees_closeClient client (guarded_all s) fun _ => .inl trivial))
    · cases h
  | convert c requestor target property time x =>
    cases h
    exact .convert s c requestor target property time x
  | selectionNotify c requestor target property x =>
    cases h
    exact .of_settles (.selectionNotify s c requestor target property x)
  | clientMessage window type first bit copy x =>
    cases h
    exact .of_settles (.clientMessage s window type first bit copy x)
  | propertyChanged i x =>
    cases h
    unfold State.propertyChanged
    dsimp only
    split
    · have hset : Settles q 0 s (s.setTransfer i { s.transfers i with queued := true }) := .move rfl
      exact .of_settles (hset.behind (.of_book rfl (fun _ hv _ => hv) (List.append_nil _).symm .nil))
    · exact .of_settles (.refl s)
  | propertyWork x =>
    simp only [step] at h
    split at h
    · cases h
      refine .of_settles (Settles.before ?_ (.propertyWork _ _ _ x))
      exact .of_book rfl (fun _ hv _ => hv) (List.append_nil _).symm .nil
    · cases h
  | expired i =>
    simp only [step] at h
    split at h
    · rename_i hi
      cases h
      have hset : Settles q 0 s (s.setTransfer i { s.transfers i with timer := false }) := .move rfl
      refine .of_settles (hset.behind (.fail ?_))
      rw [transfers_setTransfer_self]
      exact hi.1
    · cases h
  | exportExpired =>
    simp only [step] at h
    split at h
    · cases h
      exact .of_settles ((Settles.exportStep ((ExportStep.refl s).withExport _)).behind (.endExport _))
    · cases h
  | dataPointer output window button down =>
    simp only [step] at h
    split at h
    · cases h
      unfold State.lorieDataPointer
      split
      · exact .of_settles (.refl s)
      · exact .of_settles (.of_book rfl (fun _ hv _ => hv) (List.append_nil _).symm .nil)
    · cases h
  | dataCommand e fd x =>
    cases h
    exact .lorieDataCommand e fd x hs hok
  | dataReset =>
    cases h
    exact .lorieDataReset s

/-! ## Whole runs -/

instance (s : State) (e : Event) : Decidable (s.RepliesAgain e) := inferInstanceAs (Decidable (_ ∧ _))

instance (s : State) (a : Action) : Decidable (s.RepliesTwice a) :=
  match a with
  | .dataCommand e _ _ => inferInstanceAs (Decidable (s.RepliesAgain e))
  | .createWindow .. | .destroyWindow .. | .setSelectionOwner .. | .closeClient .. | .convert .. | .selectionNotify ..
  | .clientMessage .. | .propertyChanged .. | .propertyWork .. | .expired .. | .exportExpired | .dataPointer ..
  | .dataReset => inferInstanceAs (Decidable False)

/-- While its requestor exists, a run settles every request that it does not turn away. -/
theorem run_balances {q : Request} {s t : State} (hs : s.Started)
    (h : Reach step (fun s a => ¬s.RepliesTwice a ∧ ¬s.Ignores q a ∧ s.Alive q) s t) :
    t.Started ∧ (t.Alive q → t.settled q + s.requests.count q = s.settled q + t.requests.count q) := by
  induction h with
  | refl => exact ⟨hs, fun _ => rfl⟩
  | tail _ hc hstep ih =>
    obtain ⟨hstart, heq⟩ := ih
    have hlast := balances_step (q := q) hstart hc.1 hstep
    refine ⟨hlast.started hstart, fun ha => ?_⟩
    have := heq hc.2.2
    have := hlast.eq hc.2.1 ha
    omega

/-- The host offers the clipboard; a client converts it twice, the host replies to one request, and reads its own offer. -/
def converted : List Action :=
  [.createWindow 1 1, .dataCommand { operation := .enable, channel := 0 } false { newWindow := some 0 },
    .dataCommand { operation := .offer, channel := 0, offer := 9 } true { names := some [.other 3] },
    .convert .clipboard (some (.client 1 1)) (.other 3) none 7 {}, .convert .clipboard (some (.client 1 1)) (.other 3) none 7 {},
    .dataCommand { operation := .reply, channel := 0, serial := 1, offer := 9 } true { stat := some 10 },
    .dataCommand { operation := .read, channel := 0, serial := 5, offer := 9, mime := some (.other 3) } false {}]

/-- The exchange is switched on when no window can be made for it; the host reads. -/
def unanswered : List Action :=
  [.dataCommand { operation := .enable, channel := 0 } false { newWindow := none },
    .dataCommand { operation := .read, channel := 0, serial := 5, mime := some (.other 3) } false {}]

end Lorie.DataExchange
