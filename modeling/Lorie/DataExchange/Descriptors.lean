import Lorie.DataExchange.Frees
import Lorie.Lib.Ledger
import Mathlib.Data.Fintype.Basic

/-!
# The descriptors of the exchange

A descriptor is made by `bytesFile` or comes with a command. It is closed, in a transfer, or local to the operation that
runs.

- `Ledger s loc`: one equation for each descriptor, with the local ones in `loc`;
- `Ledger.frees`: what `FreeResource` does keeps it; one lemma for each function follows;
- `Replaces`: the operations that give a transfer a second descriptor;
- `descriptors_closed_once`: without those operations every descriptor has one owner.
-/

namespace Lorie.DataExchange

open Lorie.Lib

/-- How often a transfer holds a descriptor. -/
def Transfer.holds (d : Nat) (t : Transfer) : Nat := if t.used = true ∧ t.fd = some d then 1 else 0

namespace State

/-- How many transfers hold a descriptor. -/
def held (s : State) (d : Nat) : Nat := tally (Transfer.holds d) s.transfers

/-- Every descriptor that was made is closed, in a transfer or local, once. -/
def Ledger (s : State) (loc : List Nat) : Prop :=
  ∀ d, s.closed.count d + s.held d + loc.count d = if d < s.created then 1 else 0

variable {s t : State} {loc : List Nat} {i : Fin maxPending}

/-! ## Pieces -/

theorem Ledger.congr (h : s.Ledger loc) (ht : t.transfers = s.transfers) (hc : t.closed = s.closed)
    (hn : t.created = s.created) : t.Ledger loc := by
  intro d
  rw [hc, hn, held, ht]
  exact h d

theorem Ledger.drag (h : s.Ledger loc) (hstep : DragStep s t) : t.Ledger loc := by
  obtain ⟨d, l, -, -, rfl⟩ := hstep
  exact h.congr rfl rfl rfl

theorem Ledger.export (h : s.Ledger loc) (hstep : ExportStep s t) : t.Ledger loc := by
  obtain ⟨x, e, l, p, -, rfl⟩ := hstep
  exact h.congr rfl rfl rfl

/-- A transfer changes, but not its descriptor. -/
theorem Ledger.setTransfer (h : s.Ledger loc) {x : Transfer} (hu : x.used = (s.transfers i).used)
    (hf : x.fd = (s.transfers i).fd) : (s.setTransfer i x).Ledger loc := by
  intro d
  have hupd := tally_update (Transfer.holds d) s.transfers i x
  have hsame : Transfer.holds d x = Transfer.holds d (s.transfers i) := by simp only [Transfer.holds, hu, hf]
  have hd := h d
  simp only [held] at hd
  show s.closed.count d + tally (Transfer.holds d) (Function.update s.transfers i x) + loc.count d = _
  rw [hsame] at hupd
  show _ = if d < s.created then 1 else 0
  omega

/-- A transfer that is not in use changes. -/
theorem Ledger.setUnused (h : s.Ledger loc) {x : Transfer} (hu : (s.transfers i).used = false)
    (hx : ∀ d, Transfer.holds d x = 0) : (s.setTransfer i x).Ledger loc := by
  intro d
  have hupd := tally_update (Transfer.holds d) s.transfers i x
  have hzero : Transfer.holds d (s.transfers i) = 0 := by simp [Transfer.holds, hu]
  have hd := h d
  simp only [held] at hd
  show s.closed.count d + tally (Transfer.holds d) (Function.update s.transfers i x) + loc.count d =
    if d < s.created then 1 else 0
  rw [hzero, hx d] at hupd
  omega

/-- A transfer takes a local descriptor, when it has none. -/
theorem Ledger.take {x : Transfer} {d : Nat} (h : s.Ledger (d :: loc)) (hf : (s.transfers i).fd = none)
    (hx : x.used = true) (hd : x.fd = some d) : (s.setTransfer i x).Ledger loc := by
  intro e
  have hupd := tally_update (Transfer.holds e) s.transfers i x
  have hold : Transfer.holds e (s.transfers i) = 0 := by simp [Transfer.holds, hf]
  have hnew : Transfer.holds e x = [d].count e := by
    simp only [Transfer.holds, hx, hd, true_and, Option.some.injEq, List.count_singleton, beq_iff_eq]
  have he := h e
  simp only [held] at he
  show s.closed.count e + tally (Transfer.holds e) (Function.update s.transfers i x) + loc.count e =
    if e < s.created then 1 else 0
  rw [hold, hnew] at hupd
  have hcons : (d :: loc).count e = loc.count e + [d].count e := by
    rw [List.count_cons, List.count_singleton]
  omega

/-- The slot of a transfer is released. -/
theorem Ledger.releaseSlot (h : s.Ledger loc) (hu : (s.transfers i).used = true) : (s.releaseSlot i).Ledger loc := by
  intro d
  have hupd := tally_update (Transfer.holds d) s.transfers i { s.transfers i with used := false, timer := false }
  have hnew : Transfer.holds d { s.transfers i with used := false, timer := false } = 0 := by simp [Transfer.holds]
  have hold : Transfer.holds d (s.transfers i) = (s.transfers i).fd.toList.count d := by
    cases hfd : (s.transfers i).fd with
    | none => simp [Transfer.holds, hfd]
    | some e =>
      simp only [Transfer.holds, hu, hfd, true_and, Option.some.injEq, Option.toList_some, List.count_singleton,
        beq_iff_eq]
  have hd := h d
  simp only [held] at hd
  show (s.closed ++ (s.transfers i).fd.toList).count d + tally (Transfer.holds d) (Function.update s.transfers i
    { s.transfers i with used := false, timer := false }) + loc.count d = if d < s.created then 1 else 0
  rw [List.count_append]
  rw [hnew, hold] at hupd
  omega

theorem Ledger.clearFd (h : s.Ledger loc) (hu : (s.transfers i).used = false) : (s.clearFd i).Ledger loc :=
  h.setUnused hu fun d => by simp [Transfer.holds]

/-- Nothing but the log changes. -/
theorem Ledger.refuse (h : s.Ledger loc) (x : Transfer) : (s.refuse x).Ledger loc := by
  unfold State.refuse
  repeat' split
  all_goals exact h.congr rfl rfl rfl

theorem Ledger.failOutgoing (h : s.Ledger loc) (hu : (s.transfers i).used = true) : (s.failOutgoing i).Ledger loc := by
  unfold State.failOutgoing
  have hslot := (h.refuse (s.transfers i)).releaseSlot (i := i) (by rw [transfers_refuse]; exact hu)
  have hclear := hslot.clearFd (i := i) (by rw [transfers_releaseSlot_self])
  exact hclear.drag ((DragStep.refl _).selectionFinished _ _ _)

/-- What `FreeResource` does keeps the ledger. -/
theorem Ledger.frees {R : Rights} (hstep : Frees R s t) (h : s.Ledger loc) : t.Ledger loc := by
  induction hstep with
  | refl s => exact h
  | trans _ _ ih ih' => exact ih' (ih h)
  | erase s _ => exact h.congr rfl rfl rfl
  | lose _ => exact h.congr rfl rfl rfl
  | @incoming s i hu _ => exact (h.refuse _).releaseSlot (by rw [transfers_refuse]; exact hu)
  | clearFd hu => exact h.clearFd hu
  | outgoing hu _ _ => exact h.failOutgoing hu
  | renew _ => exact h.congr rfl rfl rfl
  | cancel s => exact h.congr rfl rfl rfl
  | @endExport s t _ _ ih => exact (ih (h.export (.finishExport s))).export (.leaveExport t)

/-! ## Functions -/

theorem Ledger.fail (h : s.Ledger loc) (hu : (s.transfers i).used = true) : (s.fail freeResource i).Ledger loc :=
  h.frees (fail_frees hu)

theorem Ledger.release (h : s.Ledger loc) : (s.release freeResource i).Ledger loc := by
  cases hu : (s.transfers i).used with
  | false =>
    rw [release_unused _ hu]
    exact h
  | true =>
    rw [release_eq _ hu]
    have hslot : ((s.releaseSlot i).transfers i).used = false := by rw [transfers_releaseSlot_self]
    refine Ledger.clearFd ?_ (used_freeRequestor freeing_freeResource hslot _)
    exact (h.releaseSlot hu).frees (frees_freeRequestor freeing_freeResource (guarded_all _) fun _ _ _ => trivial)

theorem Ledger.endExport (h : s.Ledger loc) : (s.endExport freeResource).Ledger loc := by
  unfold State.endExport
  dsimp only
  split
  · exact ((h.export (.finishExport s)).frees (freeResource_frees _ _)).export (.leaveExport _)
  · exact (h.export (.finishExport s)).export (.leaveExport _)

theorem Ledger.selectionFinished (h : s.Ledger loc) (x : Transfer) (success : Bool) (a : Answers) :
    (s.selectionFinished x success a).Ledger loc := h.drag ((DragStep.refl s).selectionFinished x success a)

theorem Ledger.close {fd : Option Nat} (h : s.Ledger (fd.toList ++ loc)) : (s.close fd).Ledger loc := by
  intro d
  have := h d
  show (s.closed ++ fd.toList).count d + s.held d + loc.count d = if d < s.created then 1 else 0
  rw [List.count_append] at this ⊢
  omega

/-- A descriptor is made. -/
theorem Ledger.newFd (h : s.Ledger loc) : s.newFd.2.Ledger (s.newFd.1.toList ++ loc) := by
  intro d
  have hd := h d
  show s.closed.count d + s.held d + (s.created :: loc).count d = if d < s.created + 1 then 1 else 0
  rw [List.count_cons]
  by_cases hc : s.created = d
  · subst hc
    simp only [Nat.lt_irrefl, if_false] at hd
    simp only [beq_self_eq_true, if_true, Nat.lt_succ_self]
    omega
  · have hlt : d < s.created + 1 ↔ d < s.created := by omega
    simp only [beq_iff_eq, hc, if_false, hlt]
    omega

theorem Ledger.bytesFile (h : s.Ledger loc) (size : Nat) (file : NewFile) :
    (s.bytesFile size file).2.Ledger ((s.bytesFile size file).1.toList ++ loc) := by
  cases file with
  | created => exact h.newFd
  | failed => exact h
  | unwritten =>
    unfold State.bytesFile
    dsimp only
    split
    · exact h.newFd
    · exact h.newFd.close

theorem Ledger.publishTargets (h : s.Ledger loc) (c : Channel) (file : NewFile) : (s.publishTargets c file).Ledger loc := by
  unfold State.publishTargets
  dsimp only
  refine Ledger.close ?_
  exact (h.bytesFile _ file).congr rfl rfl rfl

theorem newWindow_frame (s : State) (a : Answers) :
    (s.newWindow a).2.transfers = s.transfers ∧ (s.newWindow a).2.closed = s.closed ∧
      (s.newWindow a).2.created = s.created := by
  unfold State.newWindow
  split
  · split <;> exact ⟨rfl, rfl, rfl⟩
  · exact ⟨rfl, rfl, rfl⟩

theorem Ledger.newWindow (h : s.Ledger loc) (a : Answers) : (s.newWindow a).2.Ledger loc := by
  obtain ⟨ht, hc, hn⟩ := newWindow_frame s a
  exact h.congr ht hc hn

theorem Ledger.allocate {incoming : Bool} {c : Channel} {serial generation : Nat} {timer : Bool} (h : s.Ledger loc)
    (ht : s.allocate incoming c serial generation timer = some (i, t)) :
    t.Ledger loc ∧ (t.transfers i).used = true := by
  unfold State.allocate at ht
  obtain ⟨j, hj, heq⟩ := Option.map_eq_some_iff.1 ht
  cases heq
  have hfree : (s.transfers i).used = false := by simpa using List.find?_some hj
  refine ⟨Ledger.congr (h.setUnused (i := i) hfree fun d => ?_) rfl rfl rfl, ?_⟩
  · simp [Transfer.holds]
  · show (Function.update s.transfers i _ i).used = true
    rw [Function.update_self]

theorem Ledger.request (h : s.Ledger loc) (c : Channel) (serial generation : Nat) (target : Atom) (list : Bool)
    (a : Answers) : (s.request freeResource c serial generation target list a).Ledger loc := by
  have hrefused : (if list then s else s.emit .reply c serial generation (some target) none 0 none false).Ledger loc := by
    split
    · exact h
    · exact h.congr rfl rfl rfl
  have hcases := request_cases s c serial generation target list a
  generalize s.request freeResource c serial generation target list a = r at hcases ⊢
  cases hcases with
  | refused => exact hrefused
  | @asked i t u w halloc hnew =>
    obtain ⟨ht, hu⟩ := h.allocate halloc
    have hset : (t.setTransfer i { t.transfers i with target := target, targets := list, property := .data }).Ledger loc :=
      ht.setTransfer rfl rfl
    have hself := transfers_setTransfer_self t i { t.transfers i with target := target, targets := list, property := .data }
    generalize t.setTransfer i { t.transfers i with target := target, targets := list, property := .data } = v at *
    have hwin := (newWindow_frame v a).1
    have hledger := hset.newWindow a
    rw [hnew] at hwin hledger
    cases w with
    | none =>
      refine hledger.fail ?_
      rw [hwin, hself]
      exact hu
    | some w => exact hledger.setTransfer rfl rfl

theorem Ledger.selectionChanged (h : s.Ledger loc) (c : Channel) (kind : Kind) (a : Answers) :
    (s.selectionChanged freeResource c kind a).Ledger loc := by
  rcases selectionChanged_cases freeing_freeResource kind a (guarded_all s) (c := c) fun _ _ => .inl trivial with
    heq | hfrees | ⟨-, -, -, hforget, heq⟩
  · rw [heq]
    exact h
  · exact h.frees hfrees
  · rw [heq]
    exact (h.frees hforget).request _ _ _ _ _ a

theorem Ledger.own (h : s.Ledger loc) (c : Channel) (a : Answers) : (s.own c a).Ledger loc := by
  unfold State.own
  split
  · refine Ledger.selectionChanged ?_ c .setOwner a
    exact h.congr rfl rfl rfl
  · exact h

/-- A property announces an incremental transfer that `receive` takes. -/
def Announces (s : State) (i : Fin maxPending) (a : Answers) : Prop :=
  s.HasWindow (s.transfers i).requestor ∧ (s.transfers i).generation = (s.offers (s.transfers i).channel).generation ∧
    (s.transfers i).targets = false ∧
    ∃ p ∈ a.property, p.type = .incr ∧ p.format = 32 ∧ p.size = 1 ∧ p.value ≤ maxBytes

/-- Opening a file for a piece gives it to a transfer that has none. -/
theorem Ledger.opens (h : s.Ledger loc) (hu : (s.transfers i).used = true) {file : NewFile} {fd : Option Nat} {r : State}
    (ho : Opens s i file fd r) : (r.setTransfer i { s.transfers i with fd := fd }).Ledger loc := by
  have htr := ho.transfers
  cases ho with
  | kept => exact h.setTransfer rfl rfl
  | opened hnone hfile =>
    have hsame := h.bytesFile 0 file
    rw [hfile] at hsame
    cases fd with
    | none =>
      refine hsame.setTransfer ?_ ?_
      · rw [htr]
      · rw [htr, hnone]
    | some d =>
      refine Ledger.take hsame ?_ hu rfl
      rw [htr]
      exact hnone

theorem Ledger.piece (h : s.Ledger loc) (hu : (s.transfers i).used = true) {file : NewFile} {fd : Option Nat} {r : State}
    (ho : Opens s i file fd r) (n : Nat) : ((r.setTransfer i { s.transfers i with fd := fd }).setTransfer i
      { s.transfers i with fd := fd, size := (s.transfers i).size + n }).Ledger loc := by
  refine (h.opens hu ho).setTransfer ?_ ?_
  · rw [transfers_setTransfer_self]
  · rw [transfers_setTransfer_self]

theorem Ledger.receive (h : s.Ledger loc) (hu : (s.transfers i).used = true) (initial : Bool) (a : Answers)
    (hfresh : initial = true → s.Announces i a → (s.transfers i).fd = none) : (s.receive i initial a).Ledger loc := by
  have hreceives := receive_cases s i initial a
  generalize s.receive i initial a = t at hreceives ⊢
  cases hreceives with
  | fails => exact h.fail hu
  | @announced fd r hinitial hwindow hgeneration htargets hproperty hfile =>
    have hfd := hfresh hinitial ⟨hwindow, hgeneration, htargets, hproperty⟩
    have hsame := h.bytesFile 0 a.file
    have htr := transfers_bytesFile s 0 a.file
    rw [hfile] at hsame htr
    cases fd with
    | none =>
      refine Ledger.fail (hsame.setTransfer ?_ ?_) ?_
      · rw [htr]
      · rw [htr, hfd]
      · rw [transfers_setTransfer_self]
        exact hu
    | some d =>
      refine Ledger.take hsame ?_ hu rfl
      rw [htr]
      exact hfd
  | targets _ htargets =>
    refine Ledger.release (Ledger.publishTargets ?_ _ _)
    exact h.congr rfl rfl rfl
  | lost ho =>
    refine (h.opens hu ho).fail ?_
    rw [transfers_setTransfer_self]
    exact hu
  | last n ho hlist => exact Ledger.release ((h.piece hu ho n).congr rfl rfl rfl)
  | more n ho => exact h.piece hu ho n

theorem Ledger.advance (h : s.Ledger loc) : (s.advance i).Ledger loc := h.setTransfer rfl rfl

theorem Ledger.sendChunk (h : s.Ledger loc) (hu : (s.transfers i).used = true) (a : Answers) :
    (s.sendChunk i a).1.Ledger loc := by
  unfold State.sendChunk
  dsimp only
  split
  · exact h.release.selectionFinished _ _ _
  · split
    · exact h.fail hu
    · split
      · exact h.advance.release.selectionFinished _ _ _
      · exact h.advance

theorem Ledger.propertyWork (h : s.Ledger loc) (ticket : Nat) (a : Answers) : (s.propertyWork i ticket a).Ledger loc := by
  unfold State.propertyWork
  dsimp only
  split
  · rename_i hw
    have hset : (s.setTransfer i { s.transfers i with queued := false }).Ledger loc := h.setTransfer rfl rfl
    have hused : ((s.setTransfer i { s.transfers i with queued := false }).transfers i).used = true := by
      rw [transfers_setTransfer_self]
      exact hw.2.1
    split
    · exact hset.receive hused false a nofun
    · exact hset.sendChunk hused a
  · exact h

theorem Ledger.serve (h : s.Ledger loc) (hu : (s.transfers i).used = true) (a : Answers) : (s.serve i a).Ledger loc := by
  unfold State.serve
  dsimp only
  split
  · exact h.fail hu
  · split
    · refine Ledger.release ?_
      exact h.congr rfl rfl rfl
    · split
      · exact h.congr rfl rfl rfl
      · exact h.fail hu

theorem Ledger.convert (h : s.Ledger loc) (c : Channel) (requestor : Option Window) (target : Atom)
    (property : Option Atom) (time : Nat) (a : Answers) : (s.convert c requestor target property time a).Ledger loc := by
  unfold State.convert
  split
  · exact h
  · have hr : Ledger { s with
        requests := s.requests ++ [Request.conversion requestor c target time]
        requestSequence := s.requestSequence + 1 } loc :=
      h.congr rfl rfl rfl
    unfold State.outgoingTransfer
    split
    · exact hr.congr rfl rfl rfl
    · rename_i i t halloc
      obtain ⟨ht, hu⟩ := hr.allocate halloc
      refine Ledger.serve ?_ ?_ a
      · exact ht.setTransfer rfl rfl
      · rw [transfers_setTransfer_self]
        exact hu

theorem used_notified {c : Channel} {requestor : Option Window} {target : Atom}
    (hi : s.notified? c requestor target = some i) : (s.transfers i).used = true := by
  have := List.find?_some hi
  simp only [Bool.and_eq_true] at this
  exact this.1.1.1.1

theorem used_replied {c : Channel} {serial generation : Nat} (hi : s.replied? c serial generation = some i) :
    (s.transfers i).used = true := by
  have := List.find?_some hi
  simp only [Bool.and_eq_true] at this
  exact this.1.1.1.1

theorem Ledger.selectionNotify (h : s.Ledger loc) (c : Channel) (requestor : Option Window) (target property : Atom)
    (a : Answers)
    (hfresh : ¬(s.enabled = true ∧ ∃ i, s.notified? c requestor target = some i ∧
      property = (s.transfers i).property ∧ s.Announces i a ∧ (s.transfers i).fd ≠ none)) :
    (s.selectionNotify c requestor target property a).Ledger loc := by
  unfold State.selectionNotify
  split
  · exact h
  · rename_i hon
    split
    · rename_i i hi
      have hu := used_notified hi
      split
      · rename_i hprop
        refine h.receive hu true a fun _ hann => ?_
        by_contra hne
        exact hfresh ⟨by simpa using hon, i, hi, hprop, hann, hne⟩
      · exact h.fail hu
    · exact h

theorem Ledger.exportDrop (h : s.Ledger loc) : s.exportDrop.Ledger loc := by
  have hdrop := h.export (((ExportStep.refl s).withExport fun x => { x with dropped := true }).record fun r =>
    { r with dropped := true })
  unfold State.exportDrop
  dsimp only
  split
  · exact hdrop.endExport
  · exact hdrop

theorem Ledger.clientMessage (h : s.Ledger loc) (window : Option Window) (type : MessageType) (first : Option Window)
    (bit copy : Bool) (a : Answers) : (s.clientMessage window type first bit copy a).Ledger loc := by
  unfold State.clientMessage
  dsimp only
  repeat' split
  · exact h
  · exact h.congr rfl rfl rfl
  · exact h
  · exact h.exportDrop
  · exact h.drag ((DragStep.refl s).dragStatus _ a)
  · exact h.drag ((DragStep.refl s).dragFinished bit)
  · exact h

theorem Ledger.startIncremental (h : s.Ledger loc) (a : Answers) : (s.startIncremental i a).Ledger loc := by
  have hset : (s.setTransfer i { s.transfers i with incremental := true }).Ledger loc := h.setTransfer rfl rfl
  unfold State.startIncremental
  dsimp only
  split
  · exact hset.congr rfl rfl rfl
  · refine Ledger.release ?_
    exact hset.congr rfl rfl rfl

theorem Ledger.sendWhole (h : s.Ledger loc) (hu : (s.transfers i).used = true) (a : Answers) :
    (s.sendWhole i a).Ledger loc := by
  have hchunk := h.sendChunk hu a
  unfold State.sendWhole
  dsimp only
  generalize s.sendChunk i a = r at hchunk
  refine Ledger.selectionFinished (Ledger.release ?_) _ _ _
  split
  · exact hchunk.congr rfl rfl rfl
  · exact hchunk

theorem Ledger.deliver (h : s.Ledger loc) (hu : (s.transfers i).used = true) (a : Answers) :
    (s.deliver i a).Ledger loc := by
  unfold State.deliver
  split
  · exact h.release
  · split
    · exact h.startIncremental a
    · exact h.sendWhole hu a

theorem Ledger.replyTo {fd : Option Nat} (h : s.Ledger (fd.toList ++ loc)) (hu : (s.transfers i).used = true) (a : Answers)
    (hfresh : ∀ size, fd.isSome = true → a.stat = some size → size ≤ maxBytes → (s.transfers i).fd = none) :
    (s.replyTo i fd a).Ledger loc := by
  unfold State.replyTo
  split
  · rename_i fd size hstat
    split
    · exact Ledger.close (h.fail hu)
    · refine Ledger.deliver ?_ ?_ a
      · exact Ledger.take h (hfresh size rfl hstat (by omega)) hu rfl
      · rw [transfers_setTransfer_self]
        exact hu
  · exact Ledger.close (h.fail hu)

theorem Ledger.reply (c : Channel) (e : Event) {fd : Option Nat} (h : s.Ledger (fd.toList ++ loc)) (a : Answers)
    (hfresh : ∀ i size, s.replied? c e.serial e.offer = some i → fd.isSome = true → a.stat = some size → size ≤ maxBytes →
      (s.transfers i).fd = none) : (s.reply c e fd a).Ledger loc := by
  have hr : Ledger { s with answered := s.answered ++ [e.serial] } (fd.toList ++ loc) := h.congr rfl rfl rfl
  unfold State.reply
  dsimp only
  split
  · exact hr.close
  · rename_i i hi
    exact hr.replyTo (used_replied hi) a fun size => hfresh i size hi

theorem Ledger.complete (h : s.Ledger loc) (success : Bool) : (s.complete success).Ledger loc := by
  have hreport : (s.report success).Ledger loc := by
    have hpointer := h.export ((((ExportStep.refl s).withExport fun x =>
      { x with completed := true, success := success }).record fun r =>
        { r with reports := r.reports ++ [success] }).releaseExportPointer)
    unfold State.report
    dsimp only
    split
    · exact hpointer.endExport
    · exact hpointer
  unfold State.complete
  refine Ledger.drag ?_ ((DragStep.refl _).forgetDrag)
  split
  · exact hreport
  · exact h

theorem Ledger.beginExport (h : s.Ledger loc) (a : Answers) : (s.beginExport a).Ledger loc := by
  have hwin := h.newWindow a
  unfold State.beginExport
  dsimp only
  split
  · split
    · exact h
    · split
      · rename_i heq
        rw [heq] at hwin
        exact hwin.congr rfl rfl rfl
      · rename_i heq
        rw [heq] at hwin
        exact hwin.congr rfl rfl rfl
  · exact h

/-- The transfers that a command would give a second descriptor. -/
def ReplyReplaces (s : State) (e : Event) (fd : Bool) (a : Answers) : Prop :=
  e.channel ≤ 1 ∧ e.operation = .reply ∧ s.enabled = true ∧ s.bridge ≠ none ∧ fd = true ∧
    (∃ size ∈ a.stat, size ≤ maxBytes) ∧
    ∃ i, s.replied? e.selected e.serial e.offer = some i ∧ (s.transfers i).fd ≠ none

theorem Ledger.operate (c : Channel) (e : Event) {fd : Option Nat} (h : s.Ledger (fd.toList ++ loc)) (a : Answers)
    (hfresh : e.operation = .reply → ∀ i size, s.replied? c e.serial e.offer = some i → fd.isSome = true →
      a.stat = some size → size ≤ maxBytes → (s.transfers i).fd = none) : (s.operate c e fd a).Ledger loc := by
  unfold State.operate
  split
  · refine Ledger.close ?_
    unfold State.takeOffer
    split
    · refine Ledger.own ?_ c a
      exact h.congr rfl rfl rfl
    · exact h
  · refine Ledger.close ?_
    unfold State.read
    split
    · exact h.request _ _ _ _ _ a
    · exact h
  · rename_i hop
    exact h.reply c e a (hfresh hop)
  · exact Ledger.close (h.drag ((DragStep.refl s).enterDrag c e))
  · exact Ledger.close (h.drag ((DragStep.refl s).moveDrag e a))
  · exact Ledger.close (h.drag (DragStep.refl s).leaveTarget.forgetDrag)
  · exact Ledger.close (h.drag ((DragStep.refl s).dropDrag a))
  · exact Ledger.close (h.complete _)
  · exact Ledger.close (h.complete false)
  · exact Ledger.close (h.beginExport a)
  · exact h.close

theorem Ledger.enable (h : s.Ledger loc) (e : Event) (a : Answers) : (s.enable e a).Ledger loc := by
  have hon : Ledger { s with enabled := true, clipboardActive := e.x ≠ 0 } loc := h.congr rfl rfl rfl
  unfold State.enable
  dsimp only
  split
  · exact hon
  · exact (hon.newWindow a).congr rfl rfl rfl

theorem Ledger.command (e : Event) {fd : Option Nat} (h : s.Ledger (fd.toList ++ loc)) (a : Answers)
    (hfresh : ¬s.ReplyReplaces e fd.isSome a) : (s.command e fd a).Ledger loc := by
  unfold State.command
  split
  · exact h.close
  · rename_i hchannel
    split
    · exact Ledger.close (h.enable e a)
    · split
      · exact h.close
      · rename_i hlive
        rw [not_or] at hlive
        refine h.operate e.selected e a fun hop i size hi hfd hstat hsize => ?_
        by_contra hne
        exact hfresh ⟨by omega, hop, by simpa using hlive.1, hlive.2, hfd, ⟨size, hstat, hsize⟩, i, hi, hne⟩

theorem Ledger.lorieDataCommand (h : s.Ledger loc) (e : Event) (fd : Bool) (a : Answers)
    (hfresh : ¬s.ReplyReplaces e fd a) : (s.lorieDataCommand e fd a).Ledger loc := by
  unfold State.lorieDataCommand
  have hasked : (s.ask e).Ledger loc := h.congr rfl rfl rfl
  cases fd with
  | false =>
    have hnone : (s.ask e).Ledger ((none : Option Nat).toList ++ loc) := hasked
    exact hnone.command e a hfresh
  | true => exact hasked.newFd.command e a hfresh

theorem Ledger.releaseAll (h : s.Ledger loc) : s.releaseAll.Ledger loc := by
  unfold State.releaseAll
  dsimp only
  generalize hs : ({ s with enabled := false, clipboardActive := false, abandoned := _ } : State) = r
  have hr : r.Ledger loc := hs ▸ h.congr rfl rfl rfl
  generalize List.finRange maxPending = l
  clear hs
  induction l generalizing r with
  | nil => exact hr
  | cons i l ih => exact ih _ hr.release

theorem Ledger.lorieDataReset (h : s.Ledger loc) : s.lorieDataReset.Ledger loc := by
  have hfree := (h.endExport.releaseAll).frees (frees_freeBridge _)
  unfold State.lorieDataReset
  generalize (s.endExport freeResource).releaseAll.freeBridge = r at hfree ⊢
  exact hfree.congr rfl rfl rfl

/-! ## Whole runs -/

/-- The operations that give a transfer a second descriptor: a second announcement of an incremental transfer, and a
reply to a transfer that has a file. -/
def Replaces (s : State) : Action → Prop
  | .selectionNotify c requestor target property a =>
    s.enabled = true ∧ ∃ i, s.notified? c requestor target = some i ∧ property = (s.transfers i).property ∧
      s.Announces i a ∧ (s.transfers i).fd ≠ none
  | .dataCommand e fd a => s.ReplyReplaces e fd a
  | _ => False

theorem Ledger.step {a : Action} (h : s.Ledger []) (hok : ¬s.Replaces a) (hs : step s a = some t) : t.Ledger [] := by
  cases a with
  | createWindow c n =>
    simp only [DataExchange.step] at hs
    split at hs
    · cases hs
    · cases hs
      exact h.congr rfl rfl rfl
  | destroyWindow w =>
    simp only [DataExchange.step] at hs
    split at hs
    · cases hs
      exact h.frees (freeResource_frees s w)
    · cases hs
  | setSelectionOwner c window client time a =>
    simp only [DataExchange.step] at hs
    split at hs
    · cases hs
      refine Ledger.selectionChanged ?_ c .setOwner a
      exact h.congr rfl rfl rfl
    · cases hs
  | closeClient client =>
    simp only [DataExchange.step] at hs
    split at hs
    · cases hs
      exact h.frees (frees_closeClient client (guarded_all s) fun _ => .inl trivial)
    · cases hs
  | convert c requestor target property time a =>
    cases hs
    exact h.convert c requestor target property time a
  | selectionNotify c requestor target property a =>
    cases hs
    exact h.selectionNotify c requestor target property a hok
  | clientMessage window type first bit copy a =>
    cases hs
    exact h.clientMessage window type first bit copy a
  | propertyChanged i a =>
    cases hs
    unfold State.propertyChanged
    dsimp only
    split
    · have hset : (s.setTransfer i { s.transfers i with queued := true }).Ledger [] := h.setTransfer rfl rfl
      exact hset.congr rfl rfl rfl
    · exact h
  | propertyWork a =>
    simp only [DataExchange.step] at hs
    split at hs
    · cases hs
      refine Ledger.propertyWork ?_ _ a
      exact h.congr rfl rfl rfl
    · cases hs
  | expired i =>
    simp only [DataExchange.step] at hs
    split at hs
    · rename_i hi
      cases hs
      refine Ledger.fail (h.setTransfer rfl rfl) ?_
      rw [transfers_setTransfer_self]
      exact hi.1
    · cases hs
  | exportExpired =>
    simp only [DataExchange.step] at hs
    split at hs
    · cases hs
      exact (h.export ((ExportStep.refl s).withExport _)).endExport
    · cases hs
  | dataPointer output window button down =>
    simp only [DataExchange.step] at hs
    split at hs
    · cases hs
      unfold State.lorieDataPointer
      split
      · exact h
      · exact h.congr rfl rfl rfl
    · cases hs
  | dataCommand e fd a =>
    cases hs
    exact h.lorieDataCommand e fd a hok
  | dataReset =>
    cases hs
    exact h.lorieDataReset

instance (s : State) (i : Fin maxPending) (a : Answers) : Decidable (s.Announces i a) :=
  inferInstanceAs (Decidable (s.HasWindow (s.transfers i).requestor ∧
    (s.transfers i).generation = (s.offers (s.transfers i).channel).generation ∧ (s.transfers i).targets = false ∧
      ∃ p ∈ a.property, p.type = .incr ∧ p.format = 32 ∧ p.size = 1 ∧ p.value ≤ maxBytes))

instance (s : State) (e : Event) (fd : Bool) (a : Answers) : Decidable (s.ReplyReplaces e fd a) :=
  inferInstanceAs (Decidable (_ ∧ _))

instance (s : State) (a : Action) : Decidable (s.Replaces a) :=
  match a with
  | .selectionNotify .. => inferInstanceAs (Decidable (_ ∧ _))
  | .dataCommand .. => inferInstanceAs (Decidable (State.ReplyReplaces ..))
  | .createWindow .. | .destroyWindow .. | .setSelectionOwner .. | .closeClient .. | .convert .. | .clientMessage ..
  | .propertyChanged .. | .propertyWork .. | .expired .. | .exportExpired | .dataPointer .. | .dataReset =>
    isFalse id

end State

/-- **Descriptors have one owner**: in a run in which no transfer is given a second descriptor, every descriptor that was
made or came with a command is closed, or in one transfer that is in use, once; and a reset leaves no transfer in use. -/
theorem descriptors_closed_once {dragFirst : Bool} {s : State}
    (h : Reach step (fun s a => ¬s.Replaces a) (.init dragFirst) s) :
    (∀ d, s.closed.count d + s.held d = if d < s.created then 1 else 0) ∧
      ∀ t, step s .dataReset = some t → ∀ i, (t.transfers i).used = false := by
  have hinit : (State.init dragFirst).Ledger [] := by
    intro d
    have hheld : (State.init dragFirst).held d = 0 := tally_eq_zero fun i => rfl
    have hlt : ¬d < (State.init dragFirst).created := Nat.not_lt_zero d
    rw [hheld, if_neg hlt]
    rfl
  have hledger : s.Ledger [] := by
    refine h.invariant (I := fun s => State.Ledger s []) hinit ?_
    exact fun _ _ _ hi hok hs => hi.step hok hs
  refine ⟨fun d => ?_, ?_⟩
  · have hd := hledger d
    rw [List.count_nil, Nat.add_zero] at hd
    exact hd
  intro t hs i
  have ht : t = s.lorieDataReset := (Option.some.inj hs).symm
  rw [ht]
  exact used_lorieDataReset s i

/-- A client owns the clipboard; the host reads it, and the client announces an incremental transfer. -/
def announced : List Action :=
  [.createWindow 1 1, .dataCommand { operation := .enable, channel := 0 } false { newWindow := some 0 },
    .setSelectionOwner .clipboard (some (.client 1 1)) 1 0 {},
    .dataCommand { operation := .read, channel := 0, serial := 5, offer := 1, mime := some (.other 3) } false
      { newWindow := some 1 },
    .selectionNotify .clipboard (some (.server 1)) (.other 3) .data
      { property := some { type := .incr, format := 32, size := 1, value := 70000 } }]

theorem descriptors_closed_once_announced :
    ∃ s, Reach step Free (.init false) s ∧ s.created = 1 ∧
      (∀ d, s.closed.count d + s.held d = if d < s.created then 1 else 0) ∧
      ∀ t, step s .dataReset = some t → ∀ i, (t.transfers i).used = false := by
  have hrun : (exec (fun s a => if ¬s.Replaces a then step s a else none) (.init false) announced).map State.created =
    some 1 := by decide +kernel
  obtain ⟨s, hs, hcreated⟩ := Option.map_eq_some_iff.1 hrun
  have hreach := Reach.of_exec_guarded announced hs
  exact ⟨s, hreach.mono fun _ _ _ => trivial, hcreated, descriptors_closed_once hreach⟩

/-- The announcement is repeated. -/
def announcedTwice : List Action :=
  announced ++ [.selectionNotify .clipboard (some (.server 1)) (.other 3) .data
    { property := some { type := .incr, format := 32, size := 1, value := 70000 } }]

/-- The first descriptor is in no transfer, and it is not closed. -/
theorem descriptor_lost :
    ∃ s, Reach step Free (.init false) s ∧ ¬∀ d, s.closed.count d + s.held d = if d < s.created then 1 else 0 := by
  have hrun : (exec step (.init false) announcedTwice).map (fun s => (s.closed.count 0 + s.held 0, s.created)) =
    some (0, 2) := by decide +kernel
  obtain ⟨s, hs, hlost⟩ := Option.map_eq_some_iff.1 hrun
  refine ⟨s, .of_exec announcedTwice hs, fun h => ?_⟩
  obtain ⟨hnone, hcreated⟩ := Prod.mk.inj hlost
  have hzero := h 0
  rw [hnone, hcreated] at hzero
  exact absurd hzero (by decide)

end Lorie.DataExchange
