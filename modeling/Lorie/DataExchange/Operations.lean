import Lorie.DataExchange.Descriptors
import Lorie.DataExchange.Drop

/-!
# What operations are made of

Besides the drag's own functions, an operation writes transfers, allocates one, sends, frees windows, and tells the drag
that a transfer finished. `Acts n s t` says that `t` comes from `s` by such pieces, `n` of which tell the drag a success.
Facts about what all operations do to transfers, the queue of deferred work and the drag are inductions over `Acts`.

- `Acts`, with one lemma for each function;
- `acts_of_frees`: what `FreeResource` does is made of these pieces, and tells no success;
- `Acts.sendChunk`, `Acts.replyTo`: when a success is told, and how often;
- `happens_of_step`: every operation is made of these pieces, or is deferred work, a message of the target of a drag, or a
  command of the host.
-/

namespace Lorie.DataExchange

open Lorie.Lib State

/-- What a drag asks its target and how it ends: `XdndPosition`, `XdndDrop` and `LORIE_DATA_FINISH` -/
def Output.ofDrag : Output → Bool
  | .message _ _ (.position ..) | .message _ _ (.drop ..) | .emit .finish .. => true
  | _ => false

/-- A transfer stays as it is, as far as its deferred work goes. -/
def Transfer.Stays (t u : Transfer) : Prop := t.used = true ∧ u.ticket = t.ticket ∧ u.queued = t.queued

instance (s : State) (x : Transfer) : Decidable (s.Awaits x) := inferInstanceAs (Decidable (_ ∧ _ ∧ _))

/-- Whether a transfer that finished counts for the drag. -/
def State.counts (s : State) (x : Transfer) (success : Bool) : Nat := if success = true ∧ s.Awaits x then 1 else 0

/-- The piece that is sent ends its transfer well, and the transfer is one that the drag looks at. -/
def State.Tells (s : State) (i : Fin maxPending) (x : Transfer) (whole : Bool) (a : Answers) : Prop :=
  s.Current i ∧ s.pieceEnds x whole a = some true

/-- A client message on the source window from the target of the drag -/
def State.FromTarget (s : State) (window first : Option Window) : Prop :=
  s.enabled = true ∧ window = s.drag.source ∧ s.drag.target.isSome = true ∧ first = s.drag.target

/-- `propertyWork` for a transfer that it finds, behind the comparison of the tickets -/
def State.workOn (s : State) (i : Fin maxPending) (a : Answers) : State :=
  let r := s.setTransfer i { s.transfers i with queued := false }
  if (s.transfers i).incoming then r.receive i false a else (r.sendChunk i a).1

/-- `LORIE_DATA_REPLY` with a small file ends its transfer well, and the drag is told. -/
def State.ReplyTells (s : State) (i : Fin maxPending) (a : Answers) : Bool → Option Nat → Prop
  | true, some size => size ≤ chunkSize ∧ s.Tells i { s.transfers i with size := size } true a
  | _, _ => False

instance (s : State) (window first : Option Window) : Decidable (s.FromTarget window first) :=
  inferInstanceAs (Decidable (_ ∧ _))

instance (s : State) (i : Fin maxPending) : Decidable (s.Current i) := inferInstanceAs (Decidable (_ = _))

instance (s : State) (i : Fin maxPending) (x : Transfer) (whole : Bool) (a : Answers) : Decidable (s.Tells i x whole a) :=
  inferInstanceAs (Decidable (_ ∧ _))

instance (s : State) (i : Fin maxPending) (a : Answers) : (fd : Bool) → (size : Option Nat) →
    Decidable (s.ReplyTells i a fd size)
  | true, some _ => inferInstanceAs (Decidable (_ ∧ _))
  | true, none => inferInstanceAs (Decidable False)
  | false, _ => inferInstanceAs (Decidable False)

/-- The pieces of operations; the number says how many successes the drag is told. -/
inductive Acts : Nat → State → State → Prop
  | refl (s : State) : Acts 0 s s
  | trans {m n : Nat} {s t u : State} : Acts m s t → Acts n t u → Acts (m + n) s u
  /-- Variables change that belong neither to transfers nor to the drag. -/
  | frame {s t : State} : t.work = s.work → t.transferSequence = s.transferSequence → t.enabled = s.enabled →
    t.transfers = s.transfers → t.drag = s.drag → (∃ l, Avoids Output.ofDrag l ∧ t.log = s.log ++ l) → Acts 0 s t
  /-- A transfer is written: it ends, or keeps its ticket and its flag. -/
  | write {s : State} {i : Fin maxPending} {x : Transfer} : (x.used = true → (s.transfers i).Stays x) →
    Acts 0 s (s.setTransfer i x)
  | begins {s t : State} {i : Fin maxPending} {incoming : Bool} {c : Channel} {serial generation : Nat} {timer : Bool} :
    s.enabled = true → s.allocate incoming c serial generation timer = some (i, t) → Acts 0 s t
  | finished (s : State) (x : Transfer) (success : Bool) (a : Answers) :
    Acts (s.counts x success) s (s.selectionFinished x success a)

namespace Acts

variable {n : Nat} {s t u : State} {i : Fin maxPending}

/-! ## Pieces -/

/-- Pieces that tell no success follow. -/
theorem next (h : Acts n s t) (h' : Acts 0 t u) : Acts n s u := h.trans h'

/-- Nothing goes out. -/
theorem silent (h : Acts n s t) (hw : u.work = t.work) (hn : u.transferSequence = t.transferSequence)
    (he : u.enabled = t.enabled) (ht : u.transfers = t.transfers) (hd : u.drag = t.drag) (hl : u.log = t.log) :
    Acts n s u := h.next (.frame hw hn he ht hd ⟨[], .nil, by rw [List.append_nil, hl]⟩)

/-- Something goes out that is not of the drag. -/
theorem send (h : Acts n s t) {l : List Output} (hl : Avoids Output.ofDrag l) : Acts n s { t with log := t.log ++ l } :=
  h.next (.frame rfl rfl rfl rfl rfl ⟨l, hl, rfl⟩)

theorem emit (h : Acts n s t) (o : Operation) (ho : o ≠ .finish) (c : Channel) (k g : Nat) (m : Option Atom)
    (f : Option Nat) (w : Nat) (v : Option Window) (x : Bool) : Acts n s (t.emit o c k g m f w v x) := by
  refine h.send (.singleton ?_)
  cases o with
  | finish => exact absurd rfl ho
  | _ => rfl

theorem notify (h : Acts n s t) (x : Transfer) (success : Bool) : Acts n s (t.notify x success) := by
  refine h.send ?_
  unfold State.notified
  split
  · split
    · exact .singleton rfl
    · exact .nil
  · exact .nil

theorem close (h : Acts n s t) (fd : Option Nat) : Acts n s (t.close fd) := h.silent rfl rfl rfl rfl rfl rfl

/-- A transfer changes, but not its use, its ticket and its flag. -/
theorem setTransfer (h : Acts n s t) {x : Transfer} (hu : x.used = (t.transfers i).used)
    (hk : x.ticket = (t.transfers i).ticket) (hq : x.queued = (t.transfers i).queued) :
    Acts n s (t.setTransfer i x) := h.next (.write fun hx => ⟨hu ▸ hx, hk, hq⟩)

/-- A transfer that is no longer in use is written. -/
theorem setUnused (h : Acts n s t) {x : Transfer} (hu : x.used = false) : Acts n s (t.setTransfer i x) := by
  refine h.next (.write fun hx => ?_)
  rw [hu] at hx
  cases hx

theorem refuse (h : Acts n s t) (x : Transfer) : Acts n s (t.refuse x) := by
  unfold State.refuse
  split
  · split
    · exact h
    · exact h.emit .reply nofun _ _ _ _ _ _ _ _
  · split
    · exact h
    · exact h.notify x false

theorem releaseSlot (h : Acts n s t) : Acts n s (t.releaseSlot i) := (h.setUnused rfl).close _

theorem clearFd (h : Acts n s t) : Acts n s (t.clearFd i) := h.setTransfer rfl rfl rfl

/-- A failure is told, and counts for nothing. -/
theorem failed (h : Acts n s t) (x : Transfer) (a : Answers) : Acts n s (t.selectionFinished x false a) := by
  have hzero : t.counts x false = 0 := if_neg (fun hc => absurd hc.1 nofun)
  have hfin := Acts.finished t x false a
  rw [hzero] at hfin
  exact h.next hfin

theorem failOutgoing (h : Acts n s t) : Acts n s (t.failOutgoing i) := by
  unfold State.failOutgoing
  exact (h.refuse _).releaseSlot.clearFd.failed _ _

/-! ### The export -/

theorem record (h : Acts n s t) (f : Record → Record) : Acts n s (t.record f) := by
  unfold State.record
  split
  · exact h.silent rfl rfl rfl rfl rfl rfl
  · exact h

theorem withExport (h : Acts n s t) (f : Export → Export) : Acts n s (t.withExport f) :=
  h.silent rfl rfl rfl rfl rfl rfl

theorem pointer (h : Acts n s t) (p : Bool) : Acts n s { t with pointerDown := p } := h.silent rfl rfl rfl rfl rfl rfl

theorem releaseExportPointer (h : Acts n s t) : Acts n s t.releaseExportPointer := by
  unfold State.releaseExportPointer
  dsimp only
  split
  · exact h
  · have hsend : Acts n s { t with log := t.log ++ [Output.releaseButton t.exported.output t.exported.window] } :=
      h.send (.singleton rfl)
    exact ((hsend.record _).pointer _).withExport _

theorem finishExport (h : Acts n s t) : Acts n s t.finishExport := by
  unfold State.finishExport
  dsimp only
  split
  · exact ((h.send (avoids_delivered t _ _ fun _ => rfl)).record _).withExport _
  · exact h.withExport _

theorem leaveExport (h : Acts n s t) : Acts n s t.leaveExport := (h.withExport _).releaseExportPointer

/-! ### What `FreeResource` does -/

end Acts

/-- What `FreeResource` does tells the drag no success. -/
theorem acts_of_frees {R : Rights} {s t : State} (h : Frees R s t) : Acts 0 s t := by
  induction h with
  | refl s => exact .refl s
  | trans _ _ ih ih' => exact ih.next ih'
  | erase s _ => exact (Acts.refl s).silent rfl rfl rfl rfl rfl rfl
  | @lose s c _ => exact (Acts.refl s).silent rfl rfl rfl rfl rfl rfl
  | @incoming s i _ _ => exact ((Acts.refl s).refuse _).releaseSlot
  | @clearFd s i _ => exact (Acts.refl s).clearFd
  | @outgoing s i _ _ _ => exact (Acts.refl s).failOutgoing
  | @renew s c _ => exact (Acts.refl s).silent rfl rfl rfl rfl rfl rfl
  | cancel s => exact (Acts.refl s).emit .cancel nofun _ _ _ _ _ _ _ _
  | @endExport s t _ _ ih => exact ((Acts.refl s).finishExport.next ih).leaveExport

namespace Acts

variable {n : Nat} {s t u : State} {i : Fin maxPending}

theorem frees {R : Rights} (h : Acts n s t) (hstep : Frees R t u) : Acts n s u := h.next (acts_of_frees hstep)

/-! ## Functions -/

theorem fail (h : Acts n s t) (hu : (t.transfers i).used = true) : Acts n s (t.fail freeResource i) :=
  h.frees (fail_frees hu)

theorem release (h : Acts n s t) : Acts n s (t.release freeResource i) := by
  cases hu : (t.transfers i).used with
  | false =>
    rw [release_unused _ hu]
    exact h
  | true =>
    -- the slot is released, and its window freed
    rw [release_eq _ hu]
    have hfree : Frees .all (t.releaseSlot i) ((t.releaseSlot i).freeRequestor freeResource (t.transfers i)) :=
      frees_freeRequestor freeing_freeResource (guarded_all _) fun _ _ _ => trivial
    exact (h.releaseSlot.frees hfree).clearFd

theorem endExport (h : Acts n s t) : Acts n s (t.endExport freeResource) := by
  unfold State.endExport
  dsimp only
  split
  · exact (h.finishExport.frees (freeResource_frees _ _)).leaveExport
  · exact h.finishExport.leaveExport

theorem bytesFile (h : Acts n s t) (size : Nat) (file : NewFile) : Acts n s (t.bytesFile size file).2 := by
  cases file with
  | created => exact h.silent rfl rfl rfl rfl rfl rfl
  | failed => exact h
  | unwritten =>
    unfold State.bytesFile
    dsimp only
    split
    · exact h.silent rfl rfl rfl rfl rfl rfl
    · exact h.silent rfl rfl rfl rfl rfl rfl

theorem publishTargets (h : Acts n s t) (c : Channel) (file : NewFile) : Acts n s (t.publishTargets c file) := by
  unfold State.publishTargets
  dsimp only
  exact ((h.bytesFile _ file).emit .offer nofun _ _ _ _ _ _ _ _).close _

theorem newWindow (h : Acts n s t) (a : Answers) : Acts n s (t.newWindow a).2 := by
  unfold State.newWindow
  split
  · split
    · exact h
    · exact h.silent rfl rfl rfl rfl rfl rfl
  · exact h

/-- A transfer begins, with the next ticket. -/
theorem allocate (h : Acts n s t) (hon : t.enabled = true) {incoming : Bool} {c : Channel} {serial generation : Nat}
    {timer : Bool} (ha : t.allocate incoming c serial generation timer = some (i, u)) :
    Acts n s u ∧ (u.transfers i).used = true := by
  refine ⟨h.next (.begins hon ha), ?_⟩
  rw [transfers_allocate ha]

theorem request (h : Acts n s t) (hon : t.enabled = true) (c : Channel) (serial generation : Nat) (target : Atom)
    (list : Bool) (a : Answers) : Acts n s (t.request freeResource c serial generation target list a) := by
  have hrefused : Acts n s (if list then t else t.emit .reply c serial generation (some target) none 0 none false) := by
    split
    · exact h
    · exact h.emit .reply nofun _ _ _ _ _ _ _ _
  have hcases := request_cases t c serial generation target list a
  generalize t.request freeResource c serial generation target list a = r at hcases ⊢
  cases hcases with
  | refused => exact hrefused
  | @asked i v x w halloc hnew =>
    obtain ⟨hr, hu⟩ := h.allocate hon halloc
    have hset : Acts n s (v.setTransfer i { v.transfers i with target := target, targets := list, property := .data }) :=
      hr.setTransfer rfl rfl rfl
    have hself := transfers_setTransfer_self v i { v.transfers i with target := target, targets := list, property := .data }
    generalize v.setTransfer i { v.transfers i with target := target, targets := list, property := .data } = y at *
    have hwin := hset.newWindow a
    have hframe := (newWindow_frame y a).1
    rw [hnew] at hwin hframe
    cases w with
    | none =>
      refine hwin.fail ?_
      rw [hframe, hself]
      exact hu
    | some w => exact hwin.setTransfer rfl rfl rfl

theorem selectionChanged (h : Acts n s t) (c : Channel) (kind : Kind) (a : Answers) :
    Acts n s (t.selectionChanged freeResource c kind a) := by
  rcases selectionChanged_cases freeing_freeResource kind a (guarded_all t) (c := c) fun _ _ => .inl trivial with
    heq | hfrees | ⟨-, hon, -, hforget, heq⟩
  · rw [heq]
    exact h
  · exact h.frees hfrees
  · rw [heq]
    have henabled : (t.forgetOwner freeResource c).fixed.enabled = t.fixed.enabled := by rw [hforget.fixed]
    exact (h.frees hforget).request (henabled.trans hon) _ _ _ _ _ a

theorem own (h : Acts n s t) (c : Channel) (a : Answers) : Acts n s (t.own c a) := by
  unfold State.own
  split
  · refine Acts.selectionChanged ?_ c .setOwner a
    exact h.silent rfl rfl rfl rfl rfl rfl
  · exact h

/-- Opening a file for a piece -/
theorem opens (h : Acts n s t) {file : NewFile} {fd : Option Nat} {r : State} (ho : Opens t i file fd r) :
    Acts n s (r.setTransfer i { t.transfers i with fd := fd }) := by
  have hsame : Acts n s r := by
    cases ho with
    | kept => exact h
    | opened _ hfile =>
      have hfd := h.bytesFile 0 file
      rwa [hfile] at hfd
  refine hsame.setTransfer ?_ ?_ ?_ <;> rw [ho.transfers]

theorem piece (h : Acts n s t) {file : NewFile} {fd : Option Nat} {r : State} (ho : Opens t i file fd r) (k : Nat) :
    Acts n s ((r.setTransfer i { t.transfers i with fd := fd }).setTransfer i
      { t.transfers i with fd := fd, size := (t.transfers i).size + k }) := by
  refine (h.opens ho).setTransfer ?_ ?_ ?_ <;> rw [transfers_setTransfer_self]

theorem receive (h : Acts n s t) (hu : (t.transfers i).used = true) (initial : Bool) (a : Answers) :
    Acts n s (t.receive i initial a) := by
  have hreceives := receive_cases t i initial a
  generalize t.receive i initial a = u at hreceives ⊢
  cases hreceives with
  | fails => exact h.fail hu
  | @announced fd r _ _ _ _ _ hfile =>
    have hsame := h.bytesFile 0 a.file
    have htr := transfers_bytesFile t 0 a.file
    rw [hfile] at hsame htr
    cases fd with
    | none =>
      refine Acts.fail (hsame.setTransfer ?_ ?_ ?_) ?_
      iterate 3 rw [htr]
      rw [transfers_setTransfer_self]
      exact hu
    | some d => refine hsame.setTransfer ?_ ?_ ?_ <;> rw [htr]
  | targets _ htargets =>
    refine Acts.release (Acts.publishTargets ?_ _ _)
    exact h.silent rfl rfl rfl rfl rfl rfl
  | lost ho =>
    refine (h.opens ho).fail ?_
    rw [transfers_setTransfer_self]
    exact hu
  | last k ho hlist => exact Acts.release ((h.piece ho k).emit .reply nofun _ _ _ _ _ _ _ _)
  | more k ho => exact h.piece ho k

theorem advance (h : Acts n s t) : Acts n s (t.advance i) := h.setTransfer rfl rfl rfl

theorem serve (h : Acts n s t) (hu : (t.transfers i).used = true) (a : Answers) : Acts n s (t.serve i a) := by
  unfold State.serve
  dsimp only
  split
  · exact h.fail hu
  · split
    · exact (h.notify _ _).release
    · split
      · exact h.emit .request nofun _ _ _ _ _ _ _ _
      · exact h.fail hu

theorem convert (h : Acts n s t) (c : Channel) (requestor : Option Window) (target : Atom) (property : Option Atom)
    (time : Nat) (a : Answers) : Acts n s (t.convert c requestor target property time a) := by
  unfold State.convert
  split
  · exact h
  · rename_i hlive
    rw [not_or] at hlive
    have hon : t.enabled = true := by simpa using hlive.1
    have hr : Acts n s { t with
        requests := t.requests ++ [Request.conversion requestor c target time]
        requestSequence := t.requestSequence + 1 } := h.silent rfl rfl rfl rfl rfl rfl
    unfold State.outgoingTransfer
    split
    · exact hr.notify _ _
    · rename_i i v halloc
      obtain ⟨hv, hu⟩ := hr.allocate hon halloc
      refine Acts.serve ?_ ?_ a
      · exact hv.setTransfer rfl rfl rfl
      · rw [transfers_setTransfer_self]
        exact hu

theorem selectionNotify (h : Acts n s t) (c : Channel) (requestor : Option Window) (target property : Atom)
    (a : Answers) : Acts n s (t.selectionNotify c requestor target property a) := by
  unfold State.selectionNotify
  split
  · exact h
  · split
    · rename_i i hi
      split
      · exact h.receive (used_notified hi) true a
      · exact h.fail (used_notified hi)
    · exact h

theorem exportDrop (h : Acts n s t) : Acts n s t.exportDrop := by
  have hdrop := (h.withExport fun x => { x with dropped := true }).record fun r => { r with dropped := true }
  unfold State.exportDrop
  dsimp only
  split
  · exact hdrop.endExport
  · exact hdrop

theorem startIncremental (h : Acts n s t) (a : Answers) : Acts n s (t.startIncremental i a) := by
  have hset : Acts n s (t.setTransfer i { t.transfers i with incremental := true }) := h.setTransfer rfl rfl rfl
  unfold State.startIncremental
  dsimp only
  split
  · exact hset.notify _ _
  · exact (hset.notify _ _).release

theorem beginExport (h : Acts n s t) (a : Answers) : Acts n s (t.beginExport a) := by
  have hwin := h.newWindow a
  unfold State.beginExport
  dsimp only
  split
  · split
    · exact h
    · split
      · rename_i heq
        rw [heq] at hwin
        exact hwin.silent rfl rfl rfl rfl rfl rfl
      · rename_i heq
        rw [heq] at hwin
        exact hwin.silent rfl rfl rfl rfl rfl rfl
  · exact h

theorem takeOffer (h : Acts n s t) (c : Channel) (e : Event) (fd : Option Nat) (a : Answers) :
    Acts n s (t.takeOffer c e fd a) := by
  unfold State.takeOffer
  split
  · refine Acts.own ?_ c a
    exact h.silent rfl rfl rfl rfl rfl rfl
  · exact h

theorem read (h : Acts n s t) (hon : t.enabled = true) (c : Channel) (e : Event) (a : Answers) : Acts n s (t.read c e a) := by
  unfold State.read
  split
  · exact h.request hon _ _ _ _ _ a
  · exact h

/-! ## Transfers to clients -/

/-- A piece ends its transfer well, and the drag is told. -/
theorem sendChunk (h : Acts n s t) (hu : (t.transfers i).used = true) (hin : (t.transfers i).incoming = false)
    (a : Answers) : Acts (n + if t.Tells i (t.transfers i) false a then 1 else 0) s (t.sendChunk i a).1 := by
  have hno : ∀ o : Option Bool, t.pieceEnds (t.transfers i) false a = o → o ≠ some true →
      ¬t.Tells i (t.transfers i) false a := fun o ho hne hc => hne (ho.symm.trans hc.2)
  by_cases hbad : ¬t.HasWindow (t.transfers i).requestor ∨ (chunk (t.transfers i) ≠ 0 ∧ a.pread = false)
  · -- the piece fails
    have hends : t.pieceEnds (t.transfers i) false a = some false := if_pos hbad
    rw [if_neg (hno _ hends fun heq => by cases heq), State.sendChunk]
    split
    · exact h.release.failed _ a
    · rw [if_pos (hbad.resolve_left ‹_›)]
      exact h.fail hu
  · rw [State.sendChunk]
    rw [if_neg fun hwin => hbad (.inl hwin), if_neg fun hread => hbad (.inr hread)]
    by_cases hlast : (t.transfers i).incremental = true ∧ (a.change = false ∨ chunk (t.transfers i) = 0)
    · have hends : t.pieceEnds (t.transfers i) false a = some a.change := (if_neg hbad).trans (if_pos (.inr hlast))
      have hended : Ended i t ((t.advance i).release freeResource i) := by
        refine (touches_advance t i).release ?_
        rw [State.advance, transfers_setTransfer_self]
        exact hin
      have hcounts : ((t.advance i).release freeResource i).counts (t.transfers i) a.change =
          if t.Tells i (t.transfers i) false a then 1 else 0 := by
        refine if_congr ?_ rfl rfl
        rw [hended.awaits, State.Tells, hends, current_iff, Option.some.injEq]
        exact ⟨fun hc => ⟨⟨hu, hc.2⟩, hc.1⟩, fun hc => ⟨hc.2, hc.1.2⟩⟩
      rw [← hcounts, if_pos hlast]
      exact h.advance.release.trans (.finished _ _ _ a)
    · have hends : t.pieceEnds (t.transfers i) false a = none := (if_neg hbad).trans (if_neg fun hc =>
        hlast (hc.resolve_left fun heq => by cases heq))
      rw [if_neg (hno _ hends fun heq => by cases heq), if_neg hlast]
      exact h.advance

/-- A piece leaves the offers alone. -/
theorem offers_sendChunk (hin : (t.transfers i).incoming = false) (a : Answers) :
    (t.sendChunk i a).1.offers = t.offers := by
  rcases sendChunk_cases hin a with ⟨-, heq⟩ | ⟨success, u, b, -, hu, -, heq⟩
  · rw [heq]
    rfl
  · rw [heq]
    obtain ⟨d, l, -, -, hd⟩ := (DragStep.refl u).selectionFinished (t.transfers i) success b
    dsimp only
    rw [hd]
    exact hu.offers

/-- What goes well as a piece, goes well as the whole. -/
theorem pieceEnds_whole {x : Transfer} {a : Answers} (h : t.pieceEnds x false a = some true) :
    t.pieceEnds x true a = some true ∧ x.incremental = true := by
  unfold State.pieceEnds at h ⊢
  split at h
  · cases h
  · split at h
    · rename_i hbad hlast
      rw [if_neg hbad, if_pos (.inl rfl)]
      exact ⟨h, (hlast.resolve_left nofun).1⟩
    · cases h

theorem pieceEnds_sendChunk {a : Answers} (h : (t.sendChunk i a).2 = true) :
    t.pieceEnds (t.transfers i) true a = some true := by
  unfold State.sendChunk at h
  dsimp only at h
  split at h
  · cases h
  · rename_i hwin
    split at h
    · cases h
    · rename_i hread
      have hchange : a.change = true := by
        split at h
        · exact h
        · exact h
      unfold State.pieceEnds
      rw [if_neg (not_or.2 ⟨hwin, hread⟩), if_pos (.inl rfl), hchange]

/-- A file goes as a whole: the drag is told once, but for a transfer that was incremental already. -/
theorem sendWhole (h : Acts n s t) (hu : (t.transfers i).used = true) (hin : (t.transfers i).incoming = false)
    (a : Answers) : ∃ m, Acts (n + m) s (t.sendWhole i a) ∧ (¬t.Tells i (t.transfers i) true a → m = 0) ∧
      ((t.transfers i).incremental = false → m ≤ 1) := by
  have hchunk := h.sendChunk hu hin a
  obtain ⟨hin', hc, hg⟩ := Serves.transfers_sendChunk hu hin a
  have hoffers := offers_sendChunk hin a
  have hwell : (t.sendChunk i a).2 = true → t.pieceEnds (t.transfers i) true a = some true := pieceEnds_sendChunk
  have hsent : ∃ r, Acts (n + if t.Tells i (t.transfers i) false a then 1 else 0) s r ∧ r.offers = t.offers ∧
      t.sendWhole i a = r.selectionFinished ((t.sendChunk i a).1.transfers i) (t.sendChunk i a).2 a := by
    unfold State.sendWhole
    dsimp only
    generalize t.sendChunk i a = r at hchunk hin' hoffers
    generalize (n + if t.Tells i (t.transfers i) false a then 1 else 0) = k at hchunk ⊢
    refine ⟨_, ?_, ?_, rfl⟩
    · split
      · exact (hchunk.notify _ _).release
      · exact hchunk.release
    · split
      · exact ((Touches.refl i (r.1.notify (r.1.transfers i) r.2)).release hin').offers.trans hoffers
      · exact ((Touches.refl i r.1).release hin').offers.trans hoffers
  obtain ⟨r, hr, hroffers, heq⟩ := hsent
  rw [heq]
  have hend := hr.trans (.finished r ((t.sendChunk i a).1.transfers i) (t.sendChunk i a).2 a)
  rw [Nat.add_assoc] at hend
  refine ⟨_, hend, fun hno => ?_, fun hinc => ?_⟩
  · -- neither the piece nor its end tells anything
    have hpiece : ¬t.Tells i (t.transfers i) false a := fun hc => hno ⟨hc.1, (pieceEnds_whole hc.2).1⟩
    have hlast : ¬((t.sendChunk i a).2 = true ∧ r.Awaits ((t.sendChunk i a).1.transfers i)) := by
      rintro ⟨hsuccess, -, hchannel, hgeneration⟩
      refine hno ⟨current_iff.2 ⟨hu, hin, hc ▸ hchannel, ?_⟩, hwell hsuccess⟩
      rw [← hg, hgeneration, hroffers]
    rw [if_neg hpiece, State.counts, if_neg hlast]
  · have hpiece : ¬t.Tells i (t.transfers i) false a := by
      intro hc
      rw [(pieceEnds_whole hc.2).2] at hinc
      cases hinc
    rw [if_neg hpiece, State.counts]
    split <;> omega

theorem replyTo (h : Acts n s t) (hu : (t.transfers i).used = true) (hin : (t.transfers i).incoming = false)
    (fd : Option Nat) (a : Answers) : ∃ m, Acts (n + m) s (t.replyTo i fd a) ∧
      (¬t.ReplyTells i a fd.isSome a.stat → m = 0) ∧ ((t.transfers i).incremental = false → m ≤ 1) := by
  have hnone : ∀ r, Acts n s r → ∃ m, Acts (n + m) s r ∧ (¬t.ReplyTells i a fd.isSome a.stat → m = 0) ∧
      ((t.transfers i).incremental = false → m ≤ 1) :=
    fun r hr => ⟨0, hr, fun _ => rfl, fun _ => Nat.zero_le 1⟩
  unfold State.replyTo
  split
  · rename_i fd size hstat
    split
    · exact hnone _ ((h.fail hu).close _)
    · obtain ⟨x, hx⟩ : ∃ x, x = { t.transfers i with fd := some fd, size := size } := ⟨_, rfl⟩
      rw [← hx]
      have hset : Acts n s (t.setTransfer i x) := h.setTransfer (by rw [hx]) (by rw [hx]) (by rw [hx])
      have hself := transfers_setTransfer_self t i x
      unfold State.deliver
      rw [hself]
      split
      · exact hnone _ hset.release
      · split
        · exact hnone _ (hset.startIncremental a)
        · rename_i hsmall
          have hu' : ((t.setTransfer i x).transfers i).used = true := by rw [hself, hx]; exact hu
          have hin' : ((t.setTransfer i x).transfers i).incoming = false := by rw [hself, hx]; exact hin
          obtain ⟨m, hm, hzero, hone⟩ := hset.sendWhole hu' hin' a
          refine ⟨m, hm, fun hno => hzero fun hc => hno ?_, fun hinc => hone ?_⟩
          · have hsize : x.size = size := by rw [hx]
            have hcurrent : (t.setTransfer i x).Current i ↔ t.Current i := by
              unfold State.Current
              rw [hself, hx]
              exact Iff.rfl
            rw [hself] at hc
            rw [hstat]
            refine ⟨by omega, hcurrent.1 hc.1, ?_⟩
            have hends := hc.2
            rw [hx] at hends
            exact hends
          · rw [hself, hx]
            exact hinc
  · exact hnone _ ((h.fail hu).close _)

theorem reply (h : Acts n s t) (c : Channel) (e : Event) (fd : Option Nat) (a : Answers) :
    ∃ m, Acts (n + m) s (t.reply c e fd a) ∧
      ((∀ i, t.replied? c e.serial e.offer = some i → ¬t.ReplyTells i a fd.isSome a.stat) → m = 0) ∧
      ((∀ i, t.replied? c e.serial e.offer = some i → (t.transfers i).incremental = false) → m ≤ 1) := by
  have hr : Acts n s { t with answered := t.answered ++ [e.serial] } := h.silent rfl rfl rfl rfl rfl rfl
  unfold State.reply
  dsimp only
  split
  · exact ⟨0, hr.close fd, fun _ => rfl, fun _ => Nat.zero_le 1⟩
  · rename_i i hi
    obtain ⟨hu, hin, -, -⟩ := Serves.replied_some hi
    obtain ⟨m, hm, hzero, hone⟩ := hr.replyTo hu hin fd a
    exact ⟨m, hm, fun hno => hzero (hno i hi), fun hinc => hone (hinc i hi)⟩

/-! ## Messages and deferred work -/

theorem report (h : Acts n s t) (success : Bool) : Acts n s (t.report success) := by
  have hpointer := ((h.withExport fun x => { x with completed := true, success := success }).record fun r =>
    { r with reports := r.reports ++ [success] }).releaseExportPointer
  unfold State.report
  dsimp only
  split
  · exact hpointer.endExport
  · exact hpointer

/-- A message that is not the target's answer -/
theorem clientMessage (h : Acts n s t) (window : Option Window) (type : MessageType) (first : Option Window)
    (bit copy : Bool) (a : Answers)
    (ho : ¬(t.FromTarget window first ∧ (type = .status ∨ type = .finished))) :
    Acts n s (t.clientMessage window type first bit copy a) := by
  unfold State.clientMessage
  dsimp only
  split
  · exact h
  · rename_i hon
    have hon : t.enabled = true := by simpa using hon
    split
    · exact h.send (avoids_delivered t _ _ fun _ => rfl)
    · split
      · exact h
      · split
        · exact h.exportDrop
        · split
          · rename_i hm
            exact absurd ⟨⟨hon, hm.1, hm.2.1, hm.2.2.1⟩, .inl hm.2.2.2⟩ ho
          · split
            · rename_i hm
              exact absurd ⟨⟨hon, hm.1, hm.2.1, hm.2.2.1⟩, .inr hm.2.2.2⟩ ho
            · exact h

/-- Deferred work: the drag is told when a piece of a transfer to a client was the last one. -/
theorem workOn (hu : (s.transfers i).used = true) (a : Answers) :
    Acts (if s.Tells i (s.transfers i) false a then 1 else 0)
      (s.setTransfer i { s.transfers i with queued := false }) (s.workOn i a) := by
  obtain ⟨x, hx⟩ : ∃ x, x = { s.transfers i with queued := false } := ⟨_, rfl⟩
  have hself := transfers_setTransfer_self s i x
  have hused : ((s.setTransfer i x).transfers i).used = true := by rw [hself, hx]; exact hu
  have hcurrent : (s.setTransfer i x).Current i ↔ s.Current i := by
    unfold State.Current
    rw [hself, hx]
    exact Iff.rfl
  have htells : (s.setTransfer i x).Tells i ((s.setTransfer i x).transfers i) false a ↔
      s.Tells i (s.transfers i) false a := by
    unfold State.Tells
    rw [hcurrent, hself, hx]
    exact Iff.rfl
  unfold State.workOn
  dsimp only
  rw [← hx]
  cases hin : (s.transfers i).incoming with
  | true =>
    have hno : ¬s.Tells i (s.transfers i) false a := by
      intro hc
      have := (current_iff.1 hc.1).2.1
      rw [hin] at this
      cases this
    rw [if_neg hno, if_pos rfl]
    exact (Acts.refl _).receive hused false a
  | false =>
    rw [if_neg Bool.false_ne_true]
    have hsend := (Acts.refl (s.setTransfer i x)).sendChunk (i := i) hused (by rw [hself, hx]; exact hin) a
    rw [Nat.zero_add, if_congr htells rfl rfl] at hsend
    exact hsend

end Acts

/-- `lorieDataReset` releases all transfers. -/
theorem acts_releases (l : List (Fin maxPending)) (s : State) :
    Acts 0 s (l.foldl (fun s i => s.release freeResource i) s) := by
  induction l generalizing s with
  | nil => exact .refl s
  | cons i l ih => exact (Acts.refl s).release.next (ih _)

/-- The answers of the target -/
theorem clientMessage_status {s : State} {window first : Option Window} (h : s.FromTarget window first) (bit copy : Bool)
    (a : Answers) : s.clientMessage window .status first bit copy a = s.dragStatus (bit && copy) a := by
  unfold State.clientMessage
  dsimp only
  rw [if_neg (by rw [h.1]; nofun), if_neg (fun hc => nomatch hc.2.2.2), if_neg (fun hc => by simp at hc),
    if_neg (fun hc => nomatch hc.2.2.2), if_pos ⟨h.2.1, h.2.2.1, h.2.2.2, rfl⟩]

theorem clientMessage_finished {s : State} {window first : Option Window} (h : s.FromTarget window first) (bit copy : Bool)
    (a : Answers) : s.clientMessage window .finished first bit copy a = s.dragFinished bit := by
  unfold State.clientMessage
  dsimp only
  rw [if_neg (by rw [h.1]; nofun), if_neg (fun hc => nomatch hc.2.2.2), if_neg (fun hc => by simp at hc),
    if_neg (fun hc => nomatch hc.2.2.2), if_neg (fun hc => nomatch hc.2.2.2), if_pos ⟨h.2.1, h.2.2.1, h.2.2.2, rfl⟩]

/-! ## One operation -/

/-- What an operation does: pieces that tell the drag no success, deferred work, or a function of the drag. -/
inductive Happens (s : State) : Action → State → Prop
  | acts {b : Action} {t : State} : Acts 0 s t → Happens s b t
  /-- Work is queued for a transfer that has none. -/
  | queue {i : Fin maxPending} {a : Answers} : (s.transfers i).used = true → (s.transfers i).queued = false →
    Happens s (.propertyChanged i a)
      { s.setTransfer i { s.transfers i with queued := true } with work := s.work ++ [(i, (s.transfers i).ticket)] }
  /-- Work is done for its transfer. -/
  | work {i : Fin maxPending} {k : Nat} {rest : List (Fin maxPending × Nat)} {a : Answers} :
    s.work = (i, k) :: rest → s.enabled = true → (s.transfers i).used = true → (s.transfers i).ticket = k →
    Happens s (.propertyWork a) ({ s with work := rest }.workOn i a)
  /-- Work whose transfer has ended is dropped. -/
  | drop {i : Fin maxPending} {k : Nat} {rest : List (Fin maxPending × Nat)} {a : Answers} :
    s.work = (i, k) :: rest → ¬(s.enabled = true ∧ (s.transfers i).used = true ∧ (s.transfers i).ticket = k) →
    Happens s (.propertyWork a) { s with work := rest }
  | status {window first : Option Window} {bit copy : Bool} {a : Answers} : s.FromTarget window first →
    Happens s (.clientMessage window .status first bit copy a) (s.dragStatus (bit && copy) a)
  | finished {window first : Option Window} {bit copy : Bool} {a : Answers} : s.FromTarget window first →
    Happens s (.clientMessage window .finished first bit copy a) (s.dragFinished bit)
  | command (e : Event) (fd : Bool) (a : Answers) : Happens s (.dataCommand e fd a) (s.lorieDataCommand e fd a)
  | reset : Happens s .dataReset s.lorieDataReset

/-- Deferred work is done for a transfer with the ticket, or dropped. -/
theorem propertyWork_eq (s : State) (i : Fin maxPending) (k : Nat) (a : Answers) :
    s.propertyWork i k a =
      if s.enabled = true ∧ (s.transfers i).used = true ∧ (s.transfers i).ticket = k then s.workOn i a else s := rfl

theorem happens_of_step {s t : State} {b : Action} (hs : step s b = some t) : Happens s b t := by
  have hrefl := Acts.refl s
  cases b with
  | createWindow c n =>
    simp only [step] at hs
    split at hs
    · cases hs
    · cases hs
      exact .acts (hrefl.silent rfl rfl rfl rfl rfl rfl)
  | destroyWindow w =>
    simp only [step] at hs
    split at hs
    · cases hs
      exact .acts (acts_of_frees (freeResource_frees s w))
    · cases hs
  | setSelectionOwner c window client time a =>
    simp only [step] at hs
    split at hs
    · cases hs
      have hset : Acts 0 s (s.setSelection c ⟨window, window.map fun _ => client, time⟩) :=
        hrefl.silent rfl rfl rfl rfl rfl rfl
      exact .acts (hset.selectionChanged c .setOwner a)
    · cases hs
  | closeClient client =>
    simp only [step] at hs
    split at hs
    · cases hs
      have hfrees := frees_closeClient client (guarded_all s) fun _ => .inl trivial
      exact .acts (acts_of_frees hfrees)
    · cases hs
  | convert c requestor target property time a =>
    cases hs
    exact .acts (hrefl.convert c requestor target property time a)
  | selectionNotify c requestor target property a =>
    cases hs
    exact .acts (hrefl.selectionNotify c requestor target property a)
  | clientMessage window type first bit copy a =>
    cases hs
    by_cases ho : s.FromTarget window first ∧ (type = .status ∨ type = .finished)
    · obtain ⟨hfrom, rfl | rfl⟩ := ho
      · rw [clientMessage_status hfrom]
        exact .status hfrom
      · rw [clientMessage_finished hfrom]
        exact .finished hfrom
    · exact .acts (hrefl.clientMessage window type first bit copy a ho)
  | propertyChanged i a =>
    cases hs
    unfold State.propertyChanged
    dsimp only
    split
    · rename_i h
      exact .queue h.2.1 h.2.2.2.1
    · exact .acts hrefl
  | propertyWork a =>
    simp only [step] at hs
    split at hs
    · rename_i i k rest hwork
      cases hs
      rw [propertyWork_eq]
      split
      · rename_i h
        exact .work hwork h.1 h.2.1 h.2.2
      · rename_i h
        exact .drop hwork h
    · cases hs
  | expired i =>
    simp only [step] at hs
    split at hs
    · rename_i h
      cases hs
      have hset : Acts 0 s (s.setTransfer i { s.transfers i with timer := false }) := hrefl.setTransfer rfl rfl rfl
      refine .acts (hset.fail ?_)
      rw [transfers_setTransfer_self]
      exact h.1
    · cases hs
  | exportExpired =>
    simp only [step] at hs
    split at hs
    · cases hs
      exact .acts (hrefl.withExport _).endExport
    · cases hs
  | dataPointer output window button down =>
    simp only [step] at hs
    split at hs
    · cases hs
      unfold State.lorieDataPointer
      split
      · exact .acts hrefl
      · exact .acts (hrefl.silent rfl rfl rfl rfl rfl rfl)
    · cases hs
  | dataCommand e fd a =>
    cases hs
    exact .command e fd a
  | dataReset =>
    cases hs
    exact .reset

end Lorie.DataExchange
