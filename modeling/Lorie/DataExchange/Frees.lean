import Lorie.DataExchange.Model

/-!
# What `FreeResource` may do

A window that is freed may own a selection, and the callback of the selection fails transfers, ends an export and frees
more windows. `Frees R s t` says that `t` comes from `s` by the pieces of these functions between which nothing is freed;
the nested calls of an export's end stand in its constructor. What every piece does is said here once, and facts about
all of them are inductions over `Frees`.

`R` bounds what the pieces may touch: the windows that go, and the transfers of a drag. A state is `Guarded` when the
nested calls stay within these bounds.

- `free_frees`: `FreeResource` is such a sequence; so are `fail`, `release` behind a refusal, `endExport` and the
  callbacks of lost selections;
- `Frees.shrinks`: transfers only end.
-/

namespace Lorie.DataExchange

open State

/-- The end of a transfer to a client that fails. -/
def State.failOutgoing (s : State) (i : Fin maxPending) : State :=
  let t := s.transfers i
  (((s.refuse t).releaseSlot i).clearFd i).selectionFinished t false {}

/-- `emit` of `LORIE_DATA_CANCEL` in `selectionChanged` -/
def State.emitCancel (s : State) : State :=
  s.emit .cancel .drag 0 (s.offers .drag).generation none none s.pointerOutput s.pointerWindow false

/-- What an operation may touch. -/
structure Rights where
  /-- The windows that may be freed. -/
  erase : Window → Prop
  /-- The drag may change, and the transfers to its targets may end. -/
  drag : Prop
  /-- `XdndSelection` may change hands. -/
  owner : Prop
  /-- The export may go on. -/
  exports : Prop

/-- Everything may be touched. -/
def Rights.all : Rights := ⟨fun _ => True, True, True, True⟩

/-- What an operation frees by itself may be freed. -/
structure Guarded (R : Rights) (s : State) : Prop where
  fresh : ∀ v, v ∉ s.windows → R.erase v
  requestor : ∀ i v, (s.transfers i).used = true → (s.transfers i).incoming = true →
    (s.transfers i).requestor = some v → R.erase v
  catcher : ∀ v, s.exported.catcher = some v → R.erase v
  drag : R.drag ∨ ∀ i, (s.transfers i).used = true → (s.transfers i).incoming = false →
    (s.transfers i).channel = .drag →
      (s.selections .drag).window = s.bridge ∨ ((s.selections .drag).window = none ∧ (s.selections .drag).client = none)

theorem guarded_all (s : State) : Guarded .all s :=
  ⟨fun _ _ => trivial, fun _ _ _ _ _ => trivial, fun _ _ => trivial, .inl trivial⟩

/-- The pieces of `FreeResource` and of the callbacks it makes. -/
inductive Frees (R : Rights) : State → State → Prop
  | refl (s : State) : Frees R s s
  | trans {s t u : State} : Frees R s t → Frees R t u → Frees R s u
  /-- A window is taken out of the table. -/
  | erase (s : State) {w : Window} : R.erase w → Frees R s { s with windows := s.windows.erase w }
  /-- A selection is cleared. -/
  | lose {s : State} {c : Channel} :
    (c = .drag → R.owner ∨ ∀ v, (s.selections c).window = some v → R.erase v) →
    Frees R s (s.setSelection c { s.selections c with window := none, client := none })
  /-- A transfer from a client fails, up to `FreeResource`. -/
  | incoming {s : State} {i : Fin maxPending} : (s.transfers i).used = true → (s.transfers i).incoming = true →
    Frees R s ((s.refuse (s.transfers i)).releaseSlot i)
  /-- The end of `release` -/
  | clearFd {s : State} {i : Fin maxPending} : (s.transfers i).used = false →
    Frees R s (s.clearFd i)
  /-- A transfer to a client fails. -/
  | outgoing {s : State} {i : Fin maxPending} : (s.transfers i).used = true → (s.transfers i).incoming = false →
    ((s.transfers i).channel = .drag → R.drag) → Frees R s (s.failOutgoing i)
  /-- A new offer, when the transfers of the channel ended. -/
  | renew {s : State} {c : Channel} : (∀ i, (s.transfers i).used = true → (s.transfers i).channel ≠ c) →
    Frees R s (s.renewOffer c)
  | cancel (s : State) : Frees R s s.emitCancel
  /-- An export ends. -/
  | endExport {s t : State} : s.exported.source.isSome = true → Frees R s.finishExport t → Frees R s t.leaveExport

/-! ## The transfers that remain -/

section Slots

variable {s : State} {i j : Fin maxPending}

@[simp] theorem transfers_setTransfer_self (s : State) (i : Fin maxPending) (t : Transfer) :
    (s.setTransfer i t).transfers i = t := Function.update_self _ _ _

theorem transfers_setTransfer_ne (s : State) (h : j ≠ i) (t : Transfer) :
    (s.setTransfer i t).transfers j = s.transfers j := Function.update_of_ne h _ _

theorem transfers_clearFd_ne (s : State) (h : j ≠ i) : (s.clearFd i).transfers j = s.transfers j :=
  transfers_setTransfer_ne _ h _

theorem used_clearFd (s : State) (i : Fin maxPending) : ((s.clearFd i).transfers i).used = (s.transfers i).used := by
  rw [State.clearFd, transfers_setTransfer_self]

@[simp] theorem transfers_refuse (s : State) (t : Transfer) : (s.refuse t).transfers = s.transfers := by
  unfold State.refuse
  repeat' split
  all_goals rfl

@[simp] theorem transfers_newFd (s : State) : s.newFd.2.transfers = s.transfers := rfl

@[simp] theorem transfers_close (s : State) (fd : Option Nat) : (s.close fd).transfers = s.transfers := rfl

theorem transfers_bytesFile (s : State) (size : Nat) (file : NewFile) :
    (s.bytesFile size file).2.transfers = s.transfers := by
  cases file with
  | created => exact transfers_newFd s
  | failed => rfl
  | unwritten =>
    unfold State.bytesFile
    dsimp only
    split
    · exact transfers_newFd s
    · rw [transfers_close, transfers_newFd]

theorem transfers_publishTargets (s : State) (c : Channel) (file : NewFile) :
    (s.publishTargets c file).transfers = s.transfers := by
  have hfile := transfers_bytesFile s (s.offers c).targets.length file
  unfold State.publishTargets
  dsimp only
  rw [transfers_close]
  exact hfile

theorem transfers_releaseSlot_self (s : State) (i : Fin maxPending) :
    (s.releaseSlot i).transfers i = { s.transfers i with used := false, timer := false } :=
  transfers_setTransfer_self _ _ _

theorem transfers_releaseSlot_ne (s : State) (h : j ≠ i) : (s.releaseSlot i).transfers j = s.transfers j :=
  transfers_setTransfer_ne _ h _

/-- `allocate` takes a transfer that is not in use. -/
theorem allocate_eq {t : State} {incoming : Bool} {c : Channel} {serial generation : Nat} {timer : Bool}
    (h : s.allocate incoming c serial generation timer = some (i, t)) :
    (s.transfers i).used = false ∧
      t = { s.setTransfer i { used := true, incoming := incoming, channel := c, serial := serial, generation := generation,
                              ticket := s.transferSequence + 1, timer := timer } with
            transferSequence := s.transferSequence + 1 } := by
  unfold State.allocate at h
  obtain ⟨j, hj, heq⟩ := Option.map_eq_some_iff.1 h
  cases heq
  exact ⟨by simpa using List.find?_some hj, rfl⟩

theorem transfers_allocate {t : State} {incoming : Bool} {c : Channel} {serial generation : Nat} {timer : Bool}
    (h : s.allocate incoming c serial generation timer = some (i, t)) :
    t.transfers i = { used := true, incoming := incoming, channel := c, serial := serial, generation := generation,
                      ticket := s.transferSequence + 1, timer := timer } := by
  obtain ⟨-, rfl⟩ := allocate_eq h
  exact transfers_setTransfer_self _ _ _

end Slots

/-! ## What `request` and `receive` do -/

/-- What `request` does: a refusal, or a transfer with a new window -/
inductive Requested (s : State) (c : Channel) (serial generation : Nat) (target : Atom) (list : Bool) (a : Answers) :
    State → Prop
  | refused : Requested s c serial generation target list a
      (if list then s else s.emit .reply c serial generation (some target) none 0 none false)
  /-- Without a window the transfer fails. -/
  | asked {i : Fin maxPending} {t u : State} {w : Option Window} : s.allocate true c serial generation a.timer = some (i, t) →
      (t.setTransfer i { t.transfers i with target := target, targets := list, property := .data }).newWindow a = (w, u) →
      Requested s c serial generation target list a
        (match w with
        | none => u.fail freeResource i
        | some w => u.setTransfer i { u.transfers i with requestor := some w })

theorem request_cases (s : State) (c : Channel) (serial generation : Nat) (target : Atom) (list : Bool) (a : Answers) :
    Requested s c serial generation target list a (s.request freeResource c serial generation target list a) := by
  unfold State.request
  dsimp only
  split
  · exact .refused
  · cases halloc : s.allocate true c serial generation a.timer with
    | none => exact .refused
    | some r =>
      obtain ⟨i, t⟩ := r
      dsimp only
      cases hnew : (t.setTransfer i { t.transfers i with
          target := target, targets := list, property := .data }).newWindow a with
      | mk w u =>
        have h := Requested.asked halloc hnew
        cases w <;> exact h

/-- The descriptor that a piece is written to: that of its transfer, or a new one -/
inductive Opens (s : State) (i : Fin maxPending) (file : NewFile) : Option Nat → State → Prop
  | kept : Opens s i file (s.transfers i).fd s
  | opened {fd : Option Nat} {r : State} : (s.transfers i).fd = none → s.bytesFile 0 file = (fd, r) → Opens s i file fd r

theorem Opens.transfers {s r : State} {i : Fin maxPending} {file : NewFile} {fd : Option Nat} (h : Opens s i file fd r) :
    r.transfers = s.transfers := by
  cases h with
  | kept => rfl
  | opened _ hfile =>
    have hsame := transfers_bytesFile s 0 file
    rwa [hfile] at hsame

/-- What `receive` does with a property: nothing more, a file for what is announced, a list of targets, or a piece. -/
inductive Receives (s : State) (i : Fin maxPending) (initial : Bool) (a : Answers) : State → Prop
  | fails : Receives s i initial a (s.fail freeResource i)
  /-- An announcement opens a file, also for a transfer that has one. -/
  | announced {fd : Option Nat} {r : State} : initial = true → s.HasWindow (s.transfers i).requestor →
      (s.transfers i).generation = (s.offers (s.transfers i).channel).generation → (s.transfers i).targets = false →
      (∃ p ∈ a.property, p.type = .incr ∧ p.format = 32 ∧ p.size = 1 ∧ p.value ≤ maxBytes) →
      s.bytesFile 0 a.file = (fd, r) → Receives s i initial a
        (match fd with
        | none => (r.setTransfer i { s.transfers i with fd := none }).fail freeResource i
        | some fd => r.setTransfer i { s.transfers i with fd := some fd, incremental := true })
  | targets (l : List Atom) : (s.transfers i).targets = true → Receives s i initial a
      (((s.setOffer (s.transfers i).channel { s.offers (s.transfers i).channel with targets := l }).publishTargets
        (s.transfers i).channel a.file).release freeResource i)
  /-- A piece that cannot be written -/
  | lost {fd : Option Nat} {r : State} : Opens s i a.file fd r → Receives s i initial a
      ((r.setTransfer i { s.transfers i with fd := fd }).fail freeResource i)
  /-- The last piece -/
  | last {fd : Option Nat} {r : State} (n : Nat) : Opens s i a.file fd r → (s.transfers i).targets = false →
      Receives s i initial a
        ((((r.setTransfer i { s.transfers i with fd := fd }).setTransfer i
          { s.transfers i with fd := fd, size := (s.transfers i).size + n }).emit .reply (s.transfers i).channel
            (s.transfers i).serial (s.transfers i).generation (some (s.transfers i).target) fd 0 none true).release
              freeResource i)
  | more {fd : Option Nat} {r : State} (n : Nat) : Opens s i a.file fd r → Receives s i initial a
      ((r.setTransfer i { s.transfers i with fd := fd }).setTransfer i
        { s.transfers i with fd := fd, size := (s.transfers i).size + n })

theorem receive_cases (s : State) (i : Fin maxPending) (initial : Bool) (a : Answers) :
    Receives s i initial a (s.receive i initial a) := by
  unfold State.receive
  dsimp only
  cases hp : a.property with
  | none => exact .fails
  | some p =>
    dsimp only
    split
    · exact .fails
    · rename_i hlive
      rw [not_or, Decidable.not_not, Decidable.not_not] at hlive
      split
      · rename_i hincr
        split
        · exact .fails
        · rename_i hok
          rw [not_or, Bool.not_eq_true] at hok
          cases hfile : s.bytesFile 0 a.file with
          | mk fd r =>
            have h := Receives.announced hincr.1 hlive.1 hlive.2 hok.1
              ⟨p, hp, hincr.2.1, hincr.2.2.1, hincr.2.2.2, Nat.not_lt.1 hok.2⟩ hfile
            cases fd <;> exact h
      · split
        · rename_i htargets
          split
          · exact .fails
          · exact .targets _ htargets
        · rename_i htargets
          split
          · exact .fails
          · obtain ⟨fd, r, hr, hopens⟩ : ∃ fd r, (if (s.transfers i).fd.isSome then ((s.transfers i).fd, s)
                else s.bytesFile 0 a.file) = (fd, r) ∧ Opens s i a.file fd r := by
              split
              · exact ⟨_, _, rfl, .kept⟩
              · rename_i hnone
                exact ⟨_, _, rfl, .opened (Option.not_isSome_iff_eq_none.1 hnone) rfl⟩
            rw [hr]
            dsimp only
            split
            · exact .lost hopens
            · split
              · exact .last _ hopens (Bool.eq_false_iff.2 htargets)
              · exact .more _ hopens

/-- The answers to requests: `LORIE_DATA_REPLY` and `SelectionNotify` -/
def Output.isAnswer : Output → Bool
  | .emit .reply .. | .notify .. => true
  | _ => false

/-- What only an export sends: `XdndFinished`, and the release of the button -/
def Output.ofExport : Output → Bool
  | .message _ _ (.finished ..) | .releaseButton .. => true
  | _ => false

/-- No output is of a kind. -/
def Avoids (p : Output → Bool) (l : List Output) : Prop := ∀ o ∈ l, p o = false

/-- Outputs that answer no request. -/
abbrev Quiet : List Output → Prop := Avoids Output.isAnswer

/-- Outputs of no export. -/
abbrev Apart : List Output → Prop := Avoids Output.ofExport

section Avoids

variable {p : Output → Bool}

theorem Avoids.nil : Avoids p [] := List.forall_mem_nil _

theorem Avoids.append {l l' : List Output} (h : Avoids p l) (h' : Avoids p l') : Avoids p (l ++ l') := by
  intro o ho
  rcases List.mem_append.1 ho with ho | ho
  · exact h o ho
  · exact h' o ho

theorem Avoids.singleton {o : Output} (h : p o = false) : Avoids p [o] := by
  intro o' ho
  rw [List.mem_singleton.1 ho]
  exact h

theorem avoids_delivered (s : State) (w v : Option Window) {m : Message} (h : ∀ x, p (.message x v m) = false) :
    Avoids p (s.delivered w v m) := by
  unfold State.delivered
  repeat' split
  · exact .singleton (h _)
  · exact .nil
  · exact .nil

end Avoids

/-- What a function of the drag does: it changes the drag, and what it sends answers no request and is of no export. -/
structure DragStep (s t : State) : Prop where
  eq : ∃ drag log, Quiet log ∧ Apart log ∧ t = { s with drag := drag, log := s.log ++ log }

namespace DragStep

variable {s t u : State}

theorem refl (s : State) : DragStep s s := ⟨s.drag, [], .nil, .nil, by rw [List.append_nil]⟩

theorem trans (h : DragStep s t) (h' : DragStep t u) : DragStep s u := by
  obtain ⟨d, l, hl, hx, rfl⟩ := h
  obtain ⟨d', l', hl', hx', rfl⟩ := h'
  exact ⟨d', l ++ l', hl.append hl', hx.append hx', by rw [← List.append_assoc]⟩

theorem withDrag (h : DragStep s t) (f : Drag → Drag) : DragStep s (t.withDrag f) := by
  obtain ⟨d, l, hl, hx, rfl⟩ := h
  exact ⟨f d, l, hl, hx, rfl⟩

theorem message (h : DragStep s t) (w v : Option Window) {m : Message} (hm : ∀ x, (Output.message x v m).ofExport = false) :
    DragStep s (t.message w v m) :=
  h.trans ⟨t.drag, _, avoids_delivered t w v fun _ => rfl, avoids_delivered t w v hm, rfl⟩

theorem emit (h : DragStep s t) (o : Operation) (ho : o ≠ .reply) (c : Channel) (n g : Nat) (m : Option Atom)
    (f : Option Nat) (k : Nat) (w : Option Window) (x : Bool) : DragStep s (t.emit o c n g m f k w x) := by
  refine h.trans ⟨t.drag, _, .singleton ?_, .singleton rfl, rfl⟩
  cases o with
  | reply => exact absurd rfl ho
  | _ => rfl

theorem leaveTarget (h : DragStep s t) : DragStep s t.leaveTarget := by
  unfold State.leaveTarget
  split
  · exact h.message _ _ fun _ => rfl
  · exact h

theorem retarget (h : DragStep s t) (p : Point) : DragStep s (t.retarget p) := by
  unfold State.retarget
  split
  · exact h
  · dsimp only
    split
    · exact ((h.leaveTarget.withDrag _).withDrag _).message _ _ fun _ => rfl
    · exact h.leaveTarget.withDrag _

theorem sendPosition (h : DragStep s t) (p : Point) (now : Nat) : DragStep s (t.sendPosition p now) := by
  unfold State.sendPosition
  split
  · exact (h.withDrag _).message _ _ fun _ => rfl
  · exact h

theorem moveDrag (h : DragStep s t) (e : Event) (a : Answers) : DragStep s (t.moveDrag e a) := by
  unfold State.moveDrag
  have hmove := h.withDrag fun d => { d with move := e }
  simp only
  split
  · exact hmove.withDrag _
  · cases a.point with
    | none => exact hmove
    | some p => exact ((hmove.retarget p).withDrag _).sendPosition p _

theorem rejectDrag (h : DragStep s t) : DragStep s t.rejectDrag := by
  unfold State.rejectDrag
  exact ((h.withDrag _).leaveTarget.emit .finish nofun _ _ _ _ _ _ _ _).withDrag _

theorem dropDrag (h : DragStep s t) (a : Answers) : DragStep s (t.dropDrag a) := by
  unfold State.dropDrag
  split
  · exact h.withDrag _
  · split
    · exact h.withDrag _
    · split
      · exact (h.withDrag _).moveDrag _ a
      · split
        · exact (h.withDrag _).message _ _ fun _ => rfl
        · exact (h.withDrag _).rejectDrag

theorem selectionFinished (h : DragStep s t) (x : Transfer) (success : Bool) (a : Answers) :
    DragStep s (t.selectionFinished x success a) := by
  unfold State.selectionFinished
  split
  · exact h
  · cases success with
    | false =>
      simp only [Bool.false_eq_true, if_false]
      split
      · exact h
      · exact h.rejectDrag
    | true =>
      simp only [if_true]
      split
      · exact h.withDrag _
      · exact (h.withDrag _).dropDrag a

theorem forgetDrag (h : DragStep s t) : DragStep s t.forgetDrag := h.withDrag _

theorem dragStatus (h : DragStep s t) (accepted : Bool) (a : Answers) : DragStep s (t.dragStatus accepted a) := by
  have htake : DragStep s (t.takeStatus accepted) := (h.withDrag _).emit .status nofun _ _ _ _ _ _ _ _
  have hqueued : DragStep s ((t.takeStatus accepted).moveQueued a) := by
    unfold State.moveQueued
    split
    · exact (htake.withDrag _).moveDrag _ a
    · exact htake
  unfold State.dragStatus
  dsimp only
  split
  · exact hqueued.dropDrag a
  · exact hqueued

theorem dragFinished (h : DragStep s t) (bit : Bool) : DragStep s (t.dragFinished bit) :=
  (h.emit .finish nofun _ _ _ _ _ _ _ _).withDrag _

theorem enterDrag (h : DragStep s t) (c : Channel) (e : Event) : DragStep s (t.enterDrag c e) := by
  unfold State.enterDrag
  dsimp only
  split
  · exact h.withDrag _
  · exact (h.withDrag _).forgetDrag.withDrag _

end DragStep

/-- What a function of the export does: it changes the export and its history, may lift the pointer, and what it sends
answers no request. -/
structure ExportStep (s t : State) : Prop where
  eq : ∃ exported exports log pointerDown, Quiet log ∧
    t = { s with exported := exported, exports := exports, log := s.log ++ log, pointerDown := pointerDown }

namespace ExportStep

variable {s t u : State}

theorem refl (s : State) : ExportStep s s := ⟨s.exported, s.exports, [], s.pointerDown, .nil, by rw [List.append_nil]⟩

theorem trans (h : ExportStep s t) (h' : ExportStep t u) : ExportStep s u := by
  obtain ⟨x, e, l, p, hl, rfl⟩ := h
  obtain ⟨x', e', l', p', hl', rfl⟩ := h'
  exact ⟨x', e', l ++ l', p', hl.append hl', by rw [← List.append_assoc]⟩

theorem withExport (h : ExportStep s t) (f : Export → Export) : ExportStep s (t.withExport f) := by
  obtain ⟨x, e, l, p, hl, rfl⟩ := h
  exact ⟨f x, e, l, p, hl, rfl⟩

theorem record (h : ExportStep s t) (f : Record → Record) : ExportStep s (t.record f) := by
  unfold State.record
  split
  · obtain ⟨x, e, l, p, hl, rfl⟩ := h
    exact ⟨x, _, l, p, hl, rfl⟩
  · exact h

theorem send (h : ExportStep s t) {l : List Output} (hl : Quiet l) : ExportStep s { t with log := t.log ++ l } :=
  h.trans ⟨t.exported, t.exports, l, t.pointerDown, hl, rfl⟩

theorem pointer (h : ExportStep s t) (p : Bool) : ExportStep s { t with pointerDown := p } := by
  obtain ⟨x, e, l, _, hl, rfl⟩ := h
  exact ⟨x, e, l, p, hl, rfl⟩

theorem releaseExportPointer (h : ExportStep s t) : ExportStep s t.releaseExportPointer := by
  unfold State.releaseExportPointer
  dsimp only
  split
  · exact h
  · exact (((h.send (.singleton rfl)).record _).pointer _).withExport _

theorem finishExport (s : State) : ExportStep s s.finishExport := by
  unfold State.finishExport
  dsimp only
  split
  · exact (((refl s).send (avoids_delivered s _ _ fun _ => rfl)).record _).withExport _
  · exact (refl s).withExport _

theorem leaveExport (s : State) : ExportStep s s.leaveExport := ((refl s).withExport _).releaseExportPointer

end ExportStep

/-! ## Facts about all pieces -/

/-- The variables that `FreeResource` leaves alone. -/
def State.fixed (s : State) : State :=
  { dragFirst := s.dragFirst, enabled := s.enabled, clipboardActive := s.clipboardActive, bridge := s.bridge,
    requestSequence := s.requestSequence, transferSequence := s.transferSequence, pointerOutput := s.pointerOutput,
    pointerWindow := s.pointerWindow, work := s.work, created := s.created, requests := s.requests,
    answered := s.answered, abandoned := s.abandoned }

theorem fixed_clearFd (s : State) (i : Fin maxPending) : (s.clearFd i).fixed = s.fixed := rfl

theorem fixed_releaseSlot (s : State) (i : Fin maxPending) : (s.releaseSlot i).fixed = s.fixed := rfl

theorem fixed_drag {s t : State} (h : DragStep s t) : t.fixed = s.fixed := by
  obtain ⟨d, l, -, -, rfl⟩ := h
  rfl

theorem fixed_export {s t : State} (h : ExportStep s t) : t.fixed = s.fixed := by
  obtain ⟨x, e, l, p, -, rfl⟩ := h
  rfl

theorem fixed_refuse (s : State) (t : Transfer) : (s.refuse t).fixed = s.fixed := by
  unfold State.refuse
  repeat' split
  all_goals rfl

theorem fixed_failOutgoing (s : State) (i : Fin maxPending) : (s.failOutgoing i).fixed = s.fixed := by
  unfold State.failOutgoing
  dsimp only
  rw [fixed_drag ((DragStep.refl _).selectionFinished _ _ _), fixed_clearFd, fixed_releaseSlot, fixed_refuse]

theorem Frees.fixed {R : Rights} {s t : State} (h : Frees R s t) : t.fixed = s.fixed := by
  induction h with
  | refl s => rfl
  | trans _ _ ih ih' => exact ih'.trans ih
  | erase s _ => rfl
  | lose _ => rfl
  | @incoming s i _ _ => rw [fixed_releaseSlot, fixed_refuse]
  | clearFd _ => rfl
  | @outgoing s i _ _ _ => exact fixed_failOutgoing s i
  | renew _ => rfl
  | cancel s => rfl
  | @endExport s t _ _ ih =>
    rw [fixed_export (.leaveExport t), ih, fixed_export (.finishExport s)]

theorem transfers_drag {s t : State} (h : DragStep s t) : t.transfers = s.transfers := by
  obtain ⟨d, l, -, -, rfl⟩ := h
  rfl

theorem transfers_export {s t : State} (h : ExportStep s t) : t.transfers = s.transfers := by
  obtain ⟨x, e, l, p, -, rfl⟩ := h
  rfl

theorem transfers_failOutgoing_ne (s : State) {i j : Fin maxPending} (h : j ≠ i) :
    (s.failOutgoing i).transfers j = s.transfers j := by
  unfold State.failOutgoing
  dsimp only
  rw [transfers_drag ((DragStep.refl _).selectionFinished _ _ _), transfers_clearFd_ne _ h,
    transfers_releaseSlot_ne _ h, transfers_refuse]

theorem used_failOutgoing_self (s : State) (i : Fin maxPending) : ((s.failOutgoing i).transfers i).used = false := by
  unfold State.failOutgoing
  dsimp only
  rw [transfers_drag ((DragStep.refl _).selectionFinished _ _ _), used_clearFd, transfers_releaseSlot_self]

/-- Transfers only end: one that is still in use was not touched. -/
theorem Frees.shrinks {R : Rights} {s t : State} (h : Frees R s t) {j : Fin maxPending} (hj : (t.transfers j).used = true) :
    t.transfers j = s.transfers j := by
  induction h with
  | refl s => rfl
  | trans _ _ ih ih' =>
    have hmid := ih' hj
    rw [hmid] at hj
    exact hmid.trans (ih hj)
  | erase s _ => rfl
  | lose _ => rfl
  | @incoming s i _ _ =>
    by_cases hi : j = i
    · subst hi
      rw [transfers_releaseSlot_self] at hj
      cases hj
    · rw [transfers_releaseSlot_ne _ hi, transfers_refuse]
  | @clearFd s i hu =>
    by_cases hi : j = i
    · subst hi
      rw [used_clearFd, hu] at hj
      cases hj
    · exact transfers_clearFd_ne _ hi
  | @outgoing s i _ _ _ =>
    by_cases hi : j = i
    · subst hi
      rw [used_failOutgoing_self] at hj
      cases hj
    · exact transfers_failOutgoing_ne s hi
  | @renew s c _ => rfl
  | cancel s => rfl
  | @endExport s t _ _ ih =>
    rw [transfers_export (.leaveExport t)] at hj ⊢
    rw [ih hj, transfers_export (.finishExport s)]

/-- What a transfer that ends leaves alone, apart from the drag. -/
def State.beside (s : State) : List Window × (Channel → Selection) × Export × List Record × (Channel → Offer) :=
  (s.windows, s.selections, s.exported, s.exports, s.offers)

theorem beside_drag {s t : State} (h : DragStep s t) : t.beside = s.beside := by
  obtain ⟨d, l, -, -, rfl⟩ := h
  rfl

theorem beside_refuse (s : State) (t : Transfer) : (s.refuse t).beside = s.beside := by
  unfold State.refuse
  repeat' split
  all_goals rfl

theorem beside_releaseSlot (s : State) (i : Fin maxPending) : (s.releaseSlot i).beside = s.beside := rfl

theorem beside_clearFd (s : State) (i : Fin maxPending) : (s.clearFd i).beside = s.beside := rfl

theorem beside_failOutgoing (s : State) (i : Fin maxPending) : (s.failOutgoing i).beside = s.beside := by
  unfold State.failOutgoing
  dsimp only
  rw [beside_drag ((DragStep.refl _).selectionFinished _ _ _), beside_clearFd, beside_releaseSlot, beside_refuse]

theorem windows_of_beside {s t : State} (h : t.beside = s.beside) : t.windows = s.windows := congrArg Prod.fst h

theorem selections_of_beside {s t : State} (h : t.beside = s.beside) : t.selections = s.selections :=
  congrArg (fun x => x.2.1) h

theorem exported_of_beside {s t : State} (h : t.beside = s.beside) : t.exported = s.exported :=
  congrArg (fun x => x.2.2.1) h

theorem windows_export {s t : State} (h : ExportStep s t) : t.windows = s.windows := by
  obtain ⟨x, e, l, p, -, rfl⟩ := h
  rfl

theorem selections_export {s t : State} (h : ExportStep s t) : t.selections = s.selections := by
  obtain ⟨x, e, l, p, -, rfl⟩ := h
  rfl

/-- Windows only go. -/
theorem Frees.windows {R : Rights} {s t : State} (h : Frees R s t) {w : Window} (hw : w ∈ t.windows) : w ∈ s.windows := by
  induction h with
  | refl s => exact hw
  | trans _ _ ih ih' => exact ih (ih' hw)
  | erase s _ => exact List.mem_of_mem_erase hw
  | lose _ => exact hw
  | @incoming s i _ _ =>
    rw [windows_of_beside ((beside_releaseSlot _ i).trans (beside_refuse s _))] at hw
    exact hw
  | clearFd _ => exact hw
  | @outgoing s i _ _ _ =>
    rw [windows_of_beside (beside_failOutgoing s i)] at hw
    exact hw
  | renew _ => exact hw
  | cancel s => exact hw
  | @endExport s t _ _ ih =>
    rw [windows_export (.leaveExport t)] at hw
    have := ih hw
    rwa [windows_export (.finishExport s)] at this

/-- Selections are only cleared. -/
theorem Frees.selections {R : Rights} {s t : State} (h : Frees R s t) (c : Channel) :
    t.selections c = s.selections c ∨ ((t.selections c).window = none ∧ (t.selections c).client = none) := by
  induction h with
  | refl s => exact .inl rfl
  | trans _ _ ih ih' =>
    rcases ih' with heq | hnone
    · rw [heq]
      exact ih
    · exact .inr hnone
  | erase s _ => exact .inl rfl
  | @lose s d _ =>
    by_cases hd : c = d
    · subst hd
      simp [State.setSelection]
    · left
      exact Function.update_of_ne hd _ _
  | @incoming s i _ _ =>
    rw [selections_of_beside ((beside_releaseSlot _ i).trans (beside_refuse s _))]
    exact .inl rfl
  | clearFd _ => exact .inl rfl
  | @outgoing s i _ _ _ =>
    rw [selections_of_beside (beside_failOutgoing s i)]
    exact .inl rfl
  | renew _ => exact .inl rfl
  | cancel s => exact .inl rfl
  | @endExport s t _ _ ih =>
    rw [selections_export (.leaveExport t)]
    rw [selections_export (.finishExport s)] at ih
    exact ih

theorem catcher_finishExport (s : State) : s.finishExport.exported.catcher = s.exported.catcher := by
  unfold State.finishExport State.record
  dsimp only
  repeat' split
  all_goals rfl

theorem catcher_leaveExport (s : State) : s.leaveExport.exported.catcher = none := by
  unfold State.leaveExport State.releaseExportPointer State.record
  dsimp only
  repeat' split
  all_goals rfl

/-- The catcher stays or goes. -/
theorem Frees.catcher {R : Rights} {s t : State} (h : Frees R s t) :
    t.exported.catcher = s.exported.catcher ∨ t.exported.catcher = none := by
  induction h with
  | refl s => exact .inl rfl
  | trans _ _ ih ih' =>
    rcases ih' with heq | hnone
    · rw [heq]
      exact ih
    · exact .inr hnone
  | erase s _ => exact .inl rfl
  | lose _ => exact .inl rfl
  | @incoming s i _ _ =>
    rw [exported_of_beside ((beside_releaseSlot _ i).trans (beside_refuse s _))]
    exact .inl rfl
  | clearFd _ => exact .inl rfl
  | @outgoing s i _ _ _ =>
    rw [exported_of_beside (beside_failOutgoing s i)]
    exact .inl rfl
  | renew _ => exact .inl rfl
  | cancel s => exact .inl rfl
  | @endExport s t _ _ ih => exact .inr (catcher_leaveExport t)

theorem Frees.bridge {R : Rights} {s t : State} (h : Frees R s t) : t.bridge = s.bridge := by
  have : t.fixed.bridge = s.fixed.bridge := by rw [h.fixed]
  exact this

/-- The erased window is the one that may be erased. -/
theorem erase_windows {R : Rights} {s t : State} (h : Frees R s t) (hs : ∀ v, v ∉ s.windows → R.erase v) :
    ∀ v, v ∉ t.windows → R.erase v := by
  induction h with
  | refl s => exact hs
  | trans _ _ ih ih' => exact ih' (ih hs)
  | @erase s w hw =>
    intro v hv
    by_cases hvw : v = w
    · exact hvw ▸ hw
    · exact hs v fun hmem => hv ((List.mem_erase_of_ne hvw).2 hmem)
  | lose _ => exact hs
  | @incoming s i _ _ =>
    rw [windows_of_beside ((beside_releaseSlot _ i).trans (beside_refuse s _))]
    exact hs
  | clearFd _ => exact hs
  | @outgoing s i _ _ _ =>
    rw [windows_of_beside (beside_failOutgoing s i)]
    exact hs
  | renew _ => exact hs
  | cancel s => exact hs
  | @endExport s t _ _ ih =>
    rw [windows_export (.leaveExport t)]
    apply ih
    rw [windows_export (.finishExport s)]
    exact hs

/-- The pieces keep within the bounds. -/
theorem Guarded.frees {R : Rights} {s t : State} (hs : Guarded R s) (h : Frees R s t) : Guarded R t where
  fresh := erase_windows h hs.fresh
  requestor := by
    intro i v hu hin hv
    have hsame := h.shrinks hu
    rw [hsame] at hu hin hv
    exact hs.requestor i v hu hin hv
  catcher := by
    intro v hv
    rcases h.catcher with heq | hnone
    · rw [heq] at hv
      exact hs.catcher v hv
    · rw [hnone] at hv
      cases hv
  drag := by
    rcases hs.drag with hd | hd
    · exact .inl hd
    · refine .inr fun i hu hin hc => ?_
      have hsame := h.shrinks hu
      rw [hsame] at hu hin hc
      rw [h.bridge]
      rcases h.selections .drag with heq | hnone
      · rw [heq]
        exact hd i hu hin hc
      · exact .inr hnone

/-! ## The functions -/

/-- `release` of a transfer that is in use -/
theorem release_eq (fr : State.Free) {s : State} {i : Fin maxPending} (hu : (s.transfers i).used = true) :
    s.release fr i = ((s.releaseSlot i).freeRequestor fr (s.transfers i)).clearFd i := by
  unfold State.release
  rw [if_neg (by rw [hu]; nofun)]

/-- `release` of a transfer that is not in use -/
theorem release_unused (fr : State.Free) {s : State} {i : Fin maxPending} (hu : (s.transfers i).used = false) :
    s.release fr i = s := by
  unfold State.release
  rw [if_pos hu]

/-- `release` of a transfer to a client frees no window. -/
theorem release_outgoing (fr : State.Free) {s : State} {i : Fin maxPending} (hu : (s.transfers i).used = true)
    (hin : (s.transfers i).incoming = false) :
    s.release fr i = (s.releaseSlot i).clearFd i := by
  rw [release_eq fr hu, State.freeRequestor, hin]

theorem selectionFinished_incoming {s : State} {t : Transfer} (h : t.incoming = true) (success : Bool) (a : Answers) :
    s.selectionFinished t success a = s := by
  unfold State.selectionFinished
  rw [if_pos (.inl h)]

theorem fail_outgoing (fr : State.Free) {s : State} {i : Fin maxPending} (hu : (s.transfers i).used = true)
    (hin : (s.transfers i).incoming = false) : s.fail fr i = s.failOutgoing i := by
  unfold State.fail State.failOutgoing
  dsimp only
  rw [release_outgoing fr (by rw [transfers_refuse]; exact hu) (by rw [transfers_refuse]; exact hin)]

theorem fail_incoming (fr : State.Free) {s : State} {i : Fin maxPending} (hin : (s.transfers i).incoming = true) :
    s.fail fr i = (s.refuse (s.transfers i)).release fr i := by
  unfold State.fail
  dsimp only
  rw [selectionFinished_incoming hin]

/-- What `FreeResource` does to a window that may be freed, in a guarded state -/
def Freeing (fr : State.Free) : Prop := ∀ (R : Rights) s w, R.erase w → Guarded R s → Frees R s (fr s w)

section Functions

variable {fr : State.Free} (hfr : Freeing fr) {R : Rights}

include hfr

theorem freeing_all (s : State) (w : Window) : Frees .all s (fr s w) := hfr .all s w trivial (guarded_all s)

theorem frees_freeRequestor {s : State} {t : Transfer} (hg : Guarded R s)
    (ht : t.incoming = true → ∀ v, t.requestor = some v → R.erase v) : Frees R s (s.freeRequestor fr t) := by
  unfold State.freeRequestor
  split
  · rename_i w hin hw
    exact hfr R s w (ht hin w hw) hg
  · exact .refl s

/-- A transfer stays ended while its window is freed. -/
theorem used_freeRequestor {s : State} {i : Fin maxPending} (hu : (s.transfers i).used = false) (t : Transfer) :
    ((s.freeRequestor fr t).transfers i).used = false := by
  have hfree : Frees .all s (s.freeRequestor fr t) := frees_freeRequestor hfr (guarded_all s) fun _ _ _ => trivial
  cases hstill : ((s.freeRequestor fr t).transfers i).used with
  | false => rfl
  | true =>
    have hsame := hfree.shrinks hstill
    rw [hsame, hu] at hstill
    cases hstill

/-- `release` of a transfer from a client, behind what comes up to `FreeResource` -/
theorem frees_release {s r : State} {i : Fin maxPending} (hu : (s.transfers i).used = true) (hg : Guarded R r)
    (hr : (s.transfers i).incoming = true → ∀ v, (s.transfers i).requestor = some v → R.erase v)
    (h : Frees R r (s.releaseSlot i)) : Frees R r (s.release fr i) := by
  have hused : ((s.releaseSlot i).transfers i).used = false := by rw [transfers_releaseSlot_self]
  rw [release_eq fr hu]
  exact (h.trans (frees_freeRequestor hfr (hg.frees h) hr)).trans (.clearFd (used_freeRequestor hfr hused _))

theorem frees_fail {s : State} {i : Fin maxPending} (hu : (s.transfers i).used = true) (hg : Guarded R s)
    (hd : (s.transfers i).incoming = false → (s.transfers i).channel = .drag → R.drag) : Frees R s (s.fail fr i) := by
  cases hin : (s.transfers i).incoming with
  | false =>
    rw [fail_outgoing fr hu hin]
    exact .outgoing hu hin (hd hin)
  | true =>
    rw [fail_incoming fr hin]
    refine frees_release hfr ?_ hg ?_ (.incoming hu hin)
    · rw [transfers_refuse]
      exact hu
    · rw [transfers_refuse]
      intro _ v hv
      exact hg.requestor i v hu hin hv

theorem used_release (s : State) (i : Fin maxPending) : ((s.release fr i).transfers i).used = false := by
  cases hu : (s.transfers i).used with
  | false =>
    rw [release_unused fr hu]
    exact hu
  | true =>
    rw [release_eq fr hu, used_clearFd]
    exact used_freeRequestor hfr (by rw [transfers_releaseSlot_self]) _

/-- A transfer that fails has ended. -/
theorem used_fail (s : State) (i : Fin maxPending) : ((s.fail fr i).transfers i).used = false := by
  unfold State.fail
  dsimp only
  rw [transfers_drag ((DragStep.refl _).selectionFinished _ _ _)]
  exact used_release hfr _ i

/-- The loop of `selectionChanged` over some of the transfers: those of the channel end. -/
theorem frees_failLoop (c : Channel) (l : List (Fin maxPending)) {s : State} (hg : Guarded R s)
    (hd : c = .drag → R.drag ∨ ∀ i, (s.transfers i).used = true → (s.transfers i).incoming = false →
      (s.transfers i).channel ≠ .drag) :
    Frees R s (l.foldl (fun s i => if (s.transfers i).used ∧ (s.transfers i).channel = c then s.fail fr i else s) s) ∧
    ∀ i ∈ l, ∀ t : State,
      t = l.foldl (fun s i => if (s.transfers i).used ∧ (s.transfers i).channel = c then s.fail fr i else s) s →
      (t.transfers i).used = true → (t.transfers i).channel ≠ c := by
  induction l generalizing s with
  | nil => exact ⟨.refl s, nofun⟩
  | cons j l ih =>
    simp only [List.foldl_cons]
    have hfirst : Frees R s (if (s.transfers j).used ∧ (s.transfers j).channel = c then s.fail fr j else s) := by
      split
      · rename_i h
        refine frees_fail hfr h.1 hg fun hin hj => ?_
        rcases hd (h.2.symm.trans hj) with hd | hd
        · exact hd
        · exact absurd hj (hd j h.1 hin)
      · exact .refl s
    obtain ⟨hfrees, hrest⟩ := ih (hg.frees hfirst) (by
      intro hc
      rcases hd hc with hd | hd
      · exact .inl hd
      · refine .inr fun i hu hin => ?_
        have hsame := hfirst.shrinks hu
        rw [hsame] at hu hin ⊢
        exact hd i hu hin)
    refine ⟨hfirst.trans hfrees, ?_⟩
    rintro i hi t rfl hused
    rcases List.mem_cons.1 hi with rfl | hi
    · -- the first transfer of the loop stays as its turn left it
      have hsame := hfrees.shrinks hused
      rw [hsame] at hused ⊢
      split at hused
      · rw [used_fail hfr] at hused
        cases hused
      · rename_i h
        rw [if_neg h]
        exact fun hc => h ⟨hused, hc⟩
    · exact hrest i hi _ rfl hused

theorem frees_failAll {s : State} {c : Channel} (hg : Guarded R s)
    (hd : c = .drag → R.drag ∨ ∀ i, (s.transfers i).used = true → (s.transfers i).incoming = false →
      (s.transfers i).channel ≠ .drag) : Frees R s (s.failAll fr c) := (frees_failLoop hfr c _ hg hd).1

theorem channel_failAll (s : State) (c : Channel) (i : Fin maxPending)
    (hi : ((s.failAll fr c).transfers i).used = true) : ((s.failAll fr c).transfers i).channel ≠ c :=
  (frees_failLoop hfr c _ (guarded_all s) fun _ => .inl trivial).2 i (List.mem_finRange i) _ rfl hi

theorem frees_endExport {s : State} (hg : Guarded R s) (h : s.exported.source.isSome = true) :
    Frees R s (s.endExport fr) := by
  have hfinish : Guarded R s.finishExport := by
    obtain ⟨x, e, l, p, -, heq⟩ := ExportStep.finishExport s
    have hc := catcher_finishExport s
    rw [heq] at hc ⊢
    refine ⟨hg.fresh, hg.requestor, fun v hv => hg.catcher v ?_, hg.drag⟩
    rw [← hc]
    exact hv
  unfold State.endExport
  dsimp only
  split
  · rename_i w hw
    exact .endExport h (hfr R _ w (hfinish.catcher w hw) hfinish)
  · exact .endExport h (.refl _)

/-- The callback of a selection that is not the bridge's, up to the new offer -/
theorem frees_forgetOwner {s : State} {c : Channel} (hg : Guarded R s)
    (hd : c = .drag → R.drag ∨ ∀ i, (s.transfers i).used = true → (s.transfers i).incoming = false →
      (s.transfers i).channel ≠ .drag) : Frees R s (s.forgetOwner fr c) := by
  unfold State.forgetOwner
  have hend : Frees R s (if c = .drag ∧ s.exported.source.isSome ∧ (s.selections c).window ≠ s.exported.source then
      s.endExport fr else s) := by
    split
    · rename_i h
      exact frees_endExport hfr hg h.2.1
    · exact .refl s
  refine Frees.trans ?_ (.renew (channel_failAll hfr _ c))
  refine hend.trans (frees_failAll hfr (hg.frees hend) ?_)
  intro hc
  rcases hd hc with hd | hd
  · exact .inl hd
  · refine .inr fun i hu hin => ?_
    have hsame := hend.shrinks hu
    rw [hsame] at hu hin ⊢
    exact hd i hu hin

/-- The callback of a selection: nothing, or a new offer and what it leads to -/
theorem selectionChanged_cases {s : State} {c : Channel} (kind : Kind) (a : Answers) (hg : Guarded R s)
    (hd : c = .drag → (s.selections c).window ≠ s.bridge → R.drag ∨ ∀ i, (s.transfers i).used = true →
      (s.transfers i).incoming = false → (s.transfers i).channel ≠ .drag) :
    s.selectionChanged fr c kind a = s ∨ Frees R s (s.selectionChanged fr c kind a) ∨
    (kind = .setOwner ∧ s.enabled = true ∧ (s.selections c).window ≠ s.bridge ∧ Frees R s (s.forgetOwner fr c) ∧
      s.selectionChanged fr c kind a =
        (s.forgetOwner fr c).request fr c 0 ((s.forgetOwner fr c).offers c).generation .targets true a) := by
  unfold State.selectionChanged
  dsimp only
  by_cases hskip : s.enabled = false ∨ (s.selections c).window = s.bridge
  · rw [if_pos hskip]
    exact .inl rfl
  · rw [if_neg hskip]
    rw [not_or] at hskip
    have hnew := frees_forgetOwner hfr hg fun hc => hd hc hskip.2
    by_cases hk : kind ≠ .setOwner ∨ ((s.forgetOwner fr c).offers c).owner = none
    · rw [if_pos hk]
      split
      · rename_i hc
        subst hc
        exact .inr (.inl (hnew.trans (.cancel _)))
      · exact .inr (.inl hnew)
    · rw [if_neg hk]
      rw [not_or, Decidable.not_not] at hk
      generalize (if c = .drag then (s.forgetOwner fr c).pointerDown else (s.forgetOwner fr c).clipboardActive) = ask
      cases ask with
      | true => exact .inr (.inr ⟨hk.1, by simpa using hskip.1, hskip.2, hnew, rfl⟩)
      | false => exact .inr (.inl hnew)

/-- A selection whose window goes, or whose client leaves, is lost. -/
theorem frees_loseOwner {s : State} {c : Channel} {kind : Kind} (hk : kind ≠ .setOwner) (hg : Guarded R s)
    (ho : c = .drag → R.owner ∨ ∀ v, (s.selections c).window = some v → R.erase v)
    (hs : (s.selections c).window ≠ none ∨ (s.selections c).client ≠ none) :
    Frees R s (State.loseOwner fr kind s c) := by
  have hchanged : Frees R s (s.selectionChanged fr c kind {}) := by
    have hd : c = .drag → (s.selections c).window ≠ s.bridge → R.drag ∨ ∀ i, (s.transfers i).used = true →
        (s.transfers i).incoming = false → (s.transfers i).channel ≠ .drag := by
      rintro rfl hne
      rcases hg.drag with hd | hd
      · exact .inl hd
      · refine .inr fun i hu hin hc => ?_
        rcases hd i hu hin hc with hb | ⟨hw, hcl⟩
        · exact hne hb
        · rcases hs with hs | hs
          · exact hs hw
          · exact hs hcl
    rcases selectionChanged_cases hfr kind {} hg hd with heq | h | ⟨h, -⟩
    · rw [heq]
      exact .refl s
    · exact h
    · exact absurd h hk
  unfold State.loseOwner
  refine hchanged.trans (.lose fun hc => ?_)
  rcases ho hc with ho | ho
  · exact .inl ho
  · refine .inr fun v hv => ho v ?_
    rcases hchanged.selections c with heq | ⟨hnone, -⟩
    · rw [← heq]
      exact hv
    · rw [hnone] at hv
      cases hv

end Functions

/-- **`FreeResource` does the pieces**, with as much room as it has. -/
theorem free_frees (n : Nat) : Freeing (free n) := by
  induction n with
  | zero => exact fun R s w _ _ => .refl s
  | succ n ih =>
    intro R s w hw hg
    unfold free
    split
    · have herase : Frees R s { s with windows := s.windows.erase w } := .erase s hw
      refine herase.trans ?_
      have hgt := hg.frees herase
      generalize { s with windows := s.windows.erase w } = t at hgt
      generalize s.channels = l
      induction l generalizing t with
      | nil => exact .refl t
      | cons c l ihl =>
        rw [List.foldl_cons]
        have hfirst : Frees R t (if (t.selections c).window = some w then State.loseOwner (free n) .windowDestroy t c
            else t) := by
          split
          · rename_i hc
            refine frees_loseOwner ih nofun hgt (fun _ => .inr fun v hv => ?_) (.inl ?_)
            · rw [hc] at hv
              cases hv
              exact hw
            · rw [hc]
              nofun
          · exact .refl t
        exact hfirst.trans (ihl _ (hgt.frees hfirst))
    · exact .refl s

theorem freeing_freeResource : Freeing freeResource := fun R s w => free_frees _ R s w

theorem freeResource_frees (s : State) (w : Window) : Frees .all s (freeResource s w) := freeing_all freeing_freeResource s w

theorem fail_frees {s : State} {i : Fin maxPending} (hu : (s.transfers i).used = true) :
    Frees .all s (s.fail freeResource i) := frees_fail freeing_freeResource hu (guarded_all s) fun _ _ => trivial

/-- A client that leaves loses its selections. -/
theorem frees_closeClient {R : Rights} {s : State} (client : Nat) (hg : Guarded R s)
    (ho : (s.selections .drag).client = some client →
      R.owner ∨ ∀ v, (s.selections .drag).window = some v → R.erase v) :
    Frees R s (s.channels.foldl
      (fun s c => if (s.selections c).client = some client then State.loseOwner freeResource .clientClose s c else s) s) := by
  generalize s.channels = l
  induction l generalizing s with
  | nil => exact .refl s
  | cons c l ih =>
    rw [List.foldl_cons]
    have hfirst : Frees R s (if (s.selections c).client = some client then State.loseOwner freeResource .clientClose s c
        else s) := by
      split
      · rename_i hc
        refine frees_loseOwner freeing_freeResource nofun hg ?_ (.inr ?_)
        · rintro rfl
          exact ho hc
        · rw [hc]
          nofun
      · exact .refl s
    refine hfirst.trans (ih (hg.frees hfirst) fun hcl => ?_)
    rcases hfirst.selections .drag with heq | ⟨-, hnone⟩
    · rw [heq] at hcl ⊢
      exact ho hcl
    · rw [hnone] at hcl
      cases hcl

/-- `release` only ends transfers. -/
theorem release_shrinks (s : State) (i : Fin maxPending) {j : Fin maxPending}
    (hj : ((s.release freeResource i).transfers j).used = true) :
    (s.release freeResource i).transfers j = s.transfers j ∧ (s.transfers j).used = true := by
  cases hu : (s.transfers i).used with
  | false =>
    rw [release_unused _ hu] at hj ⊢
    exact ⟨rfl, hj⟩
  | true =>
    have hne : j ≠ i := by
      rintro rfl
      rw [used_release freeing_freeResource] at hj
      cases hj
    rw [release_eq _ hu, transfers_clearFd_ne _ hne] at hj ⊢
    have hfree : Frees .all (s.releaseSlot i) ((s.releaseSlot i).freeRequestor freeResource (s.transfers i)) :=
      frees_freeRequestor freeing_freeResource (guarded_all _) fun _ _ _ => trivial
    have hsame := hfree.shrinks hj
    rw [hsame, transfers_releaseSlot_ne _ hne] at hj
    rw [hsame, transfers_releaseSlot_ne _ hne]
    exact ⟨rfl, hj⟩

/-- A reset leaves no transfer. -/
theorem used_releaseAll (s : State) (i : Fin maxPending) : (s.releaseAll.transfers i).used = false := by
  have hloop : ∀ (l : List (Fin maxPending)) (s : State) (j : Fin maxPending),
      ((l.foldl (fun s i => s.release freeResource i) s).transfers j).used = true →
        (s.transfers j).used = true ∧ j ∉ l := by
    intro l
    induction l with
    | nil => exact fun s j hj => ⟨hj, List.not_mem_nil⟩
    | cons k l ih =>
      intro s j hj
      rw [List.foldl_cons] at hj
      obtain ⟨hmid, hl⟩ := ih _ j hj
      refine ⟨(release_shrinks s k hmid).2, ?_⟩
      intro hmem
      rcases List.mem_cons.1 hmem with rfl | hmem
      · rw [used_release freeing_freeResource] at hmid
        cases hmid
      · exact hl hmem
  cases hu : (s.releaseAll.transfers i).used with
  | false => rfl
  | true => exact absurd (List.mem_finRange i) (hloop _ _ i hu).2

theorem frees_freeBridge (s : State) : Frees .all s s.freeBridge := by
  unfold State.freeBridge
  split
  · exact freeResource_frees s _
  · exact .refl s

theorem used_lorieDataReset (s : State) (i : Fin maxPending) : (s.lorieDataReset.transfers i).used = false := by
  cases hu : (s.lorieDataReset.transfers i).used with
  | false => rfl
  | true =>
    have hbridge : ((s.endExport freeResource).releaseAll.freeBridge.transfers i).used = true := hu
    rw [(frees_freeBridge _).shrinks hbridge, used_releaseAll] at hbridge
    cases hbridge

end Lorie.DataExchange
