import Lorie.DataExchange.Operations

/-!
# Transfers with their contents

A transfer of a selection with what it moves: the file of its descriptor and the property of its requestor, as bytes. The
functions are those of `data_exchange.c` for one transfer; what happens to the others, to the drag and to the export is in
the model of the whole file, whose functions do the same to the transfer (`sendChunk_of`, `receive_of`, `propertyWork_of`,
`propertyChanged_of`, `reply_of`).

A client changes the property with a request of its own, and the callback of the property follows at once. The functions
change it themselves, too: `movingProperty` hides what `sendChunk` writes, and no other change of theirs is of the kind
that a transfer waits for. Deferred work is queued for a transfer that has the flag, and runs at any time later.

- `Content`: a property; `Flow`: a transfer with its contents, and the history of its property;
- `Sending`: the transfer to a client that reads and deletes the property;
- `Receiving`: the transfer from an owner, that writes its value at once or by increments.
-/

namespace Lorie.DataExchange

open Lorie.Lib State

/-! ## Properties and files -/

/-- A property of a window -/
structure Content where
  type : Atom
  format : Nat
  data : List UInt8
  deriving DecidableEq, Repr

/-- A `CARD32` in the memory of the server -/
def card32 (n : Nat) : List UInt8 :=
  [n, n / 256, n / 65536, n / 16777216].map UInt8.ofNat

/-- The first `CARD32` of a property -/
def cardinal : List UInt8 → Nat
  | a :: b :: c :: d :: _ => a.toNat + 256 * b.toNat + 65536 * c.toNat + 16777216 * d.toNat
  | _ => 0

namespace Content

/-- `size`, in units of the format -/
def size (p : Content) : Nat := p.data.length / (p.format / 8)

/-- What the functions look at. -/
def summary (p : Content) : Property := { type := p.type, format := p.format, size := p.size, value := cardinal p.data }

/-- A piece of the content of a selection -/
def piece (target : Atom) (data : List UInt8) : Content := ⟨target, 8, data⟩

/-- The announcement of an incremental transfer -/
def announcement (n : Nat) : Content := ⟨.incr, 32, card32 n⟩

end Content

/-- `pread` -/
def pread (file : List UInt8) (length offset : Nat) : List UInt8 := (file.drop offset).take length

/-- `pwrite` -/
def pwrite (file data : List UInt8) (offset : Nat) : List UInt8 :=
  file.take offset ++ List.replicate (offset - file.length) 0 ++ data ++ file.drop (offset + data.length)

/-- `LORIE_DATA_MAX_BYTES - transfer->size`, in a `size_t` -/
def Transfer.room (t : Transfer) : Nat := (maxBytes + (2 ^ 64 - t.size % 2 ^ 64)) % 2 ^ 64

/-! ## The functions -/

/-- What goes out for a transfer: `LORIE_DATA_REPLY`, with a file when it ends well, and `SelectionNotify`. -/
inductive Delivery where
  | reply (file : Option (List UInt8))
  | notify (success : Bool)
  deriving DecidableEq, Repr

/-- A transfer with its contents -/
structure Flow where
  transfer : Transfer
  /-- `windowFor(transfer->requestor) != NULL` -/
  window : Bool := true
  /-- `offers[transfer->channel].generation` -/
  generation : Nat
  /-- The property of the requestor -/
  property : Option Content := none
  /-- The file of `transfer->fd` -/
  file : List UInt8 := []
  /-- How many descriptors there have been. -/
  created : Nat := 0
  /-- History: what was written to the property. -/
  values : List Content := []
  /-- History: what went out. -/
  out : List Delivery := []

namespace Flow

variable (f : Flow)

/-- Changes the transfer. -/
def withTransfer (g : Transfer → Transfer) : Flow := { f with transfer := g f.transfer }

/-- Something goes out. -/
def send (d : Delivery) : Flow := { f with out := f.out ++ [d] }

/-- `notify` -/
def notify (success : Bool) : Flow :=
  if f.window ∧ f.transfer.requestor.any Window.clientOwned then f.send (.notify success) else f

/-- `dixChangeWindowProperty` with `PropModeReplace` -/
def change (p : Content) : Flow := { f with property := some p, values := f.values ++ [p] }

/-- `release`; with the window of an incoming transfer goes its property. -/
def release : Flow :=
  if f.transfer.used = false then f
  else
    let own := f.transfer.incoming && f.transfer.requestor.isSome
    { f.withTransfer fun t => { t with used := false, timer := false, fd := none } with
      window := f.window && !own
      property := if own then none else f.property }

/-- The beginning of `fail` -/
def refuse (a : Answers) : Flow :=
  if f.transfer.incoming then
    if f.transfer.targets then f else f.send (.reply none)
  else if f.transfer.incremental = false then f.notify false
  else if f.window ∧ a.change then f.change (.piece f.transfer.target [])
  else f

/-- `fail` -/
def fail (a : Answers) : Flow := (f.refuse a).release

/-- `bytesFile` without bytes -/
def newFile (a : Answers) : Flow :=
  match a.file with
  | .failed => f.withTransfer fun t => { t with fd := none }
  | _ => { f.withTransfer fun t => { t with fd := some f.created } with file := [], created := f.created + 1 }

/-- `receive` of a piece of the content -/
def receivePiece (p : Content) (a : Answers) : Flow :=
  let f := if f.transfer.fd.isSome then f else f.newFile a
  if f.transfer.fd = none ∨ (p.size ≠ 0 ∧ a.pwrite = false) then f.fail a
  else
    let f := { f.withTransfer fun t => { t with size := t.size + p.size } with
      file := if p.size ≠ 0 then pwrite f.file p.data f.transfer.size else f.file }
    if f.transfer.incremental = false ∨ p.size = 0 then (f.send (.reply (some f.file))).release
    else { f with property := none }

/-- `receive` -/
def receive (initial : Bool) (a : Answers) : Flow :=
  match f.property with
  | none => f.fail a
  | some p =>
    if f.window = false ∨ f.transfer.generation ≠ f.generation then f.fail a
    else if initial ∧ p.type = .incr ∧ p.format = 32 ∧ p.size = 1 then
      if f.transfer.targets ∨ maxBytes < cardinal p.data then f.fail a
      else
        let f := f.newFile a
        if f.transfer.fd = none then f.fail a
        else { f.withTransfer fun t => { t with incremental := true } with property := none }
    else if f.transfer.targets then
      if p.type ≠ .atom ∨ p.format ≠ 32 ∨ 4096 < p.size then f.fail a else f.release
    else if p.format ≠ 8 ∨ f.transfer.room < p.size then f.fail a
    else f.receivePiece p a

/-- `transfer->offset += length` -/
def advance : Flow := f.withTransfer fun t => { t with offset := t.offset + chunk t }

/-- The end of `sendChunk`, behind `pread` -/
def put (bytes : List UInt8) (a : Answers) : Flow :=
  if a.change then f.advance.change (.piece f.transfer.target bytes) else f.advance

/-- `sendChunk` -/
def sendChunk (a : Answers) : Flow × Bool :=
  let length := chunk f.transfer
  let bytes := pread f.file length f.transfer.offset
  if f.window = false then (f.release, false)
  else if length ≠ 0 ∧ (a.pread = false ∨ bytes.length ≠ length) then (f.fail a, false)
  else if f.transfer.incremental ∧ (a.change = false ∨ length = 0) then ((f.put bytes a).release, a.change)
  else (f.put bytes a, a.change)

/-- `t->queued = FALSE` -/
def unqueued : Flow := f.withTransfer fun t => { t with queued := false }

/-- `propertyWork`, for a transfer that has the flag -/
def propertyWork (a : Answers) : Flow :=
  if f.transfer.incoming then f.unqueued.receive false a else (f.unqueued.sendChunk a).1

/-- `propertyChanged`: a client gave the property a new value, or deleted it. -/
def propertyChanged (newValue : Bool) (a : Answers) : Flow :=
  if f.transfer.used ∧ f.transfer.incremental ∧ f.transfer.queued = false ∧ f.transfer.incoming = newValue ∧ a.queued then
    f.withTransfer fun t => { t with queued := true }
  else f

/-- `LORIE_DATA_REPLY` with a large file -/
def startIncremental (a : Answers) : Flow :=
  let f := f.withTransfer fun t => { t with incremental := true }
  let f := (if a.change then f.change (.announcement f.transfer.size) else f).notify a.change
  if a.change then f else f.release

/-- `LORIE_DATA_REPLY` with a small file -/
def sendWhole (a : Answers) : Flow :=
  let r := f.sendChunk a
  (if r.1.transfer.used then r.1.notify r.2 else r.1).release

/-- `LORIE_DATA_REPLY`, behind the assignment of the descriptor -/
def deliver (a : Answers) : Flow :=
  if f.window = false then f.release
  else if chunkSize < f.transfer.size then f.startIncremental a
  else f.sendWhole a

/-- The assignment of the descriptor -/
def takeFile (content : List UInt8) : Flow :=
  { f.withTransfer fun t => { t with fd := some f.created, size := content.length } with
    file := content
    created := f.created + 1 }

/-- `LORIE_DATA_REPLY` -/
def reply (file : Option (List UInt8)) (a : Answers) : Flow :=
  match file with
  | some content => if maxBytes < content.length then f.fail a else (f.takeFile content).deliver a
  | none => f.fail a

/-- A window is destroyed, with its property. -/
def loseWindow : Flow := { f with window := false, property := none }

end Flow

/-! ## The model of the whole file -/

namespace Flow

variable {f : Flow} {s : State} {i : Fin maxPending}

/-- The transfer is that of a slot, as long as it is in use. -/
def Of (f : Flow) (s : State) (i : Fin maxPending) : Prop :=
  f.transfer.used = (s.transfers i).used ∧ (f.transfer.used = true → f.transfer = s.transfers i)

/-- What the functions of the whole file see of the contents. -/
structure Sees (f : Flow) (s : State) (i : Fin maxPending) : Prop where
  transfer : f.transfer = s.transfers i
  window : f.window = true ↔ s.HasWindow (s.transfers i).requestor
  generation : f.generation = (s.offers (s.transfers i).channel).generation
  created : f.created = s.created

/-- The answers that the contents give. -/
def answers (f : Flow) (a : Answers) : Answers :=
  { a with
    property := f.property.map Content.summary
    pread := a.pread && decide ((pread f.file (chunk f.transfer) f.transfer.offset).length = chunk f.transfer) }

theorem of_same (h : f.transfer = s.transfers i) : f.Of s i := ⟨congrArg _ h, fun _ => h⟩

theorem of_ended (hf : f.transfer.used = false) (hs : (s.transfers i).used = false) : f.Of s i := by
  refine ⟨hf.trans hs.symm, fun hu => ?_⟩
  rw [hf] at hu
  cases hu

theorem used_release (f : Flow) : f.release.transfer.used = false := by
  unfold release
  split
  · assumption
  · rfl

theorem used_fail (f : Flow) (a : Answers) : (f.fail a).transfer.used = false := used_release _

theorem fail_of (f : Flow) (a : Answers) (hu : (s.transfers i).used = true) : (f.fail a).Of (s.fail freeResource i) i := by
  refine of_ended (used_fail f a) ?_
  cases hin : (s.transfers i).incoming with
  | false =>
    rw [fail_outgoing freeResource hu hin]
    exact used_failOutgoing_self s i
  | true =>
    rw [fail_incoming freeResource hin]
    exact DataExchange.used_release freeing_freeResource _ i

theorem release_of (f : Flow) (s : State) (i : Fin maxPending) : f.release.Of (s.release freeResource i) i :=
  of_ended (used_release f) (DataExchange.used_release freeing_freeResource s i)

/-- The drag's own functions follow. -/
theorem Of.drag {t : State} (h : f.Of s i) (hd : DragStep s t) : f.Of t i := by
  unfold Of
  rw [transfers_drag hd]
  exact h

/-- `newFile` is `bytesFile`. -/
theorem newFile_bytesFile (hs : f.Sees s i) (a : Answers) :
    (f.newFile a).transfer = { s.transfers i with fd := (s.bytesFile 0 a.file).1 } := by
  have ht := hs.transfer
  have hc := hs.created
  unfold newFile State.bytesFile
  cases a.file with
  | failed => simp only [withTransfer, ht]
  | created => simp only [withTransfer, ht, hc, State.newFd]
  | unwritten => simp only [withTransfer, ht, hc, State.newFd, if_true]

theorem room_eq {t : Transfer} (h : t.size ≤ maxBytes) : t.room = maxBytes - t.size := by
  have hmax : maxBytes < 2 ^ 64 := by decide
  unfold Transfer.room
  omega

theorem receive_of (hs : f.Sees s i) (hu : (s.transfers i).used = true) (hsize : (s.transfers i).size ≤ maxBytes)
    (initial : Bool) (a : Answers) : (f.receive initial a).Of (s.receive i initial (f.answers a)) i := by
  have ht := hs.transfer
  have hfail : (f.fail a).Of (s.fail freeResource i) i := fail_of f a hu
  have hwindow : (f.window = false ∨ f.transfer.generation ≠ f.generation) ↔
      ¬s.HasWindow (s.transfers i).requestor ∨
        (s.transfers i).generation ≠ (s.offers (s.transfers i).channel).generation := by
    rw [← hs.window, Bool.not_eq_true, ht, hs.generation]
  unfold receive State.receive answers
  cases f.property with
  | none => exact hfail
  | some p =>
    dsimp only [Option.map_some, Content.summary]
    rw [ht] at hwindow
    simp only [ht, hwindow]
    split
    · exact hfail
    · split
      · split
        · exact hfail
        · have hnew := newFile_bytesFile hs a
          cases hb : s.bytesFile 0 a.file with
          | mk fd r =>
            rw [hb] at hnew
            dsimp only at hnew ⊢
            cases fd with
            | none =>
              rw [if_pos (congrArg Transfer.fd hnew)]
              exact fail_of _ a (by rw [transfers_setTransfer_self]; exact hu)
            | some fd =>
              rw [if_neg (by rw [hnew]; nofun)]
              refine of_same ?_
              rw [transfers_setTransfer_self]
              simp only [withTransfer, hnew]
      · split
        · split
          · exact hfail
          · exact release_of f _ i
        · rw [room_eq hsize]
          split
          · exact hfail
          · -- the file of the transfer, or a new one
            obtain ⟨fd, r, hr, hfile⟩ : ∃ fd r, (if (s.transfers i).fd.isSome then ((s.transfers i).fd, s)
                else s.bytesFile 0 a.file) = (fd, r) ∧
                (if f.transfer.fd.isSome then f else f.newFile a).transfer = { s.transfers i with fd := fd } := by
              rw [ht]
              split
              · exact ⟨_, _, rfl, ht⟩
              · exact ⟨_, _, rfl, newFile_bytesFile hs a⟩
            rw [hr]
            dsimp only
            unfold receivePiece
            generalize (if f.transfer.fd.isSome then f else f.newFile a) = g at hfile
            simp only [hfile]
            split
            · exact fail_of _ a (by rw [transfers_setTransfer_self]; exact hu)
            · simp only [withTransfer, hfile]
              split
              · exact release_of _ _ i
              · refine of_same ?_
                rw [transfers_setTransfer_self]

theorem put_advance (f : Flow) (bytes : List UInt8) (a : Answers) : (f.put bytes a).transfer = f.advance.transfer := by
  unfold put
  split <;> rfl

theorem sendChunk_of (hs : f.Sees s i) (hu : (s.transfers i).used = true) (a : Answers) :
    (f.sendChunk a).1.Of (s.sendChunk i (f.answers a)).1 i ∧ (f.sendChunk a).2 = (s.sendChunk i (f.answers a)).2 := by
  have ht := hs.transfer
  have hwindow : f.window = false ↔ ¬s.HasWindow (s.transfers i).requestor := by rw [← hs.window, Bool.not_eq_true]
  have hread : (chunk f.transfer ≠ 0 ∧ (a.pread = false ∨
      (pread f.file (chunk f.transfer) f.transfer.offset).length ≠ chunk f.transfer)) ↔
      (chunk (s.transfers i) ≠ 0 ∧ (f.answers a).pread = false) := by
    simp only [answers, ht, Bool.and_eq_false_iff, decide_eq_false_iff_not]
  have hput : ∀ bytes, (f.put bytes a).transfer = (s.advance i).transfers i := by
    intro bytes
    rw [put_advance, advance, withTransfer, State.advance, transfers_setTransfer_self, ht]
  have hchange : (f.answers a).change = a.change := rfl
  unfold sendChunk State.sendChunk
  dsimp only
  simp only [hwindow, hread, hchange]
  split
  · exact ⟨(release_of f s i).drag ((DragStep.refl _).selectionFinished _ _ _), rfl⟩
  · split
    · exact ⟨fail_of f a hu, rfl⟩
    · rw [ht]
      split
      · exact ⟨(release_of _ _ i).drag ((DragStep.refl _).selectionFinished _ _ _), rfl⟩
      · exact ⟨of_same (hput _), rfl⟩

theorem propertyWork_of (hs : f.Sees s i) (hu : (s.transfers i).used = true) (hon : s.enabled = true)
    (hsize : (s.transfers i).size ≤ maxBytes) (a : Answers) :
    (f.propertyWork a).Of (s.propertyWork i (s.transfers i).ticket (f.answers a)) i := by
  have hsees : f.unqueued.Sees (s.setTransfer i { s.transfers i with queued := false }) i := by
    refine ⟨?_, ?_, ?_, hs.created⟩
    · rw [transfers_setTransfer_self, unqueued, withTransfer, hs.transfer]
    · rw [transfers_setTransfer_self]
      exact hs.window
    · rw [transfers_setTransfer_self]
      exact hs.generation
  have hused : ((s.setTransfer i { s.transfers i with queued := false }).transfers i).used = true := by
    rw [transfers_setTransfer_self]
    exact hu
  rw [propertyWork_eq, if_pos ⟨hon, hu, rfl⟩]
  unfold propertyWork State.workOn
  dsimp only
  have hanswers : f.unqueued.answers a = f.answers a := rfl
  rw [hs.transfer, ← hanswers]
  split
  · refine receive_of hsees hused ?_ false a
    rw [transfers_setTransfer_self]
    exact hsize
  · exact (sendChunk_of hsees hused a).1

/-- The callback of a change that the transfer waits for -/
theorem propertyChanged_of (hs : f.Sees s i) (hon : s.enabled = true) (a : Answers) :
    (f.propertyChanged (s.transfers i).incoming a).Of (s.propertyChanged i a) i := by
  have ht := hs.transfer
  unfold propertyChanged State.propertyChanged
  dsimp only
  rw [ht]
  split
  · rename_i h
    rw [if_pos ⟨hon, h.1, h.2.1, h.2.2.1, h.2.2.2.2⟩]
    refine of_same ?_
    simp only [withTransfer, ht, transfers_setTransfer_self]
  · rename_i h
    rw [if_neg fun hc => h ⟨hc.2.1, hc.2.2.1, hc.2.2.2.1, rfl, hc.2.2.2.2⟩]
    exact of_same ht

theorem transfer_notify (f : Flow) (success : Bool) : (f.notify success).transfer = f.transfer := by
  unfold notify
  split <;> rfl

theorem startIncremental_of (ht : f.transfer = s.transfers i) {a b : Answers} (hc : b.change = a.change) :
    (f.startIncremental a).Of (s.startIncremental i b) i := by
  unfold startIncremental State.startIncremental
  dsimp only
  rw [hc]
  cases a.change with
  | true =>
    refine of_same ?_
    simp only [if_true, transfer_notify]
    show { f.transfer with incremental := true } = (s.setTransfer i { s.transfers i with incremental := true }).transfers i
    rw [transfers_setTransfer_self, ht]
  | false => exact release_of _ _ i

theorem deliver_of (ht : f.transfer = s.transfers i) (hw : f.window = true ↔ s.HasWindow (s.transfers i).requestor)
    {a b : Answers} (hc : b.change = a.change) : (f.deliver a).Of (s.deliver i b) i := by
  unfold deliver State.deliver
  rw [← ht] at hw ⊢
  simp only [← hw, Bool.not_eq_true]
  split
  · exact release_of f s i
  · split
    · exact startIncremental_of ht hc
    · refine of_ended (used_release _) ?_
      unfold State.sendWhole
      rw [transfers_drag ((DragStep.refl _).selectionFinished _ _ _)]
      exact DataExchange.used_release freeing_freeResource _ i

/-- `LORIE_DATA_REPLY`, with the descriptor that came with it -/
theorem reply_of (hs : f.Sees s i) (hu : (s.transfers i).used = true) (content : List UInt8) (a : Answers) :
    (f.reply (some content) a).Of
      ({ s with created := s.created + 1 }.replyTo i (some s.created) { f.answers a with stat := some content.length }) i := by
  unfold reply State.replyTo
  dsimp only
  split
  · exact fail_of f a hu
  · refine deliver_of ?_ ?_ rfl
    · rw [transfers_setTransfer_self, takeFile, withTransfer, hs.transfer, hs.created]
    · rw [transfers_setTransfer_self]
      exact hs.window

end Flow

/-! ## A transfer to a client -/

/-- What the parts of `fail` and `release` outside the transfer do to it: its deadline or a new owner (`fail`), a reset
(`release`), the end of its window, or another offer. -/
inductive Mishap where
  | failed (a : Answers)
  | released
  | lost
  | outdated (generation : Nat)

/-- Something happens to a transfer. -/
def Flow.suffer (f : Flow) : Mishap → Flow
  | .failed a => if f.transfer.used then f.fail a else f
  | .released => f.release
  | .lost => f.loseWindow
  | .outdated generation => { f with generation := generation }

/-- A transfer to a client, and what the client read. -/
structure Sending where
  flow : Flow
  got : List Content := []

namespace Sending

/-- As `convert` leaves it, when the host is asked: the property may hold anything. -/
structure Starts (s : Sending) : Prop where
  used : s.flow.transfer.used = true
  incoming : s.flow.transfer.incoming = false
  incremental : s.flow.transfer.incremental = false
  queued : s.flow.transfer.queued = false
  offset : s.flow.transfer.offset = 0
  window : s.flow.window = true
  history : s.flow.values = [] ∧ s.flow.out = [] ∧ s.got = []

inductive Action where
  /-- `LORIE_DATA_REPLY`, the one answer of the host -/
  | reply (file : Option (List UInt8)) (a : Answers)
  /-- The client reads the property and deletes it. -/
  | read (a : Answers)
  | work (a : Answers)
  | suffer (m : Mishap)

/-- The client reads what it was notified of. -/
def step (s : Sending) : Action → Option Sending
  | .reply file a =>
    if s.flow.transfer.used ∧ s.flow.transfer.incremental = false then some { s with flow := s.flow.reply file a } else none
  | .read a =>
    match s.flow.property with
    | some p =>
      if .notify true ∈ s.flow.out then
        some ⟨{ s.flow with property := none }.propertyChanged false a, s.got ++ [p]⟩
      else none
    | none => none
  | .work a =>
    if s.flow.transfer.used ∧ s.flow.transfer.queued then some { s with flow := s.flow.propertyWork a } else none
  | .suffer m => some { s with flow := s.flow.suffer m }

end Sending

/-! ## A transfer from an owner -/

/-- How far the owner is. -/
inductive Phase where
  | asked
  | direct
  | announced
  /-- The announcement was told, and no increment was written. -/
  | told
  | appending
  | finished
  deriving DecidableEq, Repr

/-- A transfer from an owner -/
structure Receiving where
  flow : Flow
  phase : Phase := .asked

namespace Receiving

/-- As `request` leaves it. -/
structure Starts (r : Receiving) : Prop where
  used : r.flow.transfer.used = true
  incoming : r.flow.transfer.incoming = true
  targets : r.flow.transfer.targets = false
  requestor : r.flow.transfer.requestor.isSome = true
  incremental : r.flow.transfer.incremental = false
  queued : r.flow.transfer.queued = false
  fd : r.flow.transfer.fd = none
  size : r.flow.transfer.size = 0
  generation : r.flow.transfer.generation = r.flow.generation
  window : r.flow.window = true
  contents : r.flow.property = none ∧ r.flow.file = []
  history : r.flow.values = [] ∧ r.flow.out = [] ∧ r.phase = .asked

inductive Action where
  /-- The owner writes the whole value. -/
  | write (type : Atom) (data : List UInt8)
  /-- The owner announces an incremental transfer of at least `n` bytes. -/
  | announce (n : Nat)
  /-- `SelectionNotify` with the property -/
  | notify (a : Answers)
  /-- `SelectionNotify` without it -/
  | decline (a : Answers)
  /-- The owner writes an increment, or appends it to one that was not read, of the same type. -/
  | append (type : Atom) (data : List UInt8) (a : Answers)
  /-- The owner ends the transfer, when the last increment was read. -/
  | finish (type : Atom) (a : Answers)
  | work (a : Answers)
  | suffer (m : Mishap)

/-- What the property holds. -/
def unread (r : Receiving) : List UInt8 := (r.flow.property.map Content.data).getD []

/-- A change of the property by the owner -/
def put (r : Receiving) (p data : Content) : Flow :=
  { r.flow with property := some p, values := r.flow.values ++ [data] }

def step (r : Receiving) : Action → Option Receiving
  | .write type data =>
    if r.flow.window ∧ r.phase = .asked then some ⟨r.put ⟨type, 8, data⟩ ⟨type, 8, data⟩, .direct⟩ else none
  | .announce n =>
    if r.flow.window ∧ r.phase = .asked ∧ n < 2 ^ 32 then
      some ⟨r.put (.announcement n) (.announcement n), .announced⟩
    else none
  | .notify a =>
    if r.flow.transfer.used then
      match r.phase with
      | .direct => some ⟨r.flow.receive true a, .finished⟩
      | .announced => some ⟨r.flow.receive true a, .told⟩
      | _ => none
    else none
  | .decline a =>
    if r.flow.transfer.used ∧ r.phase = .asked then some { r with flow := r.flow.fail a } else none
  | .append type data a =>
    if r.flow.window ∧ data ≠ [] ∧ (∀ p ∈ r.flow.property, p.type = type) ∧
        (r.phase = .appending ∨ (r.phase = .told ∧ r.flow.property = none)) then
      some ⟨(r.put ⟨type, 8, r.unread ++ data⟩ ⟨type, 8, data⟩).propertyChanged true a, .appending⟩
    else none
  | .finish type a =>
    if r.flow.window ∧ r.flow.property = none ∧ (r.phase = .appending ∨ r.phase = .told) then
      some ⟨(r.put ⟨type, 8, []⟩ ⟨type, 8, []⟩).propertyChanged true a, .finished⟩
    else none
  | .work a =>
    if r.flow.transfer.used ∧ r.flow.transfer.queued then some { r with flow := r.flow.propertyWork a } else none
  | .suffer m => some { r with flow := r.flow.suffer m }

end Receiving

end Lorie.DataExchange
