import Lorie.Lib.Ledger
import Lorie.Lib.Transition
import Lorie.Present.Copy
import Mathlib.Data.List.Nodup
import Mathlib.Algebra.Ring.Int.Defs

/-!
# What offloaded copies hold

The counters and the references that `lorieTryScheduleGpuCopy` takes for a copy and `lorieGpuCopyAck` gives back, over
any calls of `present_execute_copy`, `present_vblank_scrap`, `present_vblank_destroy` and `lorieRecheckGpuCopies`.

- `lorieTryScheduleGpuCopy`, `lorieGpuCopyAck`: the functions that take and give back;
- `present_execute_copy`, `present_vblank_scrap`, `present_vblank_destroy`: where `gpu_copy_pending` is tested and
  cleared; the answers of `queue_vblank`, `lorieGpuCopyIsDone` and the renderer's state are arguments of the call;
- `lorieRecheckGpuCopies`: for each pending vblank of the queue, whatever calls `present_re_execute` makes;
- `Ledger`: the counters against the history of the scheduled copies that are not acknowledged;
- `Tied`: every such copy is remembered by one vblank, and every pending vblank remembers one;
- `copies_balanced`: both hold in every run.

Pixmaps, vblanks and buffers are names that are used once. `priv->buffer` of a pixmap is set when the pixmap is made.
The counters are integers: none of them wraps before `2 ^ 31` vblanks are pending.
-/

namespace Lorie.Present.Accounting

open Lorie.Lib

/-! ## The state -/

/-- What the copy reads and writes of a `present_vblank`, zeroed when it is allocated -/
structure Vblank where
  pixmap : Option Nat
  update : Option RegionRec
  exec_msc : UInt64
  queued : Bool
  gpu_copy_pending : Bool
  gpu_copy_serial : Nat
  /-- `NULL` for the root -/
  gpu_copy_dst_buffer : Option Nat

/-- A copy that was scheduled, with the vblank it was scheduled for -/
structure Copy where
  serial : Nat
  vblank : Nat
  source : Nat
  /-- The destination buffer; `none` is the root. -/
  target : Option Nat
  deriving DecidableEq, Repr

structure State where
  /-- `pScreenPtr->devPrivate` -/
  devPrivate : Nat
  gpuCopySerialCounter : Nat
  rootGpuCopyPending : Int
  /-- `gpuCopyPending` of a buffer -/
  gpuCopyPending : Nat → Int
  /-- `refcount` of a buffer -/
  refcount : Nat → Int
  vblanks : Nat → Option Vblank
  /-- The vblanks allocated so far -/
  created : Nat
  /-- The references of a buffer that others hold -/
  held : Nat → Nat
  /-- History: the copies scheduled, in order -/
  scheduled : List Copy
  /-- History: the serials of the calls of `lorieGpuCopyAck`, in order -/
  acks : List Nat
  /-- History: the freed vblanks, each with the acknowledgements made by then -/
  freed : List (Nat × List Nat)

/-- Before anything is presented -/
def State.init (devPrivate : Nat) : State where
  devPrivate := devPrivate
  gpuCopySerialCounter := 0
  rootGpuCopyPending := 0
  gpuCopyPending _ := 0
  refcount _ := 0
  vblanks _ := none
  created := 0
  held _ := 0
  scheduled := []
  acks := []
  freed := []

namespace State

/-- The copies that are scheduled and not acknowledged -/
def outstanding (s : State) : List Copy := Lib.outstanding Copy.serial s.scheduled s.acks

/-! ## Buffers -/

/-- `LorieBuffer_gpuCopyPendingInc` -/
def gpuCopyPendingInc (s : State) : Option Nat → State
  | some b => { s with gpuCopyPending := fun x => s.gpuCopyPending x + if b = x then 1 else 0 }
  | none => s

/-- `LorieBuffer_gpuCopyPendingDec` -/
def gpuCopyPendingDec (s : State) : Option Nat → State
  | some b => { s with gpuCopyPending := fun x => s.gpuCopyPending x - if b = x then 1 else 0 }
  | none => s

/-- `LorieBuffer_acquire` -/
def acquire (s : State) : Option Nat → State
  | some b => { s with refcount := fun x => s.refcount x + if b = x then 1 else 0 }
  | none => s

/-- `LorieBuffer_release` -/
def release (s : State) : Option Nat → State
  | some b => { s with refcount := fun x => s.refcount x - if b = x then 1 else 0 }
  | none => s

end State

/-! ## Taking and giving back -/

/-- What an execution is told by `queue_vblank`, `lorieGpuCopyIsDone`, the renderer's state and `GetWindowPixmap` -/
structure Answers where
  crtc_msc : UInt64
  /-- `queue_vblank` of a vblank whose flip failed -/
  retryQueued : Bool
  gpuCopyStalled : Bool
  /-- `lorieGpuCopyIsDone`, before polling -/
  done : Bool
  /-- `queue_vblank`, to poll -/
  pollQueued : Bool
  /-- `lorieGpuCopyIsDone`, after the acknowledgement -/
  doneAfter : Bool
  /-- `GetWindowPixmap(window)` -/
  gpuCopyDst : Nat
  /-- Why `lorieTryScheduleGpuCopy` gives up when both pixmaps have buffers -/
  fallback : Option GpuFallback
  /-- `queue_vblank`, after the copy was scheduled -/
  requeued : Bool

section Functions

-- `priv->buffer` of a pixmap
variable (bufferOf : Nat → Option Nat)

namespace State

/-- What `lorieTryScheduleGpuCopy` takes and counts for a copy -/
def takeCopy (s : State) (vblank srcBuffer : Nat) (out_dst_buffer : Option Nat) : State :=
  let s := (s.acquire (some srcBuffer)).gpuCopyPendingInc (some srcBuffer)
  let s :=
    match out_dst_buffer with
    | some dstBuffer => (s.acquire (some dstBuffer)).gpuCopyPendingInc (some dstBuffer)
    | none => { s with rootGpuCopyPending := s.rootGpuCopyPending + 1 }
  { s with
    gpuCopySerialCounter := s.gpuCopySerialCounter + 1
    scheduled := s.scheduled ++ [⟨s.gpuCopySerialCounter + 1, vblank, srcBuffer, out_dst_buffer⟩] }

/-- `lorieTryScheduleGpuCopy`: the state, `*out_serial` and `*out_dst_buffer`, or why the copy is left to the CPU -/
def lorieTryScheduleGpuCopy (s : State) (vblank pixmap dst : Nat) (fallback : Option GpuFallback) :
    Except GpuFallback (State × Nat × Option Nat) :=
  match fallback, bufferOf pixmap, bufferOf dst with
  | some reason, _, _ => .error reason
  | none, none, _ => .error .sourceNotAhb
  | none, some _, none => .error .destinationNotAhb
  | none, some srcBuffer, some dstBuffer =>
    let dstIsRoot := dst = s.devPrivate
    let out_dst_buffer := if dstIsRoot then none else some dstBuffer
    .ok (s.takeCopy vblank srcBuffer out_dst_buffer, s.gpuCopySerialCounter + 1, out_dst_buffer)

/-- `lorieGpuCopyAck`, called for the copy with the serial -/
def lorieGpuCopyAck (s : State) (pixmap dst_buffer : Option Nat) (serial : Nat) : State :=
  let buffer := pixmap.bind bufferOf
  let s := s.gpuCopyPendingDec buffer
  let s :=
    match dst_buffer with
    | some dst => s.gpuCopyPendingDec (some dst)
    | none => { s with rootGpuCopyPending := s.rootGpuCopyPending - 1 }
  let s := (s.release buffer).release dst_buffer
  { s with acks := s.acks ++ [serial] }

/-- A vblank is written. -/
def setVblank (s : State) (n : Nat) (v : Vblank) : State := { s with vblanks := Function.update s.vblanks n (some v) }

/-! ## Where `gpu_copy_pending` is tested -/

/-- The copy of a pending vblank is acknowledged, and `gpu_copy_pending` cleared. -/
def ackPending (s : State) (n : Nat) (v : Vblank) : State :=
  (s.lorieGpuCopyAck bufferOf v.pixmap v.gpu_copy_dst_buffer v.gpu_copy_serial).setVblank n
    { v with gpu_copy_pending := false }

/-- `present_vblank_scrap` -/
def present_vblank_scrap (s : State) (n : Nat) (v : Vblank) : State :=
  if v.gpu_copy_pending then
    (s.ackPending bufferOf n v).setVblank n { v with gpu_copy_pending := false, pixmap := none }
  else s.setVblank n { v with pixmap := none }

/-- A vblank is unlinked and freed. -/
def freeVblank (s : State) (n : Nat) : State :=
  { s with vblanks := Function.update s.vblanks n none, freed := s.freed ++ [(n, s.acks)] }

/-- `present_vblank_destroy` -/
def present_vblank_destroy (s : State) (n : Nat) (v : Vblank) : State :=
  if v.gpu_copy_pending then (s.ackPending bufferOf n v).freeVblank n else s.freeVblank n

/-- `present_execute_copy` from `lorieTryScheduleGpuCopy` on -/
def scheduleCopy (s : State) (n pixmap : Nat) (v : Vblank) (a : Answers) : State :=
  match s.lorieTryScheduleGpuCopy bufferOf n pixmap a.gpuCopyDst a.fallback with
  | .ok (s', serial, dst_buffer) =>
    let v' := { v with update := none, gpu_copy_serial := serial, gpu_copy_dst_buffer := dst_buffer }
    if a.requeued then s'.setVblank n { v' with gpu_copy_pending := true, queued := true }
    else (s'.lorieGpuCopyAck bufferOf (some pixmap) dst_buffer serial).setVblank n v'
  | .error _ => s.setVblank n { v with update := none }

/-- `present_execute_copy` -/
def present_execute_copy (s : State) (n pixmap : Nat) (v : Vblank) (a : Answers) : State :=
  if v.exec_msc = a.crtc_msc + 1 ∧ a.retryQueued then s.setVblank n { v with queued := true }
  else if v.gpu_copy_pending ∧ !a.done ∧ !a.gpuCopyStalled ∧ a.pollQueued then s.setVblank n { v with queued := true }
  else if v.gpu_copy_pending then
    let s := s.ackPending bufferOf n v
    if a.gpuCopyStalled ∧ !a.doneAfter then s.present_vblank_scrap bufferOf n { v with gpu_copy_pending := false }
    else s
  else s.scheduleCopy bufferOf n pixmap v a

end State

/-- The calls that `present_re_execute` makes on a vblank -/
inductive Call where
  | executeCopy (a : Answers)
  | scrap
  | destroy

namespace State

/-- A call on a vblank; only one with a pixmap is executed or scrapped. -/
def call (s : State) (n : Nat) : Call → Option State
  | .executeCopy a => (s.vblanks n).bind fun v => v.pixmap.map fun p => s.present_execute_copy bufferOf n p v a
  | .scrap => (s.vblanks n).bind fun v => v.pixmap.map fun _ => s.present_vblank_scrap bufferOf n v
  | .destroy => (s.vblanks n).map fun v => s.present_vblank_destroy bufferOf n v

/-- `lorieRecheckGpuCopies` over `present_exec_queue` -/
def lorieRecheckGpuCopies (lorieGpuCopyIsDone : Nat → Bool) (gpuCopyStalled : Bool)
    (present_re_execute : Nat → List Call) : List Nat → State → Option State
  | [], s => some s
  | n :: queue, s => (s.vblanks n).bind fun v =>
    if v.gpu_copy_pending ∧ (lorieGpuCopyIsDone v.gpu_copy_serial ∨ gpuCopyStalled) then
      (exec (fun s c => s.call bufferOf n c) s (present_re_execute n)).bind
        (lorieRecheckGpuCopies lorieGpuCopyIsDone gpuCopyStalled present_re_execute queue)
    else lorieRecheckGpuCopies lorieGpuCopyIsDone gpuCopyStalled present_re_execute queue s

end State

/-! ## Steps -/

inductive Action where
  /-- A vblank is allocated. -/
  | create (pixmap : Option Nat) (update : Option RegionRec) (exec_msc : UInt64)
  /-- The Present extension writes what the copy only reads. -/
  | write (n : Nat) (update : Option RegionRec) (exec_msc : UInt64) (queued : Bool)
  | call (n : Nat) (c : Call)
  | recheck (present_exec_queue : List Nat) (lorieGpuCopyIsDone : Nat → Bool) (gpuCopyStalled : Bool)
      (present_re_execute : Nat → List Call)
  /-- The screen gets another pixmap. -/
  | resize (pixmap : Nat)
  /-- Somebody else takes a reference of a buffer, the first of which makes it. -/
  | hold (b : Nat)
  /-- Somebody else drops a reference. -/
  | drop (b : Nat)

namespace State

def step (s : State) : Action → Option State
  | .create pixmap update exec_msc =>
    some { s.setVblank s.created ⟨pixmap, update, exec_msc, false, false, 0, none⟩ with created := s.created + 1 }
  | .write n update exec_msc queued =>
    (s.vblanks n).map fun v => s.setVblank n { v with update := update, exec_msc := exec_msc, queued := queued }
  | .call n c => s.call bufferOf n c
  | .recheck queue done stalled reExecute => s.lorieRecheckGpuCopies bufferOf done stalled reExecute queue
  | .resize pixmap => some { s with devPrivate := pixmap }
  | .hold b => some { s.acquire (some b) with held := Function.update s.held b (s.held b + 1) }
  | .drop b =>
    if s.held b = 0 then none
    else some { s.release (some b) with held := Function.update s.held b (s.held b - 1) }

end State

end Functions

/-! ## The counters -/

namespace State

section Effects

variable {bufferOf : Nat → Option Nat} (s : State) (n src : Nat) (dst pixmap : Option Nat) (serial : Nat)

theorem takeCopy_eq : s.takeCopy n src dst =
    { s with
      rootGpuCopyPending := s.rootGpuCopyPending + if dst = none then 1 else 0
      gpuCopyPending := fun b => s.gpuCopyPending b + (if src = b then 1 else 0) + if dst = some b then 1 else 0
      refcount := fun b => s.refcount b + (if src = b then 1 else 0) + if dst = some b then 1 else 0
      gpuCopySerialCounter := s.gpuCopySerialCounter + 1
      scheduled := s.scheduled ++ [⟨s.gpuCopySerialCounter + 1, n, src, dst⟩] } := by
  cases dst <;> simp [takeCopy, acquire, gpuCopyPendingInc]

theorem lorieGpuCopyAck_eq : s.lorieGpuCopyAck bufferOf pixmap dst serial =
    { s with
      rootGpuCopyPending := s.rootGpuCopyPending - if dst = none then 1 else 0
      gpuCopyPending := fun b =>
        s.gpuCopyPending b - (if pixmap.bind bufferOf = some b then 1 else 0) - if dst = some b then 1 else 0
      refcount := fun b => s.refcount b - (if pixmap.bind bufferOf = some b then 1 else 0) - if dst = some b then 1 else 0
      acks := s.acks ++ [serial] } := by
  cases h : pixmap.bind bufferOf <;> cases dst <;> simp [lorieGpuCopyAck, h, gpuCopyPendingDec, release]

@[simp] theorem takeCopy_vblanks : (s.takeCopy n src dst).vblanks = s.vblanks := by rw [takeCopy_eq]

@[simp] theorem takeCopy_created : (s.takeCopy n src dst).created = s.created := by rw [takeCopy_eq]

@[simp] theorem takeCopy_acks : (s.takeCopy n src dst).acks = s.acks := by rw [takeCopy_eq]

@[simp] theorem takeCopy_freed : (s.takeCopy n src dst).freed = s.freed := by rw [takeCopy_eq]

@[simp] theorem takeCopy_scheduled :
    (s.takeCopy n src dst).scheduled = s.scheduled ++ [⟨s.gpuCopySerialCounter + 1, n, src, dst⟩] := by
  rw [takeCopy_eq]

@[simp] theorem lorieGpuCopyAck_vblanks : (s.lorieGpuCopyAck bufferOf pixmap dst serial).vblanks = s.vblanks := by
  rw [lorieGpuCopyAck_eq]

@[simp] theorem lorieGpuCopyAck_created : (s.lorieGpuCopyAck bufferOf pixmap dst serial).created = s.created := by
  rw [lorieGpuCopyAck_eq]

@[simp] theorem lorieGpuCopyAck_freed : (s.lorieGpuCopyAck bufferOf pixmap dst serial).freed = s.freed := by
  rw [lorieGpuCopyAck_eq]

@[simp] theorem lorieGpuCopyAck_scheduled :
    (s.lorieGpuCopyAck bufferOf pixmap dst serial).scheduled = s.scheduled := by
  rw [lorieGpuCopyAck_eq]

@[simp] theorem lorieGpuCopyAck_acks :
    (s.lorieGpuCopyAck bufferOf pixmap dst serial).acks = s.acks ++ [serial] := by
  rw [lorieGpuCopyAck_eq]

theorem lorieGpuCopyAck_root : (s.lorieGpuCopyAck bufferOf pixmap dst serial).rootGpuCopyPending =
    s.rootGpuCopyPending - if dst = none then 1 else 0 := by
  rw [lorieGpuCopyAck_eq]

theorem lorieGpuCopyAck_gpuCopyPending (b : Nat) : (s.lorieGpuCopyAck bufferOf pixmap dst serial).gpuCopyPending b =
    s.gpuCopyPending b - (if pixmap.bind bufferOf = some b then 1 else 0) - if dst = some b then 1 else 0 := by
  rw [lorieGpuCopyAck_eq]

end Effects

/-- The copies that target the root -/
def roots (copies : List Copy) : Nat := copies.countP (·.target = none)

/-- The uses of a buffer, as a source and as a destination other than the root -/
def uses (b : Nat) (copies : List Copy) : Nat := copies.countP (·.source = b) + copies.countP (·.target = some b)

@[simp] theorem roots_cons (c : Copy) (copies : List Copy) :
    roots (c :: copies) = roots copies + if c.target = none then 1 else 0 := by
  simp [roots, List.countP_cons]

@[simp] theorem uses_cons (b : Nat) (c : Copy) (copies : List Copy) :
    uses b (c :: copies) = uses b copies + (if c.source = b then 1 else 0) + if c.target = some b then 1 else 0 := by
  simp only [uses, List.countP_cons, decide_eq_true_eq]
  omega

theorem roots_perm {l l' : List Copy} (h : l.Perm l') : roots l = roots l' := h.countP_eq _

theorem uses_perm (b : Nat) {l l' : List Copy} (h : l.Perm l') : uses b l = uses b l' := by
  rw [uses, uses, h.countP_eq, h.countP_eq]

/-- The counters against the history -/
structure Ledger (s : State) : Prop where
  serials : (s.scheduled.map Copy.serial).Nodup
  counter : ∀ c ∈ s.scheduled, c.serial ≤ s.gpuCopySerialCounter
  acked_once : s.acks.Nodup
  acked : ∀ k ∈ s.acks, ∃ c ∈ s.scheduled, c.serial = k
  root : s.rootGpuCopyPending = roots s.outstanding
  buffers : ∀ b, s.gpuCopyPending b = uses b s.outstanding
  references : ∀ b, s.refcount b = s.held b + s.gpuCopyPending b

theorem Ledger.init (p : Nat) : (init p).Ledger where
  serials := .nil
  counter _ h := absurd h List.not_mem_nil
  acked_once := .nil
  acked _ h := absurd h List.not_mem_nil
  root := rfl
  buffers _ := rfl
  references _ := rfl

section Ledger

variable {bufferOf : Nat → Option Nat} {s : State}

/-- The serial of the next copy is new. -/
theorem Ledger.fresh (h : s.Ledger) : s.gpuCopySerialCounter + 1 ∉ s.acks := by
  intro hk
  obtain ⟨c, hc, heq⟩ := h.acked _ hk
  have hle := h.counter c hc
  omega

/-- A new copy is outstanding. -/
theorem outstanding_takeCopy (h : s.Ledger) (n src : Nat) (dst : Option Nat) :
    (s.takeCopy n src dst).outstanding = s.outstanding ++ [⟨s.gpuCopySerialCounter + 1, n, src, dst⟩] := by
  rw [outstanding, takeCopy_scheduled, takeCopy_acks]
  exact outstanding_issue h.fresh

/-- What is taken for a copy is what the ledger counts for it. -/
theorem Ledger.takeCopy (h : s.Ledger) (n src : Nat) (dst : Option Nat) : (s.takeCopy n src dst).Ledger where
  serials := by
    rw [takeCopy_scheduled, List.map_append]
    refine List.Nodup.append h.serials (List.nodup_singleton _) ?_
    rw [List.map_singleton, List.disjoint_singleton]
    intro hmem
    obtain ⟨c, hc, heq⟩ := List.mem_map.1 hmem
    have hle := h.counter c hc
    simp only at heq
    omega
  counter c hc := by
    rw [takeCopy_scheduled] at hc
    rw [takeCopy_eq]
    rcases List.mem_append.1 hc with hc | hc
    · exact Nat.le_succ_of_le (h.counter c hc)
    · rw [List.mem_singleton.1 hc]
  acked_once := by
    rw [takeCopy_acks]
    exact h.acked_once
  acked k hk := by
    rw [takeCopy_acks] at hk
    rw [takeCopy_scheduled]
    obtain ⟨c, hc, heq⟩ := h.acked k hk
    exact ⟨c, List.mem_append_left _ hc, heq⟩
  root := by
    rw [outstanding_takeCopy h, roots_perm List.perm_append_comm, List.singleton_append, roots_cons, takeCopy_eq]
    simp only [h.root, Nat.cast_add, Nat.cast_ite, Nat.cast_one, Nat.cast_zero]
  buffers b := by
    rw [outstanding_takeCopy h, uses_perm b List.perm_append_comm, List.singleton_append, uses_cons, takeCopy_eq]
    simp only [h.buffers b, Nat.cast_add, Nat.cast_ite, Nat.cast_one, Nat.cast_zero]
  references b := by
    have href := h.references b
    rw [takeCopy_eq]
    simp only
    omega

/-- The copies outstanding after an acknowledgement -/
theorem mem_outstanding_ack {pixmap dst : Option Nat} {k : Nat} {c : Copy} :
    c ∈ (s.lorieGpuCopyAck bufferOf pixmap dst k).outstanding ↔ c ∈ s.outstanding ∧ c.serial ≠ k := by
  simp only [outstanding, mem_outstanding, lorieGpuCopyAck_scheduled, lorieGpuCopyAck_acks, List.mem_append,
    List.mem_singleton, not_or, ne_eq, and_assoc]

/-- What is given back for an outstanding copy is what the ledger counts for it. -/
theorem Ledger.ack (h : s.Ledger) {c : Copy} (hc : c ∈ s.outstanding) {pixmap : Option Nat}
    (hp : pixmap.bind bufferOf = some c.source) : (s.lorieGpuCopyAck bufferOf pixmap c.target c.serial).Ledger := by
  obtain ⟨hmem, hopen⟩ := mem_outstanding.1 hc
  have hperm : s.outstanding.Perm (c :: (s.lorieGpuCopyAck bufferOf pixmap c.target c.serial).outstanding) := by
    rw [outstanding, outstanding, lorieGpuCopyAck_scheduled, lorieGpuCopyAck_acks]
    exact outstanding_settle h.serials hc
  constructor
  case serials =>
    rw [lorieGpuCopyAck_scheduled]
    exact h.serials
  case counter =>
    rw [lorieGpuCopyAck_eq]
    exact h.counter
  case acked_once =>
    rw [lorieGpuCopyAck_acks]
    exact List.Nodup.append h.acked_once (List.nodup_singleton _) (List.disjoint_singleton.2 hopen)
  case acked =>
    intro k hk
    rw [lorieGpuCopyAck_acks] at hk
    rw [lorieGpuCopyAck_scheduled]
    rcases List.mem_append.1 hk with hk | hk
    · exact h.acked k hk
    · exact ⟨c, hmem, (List.mem_singleton.1 hk).symm⟩
  case root =>
    have hroot := h.root
    rw [roots_perm hperm, roots_cons] at hroot
    rw [lorieGpuCopyAck_root, hroot]
    simp only [Nat.cast_add, Nat.cast_ite, Nat.cast_one, Nat.cast_zero]
    omega
  case buffers =>
    intro b
    have hbuf := h.buffers b
    rw [uses_perm b hperm, uses_cons] at hbuf
    rw [lorieGpuCopyAck_gpuCopyPending, hbuf]
    simp only [hp, Option.some.injEq, Nat.cast_add, Nat.cast_ite, Nat.cast_one, Nat.cast_zero]
    omega
  case references =>
    intro b
    have href := h.references b
    rw [lorieGpuCopyAck_eq]
    simp only
    omega

end Ledger

end State

/-! ## The vblanks -/

section Vblanks

variable {bufferOf : Nat → Option Nat}

/-- A pending vblank keeps what the acknowledgement of its copy needs. -/
structure Vblank.Remembers (bufferOf : Nat → Option Nat) (v : Vblank) (c : Copy) : Prop where
  gpu_copy_pending : v.gpu_copy_pending = true
  gpu_copy_serial : v.gpu_copy_serial = c.serial
  gpu_copy_dst_buffer : v.gpu_copy_dst_buffer = c.target
  pixmap : v.pixmap.bind bufferOf = some c.source

namespace State

/-- The pending vblanks against the outstanding copies -/
structure Tied (bufferOf : Nat → Option Nat) (s : State) : Prop where
  remembered : ∀ c ∈ s.outstanding, ∃ v, s.vblanks c.vblank = some v ∧ v.Remembers bufferOf c
  pending : ∀ n v, s.vblanks n = some v → v.gpu_copy_pending = true → ∃ c ∈ s.outstanding, c.vblank = n

/-- Which vblanks are live; every copy of a freed one was acknowledged by then. -/
structure Lifetimes (s : State) : Prop where
  fresh : ∀ n, s.created ≤ n → s.vblanks n = none
  freed : ∀ f ∈ s.freed, f.1 < s.created ∧ s.vblanks f.1 = none ∧ f.2 <+: s.acks ∧
    ∀ c ∈ s.scheduled, c.vblank = f.1 → c.serial ∈ f.2

structure Inv (bufferOf : Nat → Option Nat) (s : State) : Prop where
  ledger : s.Ledger
  tied : s.Tied bufferOf
  lifetimes : s.Lifetimes

theorem Inv.init (p : Nat) : (init p).Inv bufferOf where
  ledger := .init p
  tied := ⟨fun _ h => absurd h List.not_mem_nil, fun _ _ h => absurd h (Option.some_ne_none _).symm⟩
  lifetimes := ⟨fun _ _ => rfl, fun _ h => absurd h List.not_mem_nil⟩

section Lifetimes

variable {s t : State} {n : Nat} {v w : Vblank}

/-- No vblank is made, and copies are scheduled for live vblanks only. -/
theorem Lifetimes.grow (h : s.Lifetimes) (hcreated : t.created = s.created) (hfreed : t.freed = s.freed)
    (hvblanks : ∀ m, s.vblanks m = none → t.vblanks m = none) (hacks : s.acks <+: t.acks)
    (hscheduled : ∀ c ∈ t.scheduled, c ∈ s.scheduled ∨ s.vblanks c.vblank ≠ none) : t.Lifetimes := by
  refine ⟨fun m hm => hvblanks m (h.fresh m (hcreated ▸ hm)), fun f hf => ?_⟩
  obtain ⟨hlt, hnone, hpre, hall⟩ := h.freed f (hfreed ▸ hf)
  refine ⟨hcreated ▸ hlt, hvblanks _ hnone, hpre.trans hacks, fun c hc heq => ?_⟩
  rcases hscheduled c hc with hc | hlive
  · exact hall c hc heq
  · exact absurd (heq ▸ hnone) hlive

theorem setVblank_vblanks (m : Nat) : (s.setVblank n v).vblanks m = if m = n then some v else s.vblanks m := by
  simp [setVblank, Function.update_apply]

theorem Lifetimes.setVblank (h : s.Lifetimes) (hv : s.vblanks n = some v) : (s.setVblank n w).Lifetimes := by
  refine h.grow rfl rfl (fun m hm => ?_) List.prefix_rfl fun c hc => .inl hc
  rw [setVblank_vblanks, if_neg (fun heq => Option.some_ne_none v (by rw [← hv, ← heq, hm]))]
  exact hm

theorem Lifetimes.takeCopy (h : s.Lifetimes) (hv : s.vblanks n = some v) (src : Nat) (dst : Option Nat) :
    (s.takeCopy n src dst).Lifetimes := by
  refine h.grow (takeCopy_created ..) (takeCopy_freed ..) (fun m hm => ?_) ?_ fun c hc => ?_
  · rw [takeCopy_vblanks]
    exact hm
  · exact ⟨[], (List.append_nil _).trans (takeCopy_acks ..).symm⟩
  · rw [takeCopy_scheduled] at hc
    rcases List.mem_append.1 hc with hc | hc
    · exact .inl hc
    · right
      rw [List.mem_singleton.1 hc, hv]
      exact Option.some_ne_none v

theorem Lifetimes.ack (h : s.Lifetimes) (pixmap dst : Option Nat) (k : Nat) :
    (s.lorieGpuCopyAck bufferOf pixmap dst k).Lifetimes := by
  refine h.grow (lorieGpuCopyAck_created ..) (lorieGpuCopyAck_freed ..) (fun m hm => ?_) ?_ fun c hc => ?_
  · rw [lorieGpuCopyAck_vblanks]
    exact hm
  · rw [lorieGpuCopyAck_acks]
    exact List.prefix_append ..
  · rw [lorieGpuCopyAck_scheduled] at hc
    exact .inl hc

end Lifetimes

/-! ## The calls -/

section Calls

variable {s t : State} {n : Nat} {v w : Vblank}

@[simp] theorem setVblank_outstanding : (s.setVblank n v).outstanding = s.outstanding := rfl

theorem Ledger.setVblank (h : s.Ledger) : (s.setVblank n v).Ledger :=
  ⟨h.serials, h.counter, h.acked_once, h.acked, h.root, h.buffers, h.references⟩

/-- The vblank of an outstanding copy remembers it. -/
theorem Tied.of_outstanding (h : s.Tied bufferOf) {c : Copy} (hc : c ∈ s.outstanding)
    (hv : s.vblanks c.vblank = some v) : v.Remembers bufferOf c := by
  obtain ⟨w, hw, hrem⟩ := h.remembered c hc
  rw [hv] at hw
  cases hw
  exact hrem

/-- A vblank has one outstanding copy. -/
theorem Inv.outstanding_unique (h : s.Inv bufferOf) {c c' : Copy} (hc : c ∈ s.outstanding) (hc' : c' ∈ s.outstanding)
    (hn : c.vblank = c'.vblank) : c = c' := by
  obtain ⟨w, hw, hrem⟩ := h.tied.remembered c hc
  have hrem' := h.tied.of_outstanding hc' (hn ▸ hw)
  refine List.inj_on_of_nodup_map h.ledger.serials (mem_outstanding.1 hc).1 (mem_outstanding.1 hc').1 ?_
  rw [← hrem.gpu_copy_serial, hrem'.gpu_copy_serial]

/-- A vblank that is written keeps what it remembers. -/
theorem Inv.setVblank (h : s.Inv bufferOf) (hv : s.vblanks n = some v)
    (hrem : ∀ c, v.Remembers bufferOf c → w.Remembers bufferOf c)
    (hpend : w.gpu_copy_pending = true → v.gpu_copy_pending = true) : (s.setVblank n w).Inv bufferOf := by
  refine ⟨h.ledger.setVblank, ⟨fun c hc => ?_, fun m u hu hp => ?_⟩, h.lifetimes.setVblank hv⟩
  · rw [setVblank_vblanks]
    split
    · rename_i heq
      exact ⟨w, rfl, hrem c (h.tied.of_outstanding hc (heq ▸ hv))⟩
    · exact h.tied.remembered c hc
  · rw [setVblank_vblanks] at hu
    split at hu
    · rename_i heq
      cases hu
      rw [heq]
      exact h.tied.pending n v hv (hpend hp)
    · exact h.tied.pending m u hu hp

/-- A vblank without a pending copy is written. -/
theorem Inv.setVblank_idle (h : s.Inv bufferOf) (hv : s.vblanks n = some v) (hp : v.gpu_copy_pending = false)
    (hw : w.gpu_copy_pending = false) : (s.setVblank n w).Inv bufferOf := by
  refine h.setVblank hv (fun c hrem => ?_) fun hp' => ?_
  · rw [hrem.gpu_copy_pending] at hp
    cases hp
  · rw [hw] at hp'
    cases hp'

/-- The acknowledgement of a pending vblank's copy -/
theorem Inv.ackPending (h : s.Inv bufferOf) (hv : s.vblanks n = some v) (hp : v.gpu_copy_pending = true) :
    (s.ackPending bufferOf n v).Inv bufferOf := by
  obtain ⟨c, hc, rfl⟩ := h.tied.pending n v hv hp
  have hrem := h.tied.of_outstanding hc hv
  rw [State.ackPending, hrem.gpu_copy_dst_buffer, hrem.gpu_copy_serial]
  have hlive : (s.lorieGpuCopyAck bufferOf v.pixmap c.target c.serial).vblanks c.vblank = some v := by
    rw [lorieGpuCopyAck_vblanks, hv]
  refine ⟨(h.ledger.ack hc hrem.pixmap).setVblank, ⟨fun c' hc' => ?_, fun m u hu hpu => ?_⟩,
    (h.lifetimes.ack ..).setVblank hlive⟩
  · obtain ⟨hc', hne⟩ := mem_outstanding_ack.1 hc'
    rw [setVblank_vblanks, if_neg (fun heq => hne (by rw [h.outstanding_unique hc' hc heq])), lorieGpuCopyAck_vblanks]
    exact h.tied.remembered c' hc'
  · rw [setVblank_vblanks] at hu
    split at hu
    · cases hu
      cases hpu
    · rename_i hm
      rw [lorieGpuCopyAck_vblanks] at hu
      obtain ⟨c', hc', rfl⟩ := h.tied.pending m u hu hpu
      refine ⟨c', mem_outstanding_ack.2 ⟨hc', fun heq => hm ?_⟩, rfl⟩
      rw [List.inj_on_of_nodup_map h.ledger.serials (mem_outstanding.1 hc').1 (mem_outstanding.1 hc).1 heq]

theorem ackPending_vblank : (s.ackPending bufferOf n v).vblanks n = some { v with gpu_copy_pending := false } := by
  rw [State.ackPending, setVblank_vblanks, if_pos rfl]

/-- Scrapping acknowledges a pending copy. -/
theorem Inv.present_vblank_scrap (h : s.Inv bufferOf) (hv : s.vblanks n = some v) :
    (s.present_vblank_scrap bufferOf n v).Inv bufferOf := by
  rw [State.present_vblank_scrap]
  split
  · rename_i hp
    exact (h.ackPending hv hp).setVblank_idle ackPending_vblank rfl rfl
  · rename_i hp
    have hp : v.gpu_copy_pending = false := Bool.eq_false_of_not_eq_true hp
    exact h.setVblank_idle hv hp hp

/-- A vblank without a pending copy is freed. -/
theorem Inv.freeVblank (h : s.Inv bufferOf) (hv : s.vblanks n = some v) (hp : v.gpu_copy_pending = false) :
    (s.freeVblank n).Inv bufferOf := by
  have hfree : ∀ m, (s.freeVblank n).vblanks m = if m = n then none else s.vblanks m := by
    simp [State.freeVblank, Function.update_apply]
  have hdone : ∀ c ∈ s.outstanding, c.vblank ≠ n := by
    rintro c hc rfl
    have hrem := h.tied.of_outstanding hc hv
    rw [hrem.gpu_copy_pending] at hp
    cases hp
  refine ⟨⟨h.ledger.serials, h.ledger.counter, h.ledger.acked_once, h.ledger.acked, h.ledger.root, h.ledger.buffers,
    h.ledger.references⟩, ⟨fun c hc => ?_, fun m u hu hpu => ?_⟩, ⟨fun m hm => ?_, fun f hf => ?_⟩⟩
  · rw [hfree, if_neg (hdone c hc)]
    exact h.tied.remembered c hc
  · rw [hfree] at hu
    split at hu
    · cases hu
    · exact h.tied.pending m u hu hpu
  · rw [hfree]
    split
    · rfl
    · exact h.lifetimes.fresh m hm
  · rcases List.mem_append.1 hf with hf | hf
    · obtain ⟨hlt, hnone, hacks, hall⟩ := h.lifetimes.freed f hf
      refine ⟨hlt, ?_, hacks, hall⟩
      rw [hfree, hnone, ite_self]
    · rw [List.mem_singleton.1 hf]
      refine ⟨?_, ?_, List.prefix_rfl, fun c hc heq => ?_⟩
      · by_contra hn
        rw [h.lifetimes.fresh n (Nat.le_of_not_lt hn)] at hv
        cases hv
      · rw [hfree, if_pos rfl]
      · by_contra hopen
        exact hdone c (mem_outstanding.2 ⟨hc, hopen⟩) heq

/-- Destroying acknowledges a pending copy. -/
theorem Inv.present_vblank_destroy (h : s.Inv bufferOf) (hv : s.vblanks n = some v) :
    (s.present_vblank_destroy bufferOf n v).Inv bufferOf := by
  rw [State.present_vblank_destroy]
  split
  · rename_i hp
    exact (h.ackPending hv hp).freeVblank ackPending_vblank rfl
  · rename_i hp
    exact h.freeVblank hv (Bool.eq_false_of_not_eq_true hp)

/-- What `lorieTryScheduleGpuCopy` does when it succeeds -/
theorem lorieTryScheduleGpuCopy_ok {p dst : Nat} {fallback : Option GpuFallback} {r : State × Nat × Option Nat}
    (h : s.lorieTryScheduleGpuCopy bufferOf n p dst fallback = .ok r) :
    ∃ src target, bufferOf p = some src ∧ r = (s.takeCopy n src target, s.gpuCopySerialCounter + 1, target) := by
  unfold lorieTryScheduleGpuCopy at h
  split at h
  · cases h
  · cases h
  · cases h
  · rename_i src d hsrc hd
    cases h
    exact ⟨src, _, hsrc, rfl⟩

/-- A scheduled copy whose vblank is requeued -/
theorem Inv.pend (h : s.Inv bufferOf) (hv : s.vblanks n = some v) (hp : v.gpu_copy_pending = false) {src : Nat}
    {target : Option Nat} (hw : w.Remembers bufferOf ⟨s.gpuCopySerialCounter + 1, n, src, target⟩) :
    ((s.takeCopy n src target).setVblank n w).Inv bufferOf := by
  have hlive : (s.takeCopy n src target).vblanks n = some v := by
    rw [takeCopy_vblanks, hv]
  refine ⟨(h.ledger.takeCopy n src target).setVblank, ⟨fun c hc => ?_, fun m u hu hpu => ?_⟩,
    (h.lifetimes.takeCopy hv src target).setVblank hlive⟩
  · rw [setVblank_outstanding, outstanding_takeCopy h.ledger] at hc
    rw [setVblank_vblanks, takeCopy_vblanks]
    rcases List.mem_append.1 hc with hc | hc
    · have hne : c.vblank ≠ n := by
        intro heq
        rw [(h.tied.of_outstanding hc (heq ▸ hv)).gpu_copy_pending] at hp
        cases hp
      rw [if_neg hne]
      exact h.tied.remembered c hc
    · rw [List.mem_singleton.1 hc, if_pos rfl]
      exact ⟨w, rfl, hw⟩
  · rw [setVblank_outstanding, outstanding_takeCopy h.ledger]
    rw [setVblank_vblanks, takeCopy_vblanks] at hu
    split at hu
    · rename_i heq
      exact ⟨_, List.mem_append_right _ List.mem_cons_self, heq.symm⟩
    · obtain ⟨c, hc, heq⟩ := h.tied.pending m u hu hpu
      exact ⟨c, List.mem_append_left _ hc, heq⟩

/-- A scheduled copy whose vblank cannot be requeued is acknowledged at once. -/
theorem Inv.takeCopy_ack (h : s.Inv bufferOf) (hv : s.vblanks n = some v) {p src : Nat} {target : Option Nat}
    (hp : bufferOf p = some src) :
    ((s.takeCopy n src target).lorieGpuCopyAck bufferOf (some p) target (s.gpuCopySerialCounter + 1)).Inv bufferOf := by
  have hnew : (⟨s.gpuCopySerialCounter + 1, n, src, target⟩ : Copy) ∈ (s.takeCopy n src target).outstanding := by
    rw [outstanding_takeCopy h.ledger]
    exact List.mem_append_right _ List.mem_cons_self
  have hmem : ∀ c, c ∈ ((s.takeCopy n src target).lorieGpuCopyAck bufferOf (some p) target
      (s.gpuCopySerialCounter + 1)).outstanding ↔ c ∈ s.outstanding := by
    intro c
    rw [mem_outstanding_ack, outstanding_takeCopy h.ledger, List.mem_append, List.mem_singleton]
    constructor
    · rintro ⟨hc | rfl, hne⟩
      · exact hc
      · exact absurd rfl hne
    · intro hc
      refine ⟨.inl hc, fun heq => ?_⟩
      have hle := h.ledger.counter c (mem_outstanding.1 hc).1
      omega
  refine ⟨(h.ledger.takeCopy n src target).ack hnew hp, ⟨fun c hc => ?_, fun m u hu hpu => ?_⟩,
    (h.lifetimes.takeCopy hv src target).ack ..⟩
  · rw [lorieGpuCopyAck_vblanks, takeCopy_vblanks]
    exact h.tied.remembered c ((hmem c).1 hc)
  · rw [lorieGpuCopyAck_vblanks, takeCopy_vblanks] at hu
    obtain ⟨c, hc, heq⟩ := h.tied.pending m u hu hpu
    exact ⟨c, (hmem c).2 hc, heq⟩

theorem Inv.scheduleCopy (h : s.Inv bufferOf) (hv : s.vblanks n = some v) (hp : v.gpu_copy_pending = false) {p : Nat}
    (hpix : v.pixmap = some p) (a : Answers) : (s.scheduleCopy bufferOf n p v a).Inv bufferOf := by
  rw [State.scheduleCopy]
  split
  · rename_i s' serial dst_buffer hok
    obtain ⟨src, target, hsrc, hr⟩ := lorieTryScheduleGpuCopy_ok hok
    cases hr
    dsimp only
    split
    · refine h.pend hv hp ⟨rfl, rfl, rfl, ?_⟩
      rw [hpix]
      exact hsrc
    · refine (h.takeCopy_ack hv hsrc).setVblank_idle (v := v) ?_ hp hp
      rw [lorieGpuCopyAck_vblanks, takeCopy_vblanks, hv]
  · exact h.setVblank_idle hv hp hp

/-- A vblank that is queued again, with whatever the Present extension writes -/
theorem Inv.requeue (h : s.Inv bufferOf) (hv : s.vblanks n = some v) (update : Option RegionRec) (exec_msc : UInt64)
    (queued : Bool) :
    (s.setVblank n { v with update := update, exec_msc := exec_msc, queued := queued }).Inv bufferOf :=
  h.setVblank hv (fun _ hrem => ⟨hrem.gpu_copy_pending, hrem.gpu_copy_serial, hrem.gpu_copy_dst_buffer, hrem.pixmap⟩) id

theorem Inv.present_execute_copy (h : s.Inv bufferOf) (hv : s.vblanks n = some v) {p : Nat} (hpix : v.pixmap = some p)
    (a : Answers) : (s.present_execute_copy bufferOf n p v a).Inv bufferOf := by
  rw [State.present_execute_copy]
  split
  · exact h.requeue hv v.update v.exec_msc true
  · split
    · exact h.requeue hv v.update v.exec_msc true
    · split
      · rename_i hp
        have hack := h.ackPending hv hp
        dsimp only
        split
        · exact hack.present_vblank_scrap ackPending_vblank
        · exact hack
      · rename_i hp
        exact h.scheduleCopy hv (Bool.eq_false_of_not_eq_true hp) hpix a

theorem Inv.call (h : s.Inv bufferOf) {c : Call} (hs : s.call bufferOf n c = some t) : t.Inv bufferOf := by
  cases c with
  | executeCopy a =>
    obtain ⟨v, hv, hs⟩ := Option.bind_eq_some_iff.1 hs
    obtain ⟨p, hp, rfl⟩ := Option.map_eq_some_iff.1 hs
    exact h.present_execute_copy hv hp a
  | scrap =>
    obtain ⟨v, hv, hs⟩ := Option.bind_eq_some_iff.1 hs
    obtain ⟨p, hp, rfl⟩ := Option.map_eq_some_iff.1 hs
    exact h.present_vblank_scrap hv
  | destroy =>
    obtain ⟨v, hv, rfl⟩ := Option.map_eq_some_iff.1 hs
    exact h.present_vblank_destroy hv

/-- Whatever `present_re_execute` calls on each vblank of the queue -/
theorem Inv.lorieRecheckGpuCopies {done : Nat → Bool} {stalled : Bool} {reExecute : Nat → List Call} {queue : List Nat}
    (h : s.Inv bufferOf) (hs : s.lorieRecheckGpuCopies bufferOf done stalled reExecute queue = some t) :
    t.Inv bufferOf := by
  induction queue generalizing s with
  | nil =>
    cases hs
    exact h
  | cons n queue ih =>
    obtain ⟨v, hv, hs⟩ := Option.bind_eq_some_iff.1 hs
    split at hs
    · obtain ⟨u, hu, hs⟩ := Option.bind_eq_some_iff.1 hs
      exact ih (Reach.invariant h (fun _ _ _ hi _ hc => hi.call hc) (Reach.of_exec _ hu)) hs
    · exact ih h hs

end Calls

/-! ## Runs -/

section Runs

variable {s t : State}

/-- A vblank is allocated. -/
theorem Inv.create (h : s.Inv bufferOf) {v : Vblank} (hp : v.gpu_copy_pending = false) :
    ({ s.setVblank s.created v with created := s.created + 1 } : State).Inv bufferOf := by
  have hnone := h.lifetimes.fresh s.created (Nat.le_refl _)
  refine ⟨⟨h.ledger.serials, h.ledger.counter, h.ledger.acked_once, h.ledger.acked, h.ledger.root, h.ledger.buffers,
    h.ledger.references⟩, ⟨fun c hc => ?_, fun m u hu hpu => ?_⟩, ⟨fun m hm => ?_, fun f hf => ?_⟩⟩
  · obtain ⟨u, hu, hrem⟩ := h.tied.remembered c hc
    refine ⟨u, ?_, hrem⟩
    rw [setVblank_vblanks, if_neg (fun heq => Option.some_ne_none u (by rw [← hu, heq, hnone]))]
    exact hu
  · rw [setVblank_vblanks] at hu
    split at hu
    · cases hu
      rw [hp] at hpu
      cases hpu
    · exact h.tied.pending m u hu hpu
  · have hm : s.created + 1 ≤ m := hm
    rw [setVblank_vblanks, if_neg (by omega)]
    exact h.lifetimes.fresh m (by omega)
  · obtain ⟨hlt, hfree, hacks, hall⟩ := h.lifetimes.freed f hf
    refine ⟨Nat.lt_succ_of_lt hlt, ?_, hacks, hall⟩
    rw [setVblank_vblanks, if_neg (by omega)]
    exact hfree

/-- References that others take and drop are not the copies'. -/
theorem Inv.references (h : s.Inv bufferOf) {held : Nat → Nat} {refcount : Nat → Int}
    (href : ∀ b, refcount b - held b = s.refcount b - s.held b) :
    ({ s with held := held, refcount := refcount } : State).Inv bufferOf := by
  refine ⟨⟨h.ledger.serials, h.ledger.counter, h.ledger.acked_once, h.ledger.acked, h.ledger.root, h.ledger.buffers,
    fun b => ?_⟩, ⟨h.tied.remembered, h.tied.pending⟩, ⟨h.lifetimes.fresh, h.lifetimes.freed⟩⟩
  have hb := h.ledger.references b
  have hdiff := href b
  simp only
  omega

theorem Inv.step {a : Action} (h : s.Inv bufferOf) (hs : s.step bufferOf a = some t) : t.Inv bufferOf := by
  cases a with
  | create pixmap update exec_msc =>
    cases hs
    exact h.create rfl
  | write n update exec_msc queued =>
    obtain ⟨v, hv, rfl⟩ := Option.map_eq_some_iff.1 hs
    exact h.requeue hv update exec_msc queued
  | call n c => exact h.call hs
  | recheck queue done stalled reExecute => exact h.lorieRecheckGpuCopies hs
  | resize p =>
    cases hs
    exact ⟨⟨h.ledger.serials, h.ledger.counter, h.ledger.acked_once, h.ledger.acked, h.ledger.root, h.ledger.buffers,
      h.ledger.references⟩, ⟨h.tied.remembered, h.tied.pending⟩, ⟨h.lifetimes.fresh, h.lifetimes.freed⟩⟩
  | hold b =>
    cases hs
    refine h.references fun x => ?_
    rcases eq_or_ne x b with rfl | hx
    · simp only [acquire, if_true, Function.update_self]
      omega
    · simp only [acquire, if_neg hx.symm, Function.update_of_ne hx]
      omega
  | drop b =>
    rw [State.step] at hs
    split at hs
    · cases hs
    · cases hs
      refine h.references fun x => ?_
      rcases eq_or_ne x b with rfl | hx
      · simp only [release, if_true, Function.update_self]
        omega
      · simp only [release, if_neg hx.symm, Function.update_of_ne hx]
        omega

theorem Reach.inv {p : Nat} (h : Reach (State.step bufferOf) Free (init p) s) : s.Inv bufferOf :=
  h.invariant (.init p) fun _ _ _ hi _ hs => hi.step hs

/-- What the accounts of the offloaded copies come to -/
structure Balanced (s : State) : Prop where
  /-- Every copy has a serial of its own. -/
  serials : (s.scheduled.map Copy.serial).Nodup
  /-- No copy is acknowledged twice, and nothing else is. -/
  acked_once : ∀ k, s.acks.count k ≤ 1
  acked : ∀ k ∈ s.acks, ∃ c ∈ s.scheduled, c.serial = k
  /-- A copy whose vblank is gone was acknowledged. -/
  gone : ∀ c ∈ s.scheduled, s.vblanks c.vblank = none → s.acks.count c.serial = 1
  /-- It was acknowledged before its vblank was freed. -/
  freed : ∀ f ∈ s.freed, f.2 <+: s.acks ∧ ∀ c ∈ s.scheduled, c.vblank = f.1 → f.2.count c.serial = 1
  root : s.rootGpuCopyPending = s.outstanding.countP (·.target = none)
  /-- A copy from a buffer into itself is two uses of the buffer. -/
  buffers : ∀ b, s.gpuCopyPending b =
    s.outstanding.countP (·.source = b) + s.outstanding.countP (·.target = some b)
  /-- One reference is held for each use. -/
  references : ∀ b, s.refcount b = s.held b + s.gpuCopyPending b

theorem Inv.balanced (h : s.Inv bufferOf) : s.Balanced where
  serials := h.ledger.serials
  acked_once k := List.nodup_iff_count_le_one.1 h.ledger.acked_once k
  acked := h.ledger.acked
  gone c hc hnone := by
    refine List.count_eq_one_of_mem h.ledger.acked_once ?_
    by_contra hopen
    obtain ⟨v, hv, -⟩ := h.tied.remembered c (mem_outstanding.2 ⟨hc, hopen⟩)
    rw [hnone] at hv
    cases hv
  freed f hf := by
    obtain ⟨-, -, hacks, hall⟩ := h.lifetimes.freed f hf
    exact ⟨hacks, fun c hc heq =>
      List.count_eq_one_of_mem (h.ledger.acked_once.sublist hacks.sublist) (hall c hc heq)⟩
  root := h.ledger.root
  buffers b := by
    rw [h.ledger.buffers b, uses, Nat.cast_add]
  references := h.ledger.references

/-- **Every scheduled copy is acknowledged once, before its vblank is freed, and the counters and the references are
those of the copies that are not acknowledged**, in every run. -/
theorem copies_balanced {bufferOf : Nat → Option Nat} {p : Nat} {s : State}
    (h : Reach (State.step bufferOf) Free (init p) s) : s.Balanced :=
  (Reach.inv h).balanced

/-- An execution at an MSC that was not waited for -/
def plainAnswers (done : Bool) (gpuCopyDst : Nat) : Answers where
  crtc_msc := 7
  retryQueued := false
  gpuCopyStalled := false
  done := done
  pollQueued := true
  doneAfter := done
  gpuCopyDst := gpuCopyDst
  fallback := none
  requeued := true

/-- A copy into the root is scheduled, polled, found done by `lorieRecheckGpuCopies`, and its vblank freed. -/
def polledRun : List Action :=
  [.hold 5, .create (some 0) none 0, .call 0 (.executeCopy (plainAnswers false 1)),
    .call 0 (.executeCopy (plainAnswers false 1)),
    .recheck [0] (fun _ => true) false fun _ => [.executeCopy (plainAnswers true 1), .destroy]]

theorem copies_balanced_polled : ∃ s, exec (State.step fun p => some (p + 5)) (init 1) polledRun = some s ∧
    s.scheduled = [⟨1, 0, 5, none⟩] ∧ s.freed = [(0, [1])] ∧ s.Balanced := by
  obtain ⟨s, hs, hscheduled, hfreed⟩ : ∃ s, exec (State.step fun p => some (p + 5)) (init 1) polledRun = some s ∧
      s.scheduled = [⟨1, 0, 5, none⟩] ∧ s.freed = [(0, [1])] := ⟨_, rfl, rfl, rfl⟩
  exact ⟨s, hs, hscheduled, hfreed, copies_balanced (Reach.of_exec polledRun hs)⟩

/-- The window's own pixmap is presented: one copy, which counts twice for its buffer. -/
theorem self_copy_counted_twice : ¬ ∀ (bufferOf : Nat → Option Nat) (p : Nat) (s : State),
    Reach (State.step bufferOf) Free (init p) s →
      ∀ b, s.gpuCopyPending b = s.outstanding.countP fun c => c.source = b ∨ c.target = some b := by
  intro h
  have hone := h (fun p => some (p + 5)) 1 _
    (Reach.of_exec [Action.create (some 0) none 0, .call 0 (.executeCopy (plainAnswers false 0))] rfl) 5
  revert hone
  decide

end Runs

end State

end Vblanks

end Lorie.Present.Accounting
