import Lorie.GpuCopy.Fifo

/-!
# Acknowledging offloaded copies

The Present extension of the X server over the GPU copy queue: `present_execute_copy` schedules a copy, requeues its
vblank and polls for the copy's completion; `lorieGpuCopyAck` then drops the references that scheduling took. The
acknowledgement is also made when the vblank is scrapped or destroyed, when it cannot be requeued, and when the renderer
is found stalled.

The queue is the machine of `Lorie.GpuCopy.Queue`: the X thread makes the producer's steps one by one, the worker's
steps come in between. `lorieRecheckGpuCopies` executes a pending vblank again, as polling does.

An acknowledgement of a copy that is reported done comes after the copy, in every run (`ack_done`).
-/

namespace Lorie.Present

open Lorie.Lib Lorie.GpuCopy

/-- A vblank with `gpu_copy_pending`, its `gpu_copy_serial`, and the place of its entry in the history. -/
structure PendingCopy where
  gpu_copy_serial : UInt64
  index : Nat
  deriving DecidableEq, Repr

/-- Which call of `lorieGpuCopyAck` it was. -/
inductive AckPath where
  /-- `present_execute_copy` found the copy done. -/
  | polled
  /-- `present_execute_copy` found it not done, and the renderer without a connection or a surface. -/
  | stalled
  /-- `queue_vblank` failed, after scheduling or while polling. -/
  | requeueFailed
  /-- `present_vblank_scrap` -/
  | scrap
  /-- `present_vblank_destroy` -/
  | destroy
  deriving DecidableEq, Repr

/-- A call of `lorieGpuCopyAck`: the serial, whether `lorieGpuCopyIsDone` held of it, and how many copies were executed
before it. -/
structure Ack where
  serial : UInt64
  path : AckPath
  done : Bool
  executed : Nat
  deriving DecidableEq, Repr

/-- Where the X thread stands. -/
inductive PresentThread where
  | idle
  /-- In `lorieTryScheduleGpuCopy`, from the load of `writeIndex` on. -/
  | scheduling
  /-- The copy is scheduled, its vblank not yet requeued. -/
  | scheduled (copy : PendingCopy)
  deriving DecidableEq, Repr

structure PresentState where
  machine : Machine
  thread : PresentThread
  /-- The vblanks with `gpu_copy_pending`. -/
  vblanks : List PendingCopy
  /-- History: the acknowledgements, in order. -/
  acks : List Ack

def PresentState.init : PresentState := ⟨Machine.init, .idle, [], []⟩

/-- The producer's side of the queue. -/
def isProducer : GpuCopy.Action → Bool
  | .loadWriteIndex | .loadReadIndex | .fillEntry _ | .publish => true
  | _ => false

inductive PresentAction where
  /-- The worker, or a renderer that is attached again. -/
  | worker (a : GpuCopy.Action)
  /-- A step of `lorieTryScheduleGpuCopy`. -/
  | producer (a : GpuCopy.Action)
  /-- `queue_vblank` after a copy was scheduled. -/
  | requeue (queued : Bool)
  /-- `present_execute_copy` of a pending vblank: `gpuCopyStalled`, and whether `queue_vblank` succeeds. -/
  | execute (copy : PendingCopy) (gpuCopyStalled queued : Bool)
  /-- `present_vblank_scrap` -/
  | scrap (copy : PendingCopy)
  /-- `present_vblank_destroy` -/
  | destroy (copy : PendingCopy)
  deriving DecidableEq, Repr

namespace PresentState

/-- `lorieGpuCopyAck` -/
def lorieGpuCopyAck (s : PresentState) (copy : PendingCopy) (path : AckPath) : PresentState :=
  { s with acks := s.acks ++ [⟨copy.gpu_copy_serial, path, s.machine.lorieGpuCopyIsDone copy.gpu_copy_serial,
      s.machine.submitted.length⟩] }

/-- A pending vblank is acknowledged and goes. -/
def finish (s : PresentState) (copy : PendingCopy) (path : AckPath) : PresentState :=
  { s.lorieGpuCopyAck copy path with vblanks := s.vblanks.erase copy }

/-- The X thread after a step of `lorieTryScheduleGpuCopy`. -/
def afterProducer (m : Machine) : GpuCopy.Action → Producer → PresentThread
  | .publish, _ => .scheduled ⟨m.gpuCopySerialCounter, m.published.length⟩
  | _, .idle => .idle
  | _, _ => .scheduling

/-- One step of the X thread or of the worker. -/
def step (s : PresentState) : PresentAction → Option PresentState
  | .worker a =>
    if isProducer a then none
    else (s.machine.step a).map fun m => { s with machine := m }
  | .producer a =>
    match s.thread with
    | .scheduled _ => none
    | _ =>
      if isProducer a then
        (s.machine.step a).map fun m => { s with machine := m, thread := afterProducer s.machine a m.producer }
      else none
  | .requeue queued =>
    match s.thread with
    | .scheduled copy =>
      if queued then some { s with thread := .idle, vblanks := copy :: s.vblanks }
      else some { s.lorieGpuCopyAck copy .requeueFailed with thread := .idle }
    | _ => none
  | .execute copy gpuCopyStalled queued =>
    if s.thread = .idle ∧ copy ∈ s.vblanks then
      if s.machine.lorieGpuCopyIsDone copy.gpu_copy_serial then some (s.finish copy .polled)
      else if gpuCopyStalled then some (s.finish copy .stalled)
      else if queued then some s
      else some (s.finish copy .requeueFailed)
    else none
  | .scrap copy => if s.thread = .idle ∧ copy ∈ s.vblanks then some (s.finish copy .scrap) else none
  | .destroy copy => if s.thread = .idle ∧ copy ∈ s.vblanks then some (s.finish copy .destroy) else none

/-! ## The queue below -/

/-- A step makes one step of the queue, or none. -/
theorem step_machine {s s' : PresentState} {a : PresentAction} (hs : s.step a = some s') :
    s'.machine = s.machine ∨ ∃ b, s.machine.step b = some s'.machine := by
  cases a with
  | worker a =>
    simp only [step] at hs
    split at hs
    · cases hs
    · obtain ⟨m, hm, rfl⟩ := Option.map_eq_some_iff.1 hs
      exact .inr ⟨a, hm⟩
  | producer a =>
    simp only [step] at hs
    split at hs
    · cases hs
    · split at hs
      · obtain ⟨m, hm, rfl⟩ := Option.map_eq_some_iff.1 hs
        exact .inr ⟨a, hm⟩
      · cases hs
  | _ =>
    left
    simp only [step] at hs
    repeat' split at hs
    all_goals cases hs
    all_goals rfl

/-! ## The invariant -/

/-- The entry of a scheduled copy stands where its vblank says. -/
def Placed (m : Machine) (copy : PendingCopy) : Prop :=
  ∃ e, m.published[copy.index]? = some e ∧ e.serial = copy.gpu_copy_serial

/-- What holds of an acknowledgement from then on: when the copy was reported done, its entry had been executed and
consumed before. -/
structure AckOk (m : Machine) (a : Ack) : Prop where
  executed : a.executed ≤ m.submitted.length
  entry : ∃ i e, m.published[i]? = some e ∧ e.serial = a.serial ∧
    (a.done = true → m.published.length < 2 ^ 64 → i < a.executed ∧ i < m.consumed)
  path : a.done = false → a.path ≠ .polled

structure AckInv (s : PresentState) : Prop where
  vblanks : ∀ c ∈ s.vblanks, Placed s.machine c
  thread : ∀ c, s.thread = .scheduled c → Placed s.machine c
  acks : ∀ a ∈ s.acks, AckOk s.machine a

section Grow

variable {m m' : Machine}

theorem getElem?_of_prefix {α : Type*} {l l' : List α} (h : l <+: l') {i : Nat} {x : α} (hx : l[i]? = some x) :
    l'[i]? = some x := by
  obtain ⟨t, rfl⟩ := h
  rw [List.getElem?_append_left (List.getElem?_eq_some_iff.1 hx).1]
  exact hx

theorem Placed.grow {c : PendingCopy} (h : Placed m c) (hp : m.published <+: m'.published) : Placed m' c := by
  obtain ⟨e, he, hser⟩ := h
  exact ⟨e, getElem?_of_prefix hp he, hser⟩

theorem AckOk.grow {a : Ack} (h : AckOk m a) (hp : m.published <+: m'.published) (hs : m.submitted <+: m'.submitted)
    (hc : m.consumed ≤ m'.consumed) : AckOk m' a := by
  obtain ⟨i, e, he, hser, hdone⟩ := h.entry
  refine ⟨h.executed.trans hs.length_le, ⟨i, e, getElem?_of_prefix hp he, hser, fun hd hwrap => ?_⟩, h.path⟩
  obtain ⟨h₁, h₂⟩ := hdone hd (Nat.lt_of_le_of_lt hp.length_le hwrap)
  exact ⟨h₁, h₂.trans_le hc⟩

/-- The number of executed copies is that of the consumed ones, or one more. -/
theorem consumed_le_submitted (h : m.Inv) : m.consumed ≤ m.submitted.length := by
  obtain ⟨n, hn, hsub⟩ := h.submitted_eq
  have := h.le
  rw [hsub, List.length_take]
  omega

end Grow

section Steps

variable {s s' : PresentState}

theorem AckInv.init : PresentState.init.AckInv where
  vblanks := by simp [PresentState.init]
  thread := by simp [PresentState.init]
  acks := by simp [PresentState.init]

/-- An acknowledgement that calls the copy polled finds it done. -/
theorem AckInv.ack (hm : s.machine.Inv) (h : s.AckInv) {c : PendingCopy} (hc : Placed s.machine c) {path : AckPath}
    (hp : path = .polled → s.machine.lorieGpuCopyIsDone c.gpu_copy_serial = true) :
    ∀ a ∈ (s.lorieGpuCopyAck c path).acks, AckOk s.machine a := by
  intro a ha
  rcases List.mem_append.1 ha with ha | ha
  · exact h.acks a ha
  · rw [List.mem_singleton.1 ha]
    obtain ⟨e, he, hser⟩ := hc
    refine ⟨Nat.le_refl _, ⟨c.index, e, he, hser, fun hdone hwrap => ?_⟩, fun hd hpath => ?_⟩
    · have hlt := hm.done_consumed hwrap he (by rw [hser]; exact hdone)
      exact ⟨hlt.trans_le (consumed_le_submitted hm), hlt⟩
    · rw [hp hpath] at hd
      cases hd

theorem AckInv.finish (hm : s.machine.Inv) (h : s.AckInv) {c : PendingCopy} (hc : c ∈ s.vblanks) {path : AckPath}
    (hp : path = .polled → s.machine.lorieGpuCopyIsDone c.gpu_copy_serial = true) : (s.finish c path).AckInv where
  vblanks := fun c' hc' => h.vblanks c' (List.mem_of_mem_erase hc')
  thread := h.thread
  acks := h.ack hm (h.vblanks c hc) hp

/-- A step of the queue keeps what is known of the copies. -/
theorem AckInv.grow (h : s.AckInv) {m : Machine} {t : PresentThread} (hp : s.machine.published <+: m.published)
    (hs : s.machine.submitted <+: m.submitted) (hc : s.machine.consumed ≤ m.consumed)
    (ht : ∀ c, t = .scheduled c → Placed m c) : ({ s with machine := m, thread := t } : PresentState).AckInv where
  vblanks := fun c hc' => (h.vblanks c hc').grow hp
  thread := ht
  acks := fun a ha => (h.acks a ha).grow hp hs hc

/-- Publishing an entry places the copy. -/
theorem placed_publish {m m' : Machine} (hm : m.Inv) (hs : m.step .publish = some m') :
    Placed m' ⟨m.gpuCopySerialCounter, m.published.length⟩ := by
  simp only [Machine.step] at hs
  split at hs
  · rename_i w hw
    cases hs
    have hp := hm.producer
    simp only [Machine.ProducerOk, hw] at hp
    refine ⟨m.queue.entries (Machine.slot w), ?_, hp.2.2.2⟩
    show (m.published ++ [_])[m.published.length]? = _
    rw [List.getElem?_append_right (Nat.le_refl _), Nat.sub_self]
    rfl
  · cases hs

theorem afterProducer_scheduled {m m' : Machine} {a : GpuCopy.Action} (hm : m.Inv) (hs : m.step a = some m')
    {c : PendingCopy} (hc : afterProducer m a m'.producer = .scheduled c) : Placed m' c := by
  unfold afterProducer at hc
  split at hc
  · cases hc
    exact placed_publish hm hs
  · cases hc
  · cases hc

/-- **Every step keeps what is known of the acknowledgements.** -/
theorem step_ackInv (a : PresentAction) (hm : s.machine.Inv) (h : s.AckInv) (hs : s.step a = some s') : s'.AckInv := by
  cases a with
  | worker a =>
    simp only [step] at hs
    split at hs
    · cases hs
    · obtain ⟨m, hstep, rfl⟩ := Option.map_eq_some_iff.1 hs
      obtain ⟨hp, hsub, hc, -⟩ := Machine.step_frame hstep
      exact h.grow hp hsub hc fun c hc => (h.thread c hc).grow hp
  | producer a =>
    simp only [step] at hs
    split at hs
    · cases hs
    · split at hs
      · obtain ⟨m, hstep, rfl⟩ := Option.map_eq_some_iff.1 hs
        obtain ⟨hp, hsub, hc, -⟩ := Machine.step_frame hstep
        exact h.grow hp hsub hc fun c hc => afterProducer_scheduled hm hstep hc
      · cases hs
  | requeue queued =>
    simp only [step] at hs
    split at hs
    · rename_i c hc
      have hplaced := h.thread c hc
      split at hs
      · cases hs
        refine { h with thread := by simp, vblanks := ?_ }
        intro c' hc'
        rcases List.mem_cons.1 hc' with rfl | hc'
        · exact hplaced
        · exact h.vblanks c' hc'
      · cases hs
        exact { h with thread := by simp, acks := h.ack hm hplaced (by simp) }
    · cases hs
  | execute c stalled queued =>
    simp only [step] at hs
    split at hs
    · rename_i hc
      split at hs
      · rename_i hdone
        cases hs
        exact h.finish hm hc.2 fun _ => hdone
      · split at hs
        · cases hs
          exact h.finish hm hc.2 (by simp)
        · split at hs
          · cases hs
            exact h
          · cases hs
            exact h.finish hm hc.2 (by simp)
    · cases hs
  | scrap c =>
    simp only [step] at hs
    split at hs
    · rename_i hc
      cases hs
      exact h.finish hm hc.2 (by simp)
    · cases hs
  | destroy c =>
    simp only [step] at hs
    split at hs
    · rename_i hc
      cases hs
      exact h.finish hm hc.2 (by simp)
    · cases hs

end Steps

/-! ## Runs -/

theorem reach_ackInv {s : PresentState} (h : Reach step Free PresentState.init s) : s.machine.Inv ∧ s.AckInv := by
  refine h.invariant (I := fun s => s.machine.Inv ∧ s.AckInv) ⟨Machine.Inv.init, AckInv.init⟩ fun t a u hi _ hs => ?_
  refine ⟨?_, step_ackInv a hi.1 hi.2 hs⟩
  rcases step_machine hs with he | ⟨b, hb⟩
  · rw [he]
    exact hi.1
  · exact Machine.step_inv b hi.1 hb

/-- **No copy runs after it was acknowledged as done**, and copies that are not done are acknowledged only where the
vblank goes or cannot be polled: in every run with fewer than `2 ^ 64` copies, an acknowledgement at which
`lorieGpuCopyIsDone` holds comes after the execution of its entry, which is no longer queued and not executed again. -/
theorem ack_done {s : PresentState} (h : Reach step Free PresentState.init s) {a : Ack} (ha : a ∈ s.acks) :
    (a.done = true → s.machine.published.length < 2 ^ 64 →
      (∃ e ∈ s.machine.submitted.take a.executed, e.serial = a.serial) ∧
      (∀ e ∈ s.machine.submitted.drop a.executed, e.serial ≠ a.serial) ∧
      ∀ e ∈ s.machine.pending, e.serial ≠ a.serial) ∧
    (a.done = false → a.path = .stalled ∨ a.path = .requeueFailed ∨ a.path = .scrap ∨ a.path = .destroy) := by
  obtain ⟨hm, hi⟩ := reach_ackInv h
  obtain ⟨hex, ⟨i, e, he, hser, hdone⟩, hpath⟩ := hi.acks a ha
  refine ⟨fun hd hwrap => ?_, fun hd => ?_⟩
  · obtain ⟨hlt, hcons⟩ := hdone hd hwrap
    obtain ⟨n, hn, hsub⟩ := hm.submitted_eq
    have hunique : ∀ j f, s.machine.published[j]? = some f → f.serial = a.serial → j = i :=
      fun j f hf hfs => hm.serial_inj hwrap hf he (hfs.trans hser.symm)
    refine ⟨⟨e, ?_, hser⟩, fun f hf hfs => ?_, fun f hf hfs => ?_⟩
    · rw [hsub, List.length_take] at hex
      refine List.mem_iff_getElem?.2 ⟨i, ?_⟩
      rw [hsub, List.take_take, List.getElem?_take_of_lt (by omega)]
      exact he
    · obtain ⟨j, hj⟩ := List.mem_iff_getElem?.1 hf
      rw [List.getElem?_drop, hsub] at hj
      have hlt' : a.executed + j < n := by
        have := (List.getElem?_eq_some_iff.1 hj).1
        rw [List.length_take] at this
        omega
      rw [List.getElem?_take_of_lt hlt'] at hj
      have := hunique _ f hj hfs
      omega
    · obtain ⟨j, hj⟩ := List.mem_iff_getElem?.1 hf
      rw [Machine.pending, List.getElem?_drop] at hj
      have := hunique _ f hj hfs
      omega
  · have := hpath hd
    cases hp : a.path with
    | polled => exact absurd hp this
    | stalled => exact .inl rfl
    | requeueFailed => exact .inr (.inl rfl)
    | scrap => exact .inr (.inr (.inl rfl))
    | destroy => exact .inr (.inr (.inr rfl))

/-- A copy is scheduled, its vblank requeued. -/
def scheduleCopy : List PresentAction :=
  (Machine.scheduleActions Machine.emptyRequest).map .producer ++ [.requeue true]

/-- The worker drains the queue. -/
def drain : List PresentAction := Machine.drainActions.map .worker

/-- A copy that is executed, polled and acknowledged. -/
theorem ack_done_polled : ∃ s, exec step PresentState.init (scheduleCopy ++ drain ++ [.execute ⟨1, 0⟩ false true]) = some s ∧
    ⟨1, .polled, true, 1⟩ ∈ s.acks ∧ ∀ e ∈ s.machine.pending, e.serial ≠ 1 :=
  ⟨_, rfl, by decide, ((ack_done (.of_exec (scheduleCopy ++ drain ++ [.execute ⟨1, 0⟩ false true]) rfl)
    (a := ⟨1, .polled, true, 1⟩) (by decide)).1 rfl (by decide)).2.2⟩

/-- A scrapped vblank acknowledges its copy, and the worker executes it afterwards. -/
theorem executed_after_scrap : ∃ s, Reach step Free PresentState.init s ∧ ∃ a ∈ s.acks, a.path = .scrap ∧
    ∃ e ∈ s.machine.submitted.drop a.executed, e.serial = a.serial :=
  ⟨_, .of_exec (scheduleCopy ++ [.scrap ⟨1, 0⟩] ++ drain) rfl, ⟨1, .scrap, false, 0⟩, by decide, rfl,
    ⟨1, Machine.emptyRequest⟩, by decide, rfl⟩

end PresentState

end Lorie.Present
