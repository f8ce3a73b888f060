import Lorie.Lib.Transition

/-!
# Commands of a connection and the work queue

Three threads of the server take part. The input thread reads the events of a connection and queues their work
(`handleLorieEvents`), the host queues the installation of a new connection (`lorieServerConnect`), and the X thread
runs the queue in passes (`ProcessWorkQueue`). A pass runs the items that were queued when it started; no item of this
model is retried.

The handler runs under the input lock of the X server, which `InputThreadUnregisterDev` takes: the installation of a
connection does not overtake the handler of the one it replaces. When `conn_fd` is `-1` it does not wait, and the rest
of the error path may run after it.

A connection is named by the number of the `lorieServerConnect` call that made it. The source of a queued event, and
`installed` and `applied`, are history: no step reads them. `dataConnection` and `sequence` are unbounded: an item would
have to stay queued through `2 ^ 64` installations for the 64-bit counters to come round.
-/

namespace Lorie.Connection

open Lorie.Lib

/-- The events of a connection whose work is queued with a generation. -/
inductive Guarded where
  /-- `EVENT_DATA` -/
  | data
  /-- `EVENT_GPU_DONE_FD` -/
  | gpuDoneFd
  deriving DecidableEq, Repr

/-- The events of a connection that are modelled. -/
inductive Command where
  /-- `EVENT_OUTPUT_COMMAND` -/
  | output
  | guarded (k : Guarded)
  deriving DecidableEq, Repr

/-- A callback of the work queue with its closure. -/
inductive Work where
  /-- `lorieOutputCommand` of an event -/
  | output (source : Nat)
  /-- `lorieDataCommand` or `lorieSetGpuDoneFd`, for a generation -/
  | guarded (k : Guarded) (source generation : Nat)
  /-- What the error path queues. -/
  | reset (generation : Nat)
  /-- What `lorieServerConnect` queues. -/
  | connect (conn : Nat)
  deriving DecidableEq, Repr

def Work.isConnect : Work → Bool
  | .connect _ => true
  | _ => false

/-- `WorkItem` -/
structure WorkItem where
  work : Work
  sequence : Nat
  deriving DecidableEq, Repr

/-- Where `handleLorieEvents` stands. -/
inductive InputThread where
  | idle
  /-- The header of an event was read. -/
  | read (e : Command) (conn : Nat)
  /-- `dataConnection.load()` was made for the closure. -/
  | loaded (k : Guarded) (conn generation : Nat)
  /-- In the error path, after `conn_fd = -1`. -/
  | failed
  deriving DecidableEq, Repr

def InputThread.isOutput : InputThread → Bool
  | .read .output _ => true
  | _ => false

/-- Where the X thread stands in `ProcessWorkQueue`. -/
inductive XThread where
  | waiting
  | pass (last : Nat)
  | running (last : Nat) (work : Work)
  deriving DecidableEq, Repr

/-- A command that took effect, and the connection that was installed at that moment. -/
structure Applied where
  command : Command
  source : Nat
  installed : Nat
  deriving DecidableEq, Repr

structure Server where
  /-- `conn_fd`; `none` is `-1`. -/
  conn_fd : Option Nat
  dataConnection : Nat
  gpuDoneFd : Option Nat
  /-- The connections registered with the input thread. -/
  devices : List Nat
  input : InputThread
  queue : List WorkItem
  sequence : Nat
  server : XThread
  /-- How often `lorieServerConnect` was called. -/
  connects : Nat
  /-- History: the connection whose installation ran last. -/
  installed : Nat
  /-- History: the commands that took effect. -/
  applied : List Applied
  deriving DecidableEq, Repr

/-- The server before the first connection. -/
def Server.init : Server :=
  { conn_fd := none, dataConnection := 0, gpuDoneFd := none, devices := [], input := .idle, queue := [], sequence := 0,
    server := .waiting, connects := 0, installed := 0, applied := [] }

inductive Action where
  /-- `lorieServerConnect` -/
  | connect
  /-- The input thread reads an event of a registered connection. -/
  | recv (e : Command) (conn : Nat)
  /-- `dataConnection.load()` -/
  | load
  /-- `QueueWorkProc` of the event's closure. -/
  | enqueue
  /-- `EVENT_OUTPUT_COMMAND` without memory for its copy. -/
  | drop
  /-- `X_NOTIFY_ERROR`, or an error while an event is handled, up to `conn_fd = -1`. -/
  | hangup (conn : Nat)
  /-- The rest of the error path. -/
  | queueReset
  /-- `lastSequence()` at the start of a pass. -/
  | beginPass
  /-- `take(last, false)` -/
  | take
  /-- The callback of the taken item. -/
  | run
  deriving DecidableEq, Repr

namespace Server

/-- `QueueWorkProc` -/
def append (s : Server) (w : Work) : Server :=
  { s with sequence := s.sequence + 1, queue := s.queue ++ [⟨w, s.sequence + 1⟩] }

/-- The callbacks of the work queue. -/
def runWork (s : Server) : Work → Server
  | .output source => { s with applied := s.applied ++ [⟨.output, source, s.installed⟩] }
  | .guarded k source generation =>
    if generation = s.dataConnection then
      { s with
        applied := s.applied ++ [⟨.guarded k, source, s.installed⟩]
        gpuDoneFd := if k = .gpuDoneFd then some source else s.gpuDoneFd }
    else s
  | .reset generation => if generation = s.dataConnection then { s with gpuDoneFd := none } else s
  | .connect conn =>
    { s with
      dataConnection := s.dataConnection + 1
      gpuDoneFd := none
      devices := (match s.conn_fd with | some old => s.devices.erase old | none => s.devices) ++ [conn]
      conn_fd := some conn
      installed := conn }

/-- `InputThreadUnregisterDev` waits for the handler. -/
def Blocked (s : Server) : Work → Prop
  | .connect _ => s.conn_fd.isSome ∧ s.input ≠ .idle
  | _ => False

instance (s : Server) : (w : Work) → Decidable (s.Blocked w)
  | .connect _ => inferInstanceAs (Decidable (s.conn_fd.isSome ∧ s.input ≠ .idle))
  | .output _ | .guarded _ _ _ | .reset _ => inferInstanceAs (Decidable False)

/-- One step of one of the three threads. -/
def step (s : Server) : Action → Option Server
  | .connect => some ({ s with connects := s.connects + 1 }.append (.connect (s.connects + 1)))
  | .recv e conn => if s.input = .idle ∧ conn ∈ s.devices then some { s with input := .read e conn } else none
  | .load =>
    match s.input with
    | .read (.guarded k) conn => some { s with input := .loaded k conn s.dataConnection }
    | _ => none
  | .enqueue =>
    match s.input with
    | .read .output conn => some ({ s with input := .idle }.append (.output conn))
    | .loaded k conn generation => some ({ s with input := .idle }.append (.guarded k conn generation))
    | _ => none
  | .drop =>
    match s.input with
    | .read .output _ => some { s with input := .idle }
    | _ => none
  | .hangup conn =>
    if conn ∈ s.devices ∧ s.input ≠ .failed ∧ s.input ≠ .read .output conn then
      some { s with devices := s.devices.erase conn, conn_fd := none, input := .failed }
    else none
  | .queueReset =>
    match s.input with
    | .failed =>
      some ({ s with dataConnection := s.dataConnection + 1, input := .idle }.append (.reset (s.dataConnection + 1)))
    | _ => none
  | .beginPass =>
    match s.server with
    | .waiting => some { s with server := .pass s.sequence }
    | _ => none
  | .take =>
    match s.server, s.queue with
    | .pass last, item :: rest =>
      if item.sequence ≤ last then some { s with server := .running last item.work, queue := rest }
      else some { s with server := .waiting }
    | .pass _, [] => some { s with server := .waiting }
    | _, _ => none
  | .run =>
    match s.server with
    | .running last w => if s.Blocked w then none else some { s.runWork w with server := .pass last }
    | _ => none

/-! ## Commands with a generation -/

/-- The work that did not run yet, in the order in which it will. -/
def work (s : Server) : List Work :=
  (match s.server with | .running _ w => [w] | _ => []) ++ s.queue.map (·.work)

/-- A generation that is still current is that of the installed connection. -/
def Current (s : Server) (source generation : Nat) : Prop :=
  generation ≤ s.dataConnection ∧ (generation = s.dataConnection → source = s.installed)

/-- What holds while an event is handled. -/
def InputOk (s : Server) : Prop :=
  match s.input with
  | .read _ conn => conn = s.installed ∧ s.conn_fd = some conn
  | .loaded _ conn generation => conn = s.installed ∧ s.conn_fd = some conn ∧ generation ≤ s.dataConnection
  | _ => True

/-- The invariant of every run. -/
structure Inv (s : Server) : Prop where
  devices : ∀ d ∈ s.devices, d = s.installed ∧ s.conn_fd = some d
  nodup : s.devices.Nodup
  input : s.InputOk
  work : ∀ k source generation, Work.guarded k source generation ∈ s.work → s.Current source generation
  applied : ∀ a ∈ s.applied, a.command ≠ .output → a.source = a.installed
  gpuDoneFd : ∀ source, s.gpuDoneFd = some source → source = s.installed

theorem Inv.init : Server.init.Inv where
  devices := by simp [Server.init]
  nodup := List.nodup_nil
  input := trivial
  work := by simp [Server.init, Server.work]
  applied := by simp [Server.init]
  gpuDoneFd := by simp [Server.init]

theorem work_append (s : Server) (w : Work) : (s.append w).work = s.work ++ [w] := by
  simp [work, append]

/-- Queueing keeps the invariant when the generation of the closure does. -/
theorem Inv.append {s : Server} (h : s.Inv) {w : Work}
    (hw : ∀ k source generation, w = .guarded k source generation → s.Current source generation) : (s.append w).Inv := by
  refine { h with work := ?_ }
  intro k source generation hmem
  rw [work_append] at hmem
  rcases List.mem_append.1 hmem with hmem | hmem
  · exact h.work k source generation hmem
  · exact hw k source generation (List.mem_singleton.1 hmem).symm

/-- After an event was handled the input thread waits again. -/
theorem Inv.input_idle {s : Server} (h : s.Inv) : ({ s with input := .idle } : Server).Inv :=
  { h with input := trivial }

theorem inv_recv {s s' : Server} {e : Command} {conn : Nat} (h : s.Inv) (hs : s.step (.recv e conn) = some s') :
    s'.Inv := by
  simp only [step] at hs
  split at hs
  · rename_i hc
    cases hs
    exact { h with input := h.devices conn hc.2 }
  · cases hs

theorem inv_load {s s' : Server} (h : s.Inv) (hs : s.step .load = some s') : s'.Inv := by
  have hin := h.input
  simp only [step] at hs
  split at hs
  · rename_i hi
    cases hs
    simp only [InputOk, hi] at hin
    exact { h with input := ⟨hin.1, hin.2, Nat.le_refl _⟩ }
  · cases hs

theorem inv_enqueue {s s' : Server} (h : s.Inv) (hs : s.step .enqueue = some s') : s'.Inv := by
  have hin := h.input
  simp only [step] at hs
  split at hs
  · cases hs
    exact h.input_idle.append (by simp)
  · rename_i k conn generation hi
    cases hs
    simp only [InputOk, hi] at hin
    obtain ⟨hconn, -, hle⟩ := hin
    refine h.input_idle.append ?_
    rintro _ _ _ ⟨⟩
    exact ⟨hle, fun _ => hconn⟩
  · cases hs

/-- The error path unregisters the only device. -/
theorem inv_hangup {s s' : Server} {conn : Nat} (h : s.Inv) (hs : s.step (.hangup conn) = some s') : s'.Inv := by
  simp only [step] at hs
  split at hs
  · rename_i hc
    cases hs
    refine { h with devices := ?_, nodup := h.nodup.erase _, input := trivial }
    intro d hd
    obtain ⟨hne, hd⟩ := h.nodup.mem_erase_iff.1 hd
    exact absurd ((h.devices d hd).1.trans (h.devices conn hc.1).1.symm) hne
  · cases hs

/-- A new generation makes every older one stale. -/
theorem Current.succ {s t : Server} {source generation : Nat} (h : s.Current source generation)
    (ht : t.dataConnection = s.dataConnection + 1) : t.Current source generation := by
  obtain ⟨hle, -⟩ := h
  refine ⟨by omega, fun heq => ?_⟩
  omega

theorem inv_queueReset {s s' : Server} (h : s.Inv) (hs : s.step .queueReset = some s') : s'.Inv := by
  simp only [step] at hs
  split at hs
  · cases hs
    have hi : ({ s with dataConnection := s.dataConnection + 1, input := .idle } : Server).Inv :=
      { h with
        input := trivial
        work := fun k source generation hmem => (h.work k source generation hmem).succ rfl }
    exact hi.append (by simp)
  · cases hs

/-- Moving the X thread keeps the invariant when the work stays. -/
theorem Inv.move {s : Server} (h : s.Inv) {x : XThread} {q : List WorkItem}
    (hw : ({ s with server := x, queue := q } : Server).work = s.work) :
    ({ s with server := x, queue := q } : Server).Inv :=
  { h with work := fun k source generation hmem => h.work k source generation (hw ▸ hmem) }

/-- What a `take` step does. -/
theorem take_eq {s s' : Server} (hs : s.step .take = some s') :
    ∃ x q, s' = { s with server := x, queue := q } ∧ s'.work = s.work := by
  simp only [step] at hs
  split at hs
  · rename_i last item rest hx hq
    split at hs
    · cases hs
      exact ⟨_, _, rfl, by simp [work, hx, hq]⟩
    · cases hs
      exact ⟨_, _, rfl, by simp [work, hx]⟩
  · rename_i last hx hq
    cases hs
    exact ⟨_, _, rfl, by simp [work, hx]⟩
  · cases hs

/-- What a `run` step does. -/
theorem run_eq {s s' : Server} (hs : s.step .run = some s') : ∃ last w, s.server = .running last w ∧ ¬ s.Blocked w ∧
    s' = { s.runWork w with server := .pass last } ∧ s.work = w :: s'.work := by
  simp only [step] at hs
  split at hs
  · rename_i last w hx
    split at hs
    · cases hs
    · rename_i hb
      cases hs
      refine ⟨last, w, hx, hb, rfl, ?_⟩
      have hq : (s.runWork w).queue = s.queue := by
        cases w <;> simp only [runWork] <;> first | rfl | (split <;> rfl)
      simp [work, hx, hq]
  · cases hs

/-- The input thread handles no event while a connection is installed. -/
theorem inputOk_connect {s t : Server} {conn : Nat} (h : s.Inv) (hb : ¬ s.Blocked (.connect conn))
    (ht : t.input = s.input) : t.InputOk := by
  have hin := h.input
  simp only [Blocked, not_and, not_not] at hb
  cases hi : s.input with
  | idle => simp [InputOk, ht, hi]
  | failed => simp [InputOk, ht, hi]
  | read e c =>
    simp only [InputOk, hi] at hin
    simp [hi, hin.2] at hb
  | loaded k c g =>
    simp only [InputOk, hi] at hin
    simp [hi, hin.2.1] at hb

/-- Installing a connection replaces the registered one. -/
theorem devices_connect {s : Server} (h : s.Inv) (conn : Nat) :
    (match s.conn_fd with | some old => s.devices.erase old | none => s.devices) ++ [conn] = [conn] := by
  have hnil : (match s.conn_fd with | some old => s.devices.erase old | none => s.devices) = [] := by
    rw [List.eq_nil_iff_forall_not_mem]
    intro d hd
    split at hd
    · rename_i old hfd
      obtain ⟨hne, hd⟩ := h.nodup.mem_erase_iff.1 hd
      have := (h.devices d hd).2
      rw [hfd] at this
      exact hne (Option.some.inj this).symm
    · rename_i hfd
      have := (h.devices d hd).2
      rw [hfd] at this
      cases this
  rw [hnil]
  rfl

theorem inv_run {s s' : Server} (h : s.Inv) (hs : s.step .run = some s') : s'.Inv := by
  obtain ⟨last, w, -, hb, rfl, hwork⟩ := run_eq hs
  have hrest : ∀ k source generation, Work.guarded k source generation ∈
      ({ s.runWork w with server := .pass last } : Server).work → s.Current source generation :=
    fun k source generation hmem => h.work k source generation (hwork ▸ List.mem_cons_of_mem _ hmem)
  cases w with
  | output source =>
    refine { h with work := hrest, applied := ?_ }
    intro a ha hne
    rcases List.mem_append.1 ha with ha | ha
    · exact h.applied a ha hne
    · rw [List.mem_singleton.1 ha] at hne
      exact absurd rfl hne
  | guarded k source generation =>
    have hcur := h.work k source generation (hwork ▸ List.mem_cons_self)
    by_cases hg : generation = s.dataConnection
    · simp only [runWork, if_pos hg] at hrest ⊢
      refine { h with work := hrest, applied := ?_, gpuDoneFd := ?_ }
      · intro a ha hne
        rcases List.mem_append.1 ha with ha | ha
        · exact h.applied a ha hne
        · rw [List.mem_singleton.1 ha]
          exact hcur.2 hg
      · intro c hc
        simp only at hc
        split at hc
        · rw [← Option.some.inj hc]
          exact hcur.2 hg
        · exact h.gpuDoneFd c hc
    · simp only [runWork, if_neg hg] at hrest ⊢
      exact { h with work := hrest }
  | reset generation =>
    by_cases hg : generation = s.dataConnection
    · simp only [runWork, if_pos hg] at hrest ⊢
      exact { h with work := hrest, gpuDoneFd := by simp }
    · simp only [runWork, if_neg hg] at hrest ⊢
      exact { h with work := hrest }
  | connect conn =>
    have hdev := devices_connect h conn
    refine { h with
      devices := ?_
      nodup := ?_
      input := inputOk_connect h hb rfl
      work := fun k source generation hmem => (hrest k source generation hmem).succ rfl
      gpuDoneFd := by simp [runWork] }
    · intro d hd
      simp only [runWork, hdev, List.mem_singleton] at hd
      exact ⟨hd, by simp [runWork, hd]⟩
    · simp only [runWork, hdev]
      exact List.pairwise_singleton _ conn

/-- **Every step of the three threads keeps the invariant.** -/
theorem step_inv {s s' : Server} (a : Action) (h : s.Inv) (hs : s.step a = some s') : s'.Inv := by
  cases a with
  | connect =>
    cases hs
    have hc : ({ s with connects := s.connects + 1 } : Server).Inv := { h with }
    exact hc.append (by simp)
  | recv e conn => exact inv_recv h hs
  | load => exact inv_load h hs
  | enqueue => exact inv_enqueue h hs
  | drop =>
    simp only [step] at hs
    split at hs
    · cases hs; exact h.input_idle
    · cases hs
  | hangup conn => exact inv_hangup h hs
  | queueReset => exact inv_queueReset h hs
  | beginPass =>
    simp only [step] at hs
    split at hs
    · rename_i hx
      cases hs
      exact h.move (by simp [work, hx])
    · cases hs
  | take =>
    obtain ⟨x, q, rfl, hw⟩ := take_eq hs
    exact h.move hw
  | run => exact inv_run h hs

theorem reach_inv {s : Server} (h : Reach step Free Server.init s) : s.Inv :=
  h.invariant Inv.init fun _ a _ hi _ hs => step_inv a hi hs

/-! ## Output commands -/

/-- Every queued output command is of the connection that will be installed when its turn comes. -/
def Turn : Nat → List Work → Prop
  | _, [] => True
  | installed, .output source :: ws => source = installed ∧ Turn installed ws
  | _, .connect conn :: ws => Turn conn ws
  | installed, _ :: ws => Turn installed ws

theorem Turn.append {w : Work} (hw : ∀ source, w ≠ .output source) {installed : Nat} {ws : List Work}
    (h : Turn installed ws) : Turn installed (ws ++ [w]) := by
  induction ws generalizing installed with
  | nil =>
    cases w with
    | output source => exact absurd rfl (hw source)
    | _ => trivial
  | cons v ws ih =>
    cases v with
    | output source => exact ⟨h.1, ih h.2⟩
    | connect conn => exact ih h
    | guarded k source generation => exact ih h
    | reset generation => exact ih h

/-- An output command of the installed connection may follow work that installs none. -/
theorem Turn.append_output {installed : Nat} {ws : List Work} (h : Turn installed ws)
    (hc : ∀ conn, .connect conn ∉ ws) : Turn installed (ws ++ [.output installed]) := by
  induction ws with
  | nil => exact ⟨rfl, trivial⟩
  | cons v ws ih =>
    have hc' : ∀ conn, Work.connect conn ∉ ws := fun conn hm => hc conn (List.mem_cons_of_mem _ hm)
    cases v with
    | output source => exact ⟨h.1, ih h.2 hc'⟩
    | connect conn => exact absurd List.mem_cons_self (hc conn)
    | guarded k source generation => exact ih h hc'
    | reset generation => exact ih h hc'

/-- The condition on a step: an output command is queued while no installation is queued or about to run. -/
def NoConnectQueued (s : Server) (a : Action) : Prop :=
  a = .enqueue → s.input.isOutput → ∀ w ∈ s.work, w.isConnect = false

instance (s : Server) (a : Action) : Decidable (s.NoConnectQueued a) :=
  inferInstanceAs (Decidable (a = .enqueue → s.input.isOutput → ∀ w ∈ s.work, w.isConnect = false))

/-- What runs under the condition keep. -/
structure OutputInv (s : Server) : Prop extends s.Inv where
  turn : Turn s.installed s.work
  all : ∀ a ∈ s.applied, a.source = a.installed

theorem OutputInv.init : Server.init.OutputInv := ⟨Inv.init, trivial, by simp [Server.init]⟩

/-- A step other than `run` leaves what took effect and which connection is installed. -/
theorem step_frame {s s' : Server} {a : Action} (ha : a ≠ .run) (hs : s.step a = some s') :
    s'.installed = s.installed ∧ s'.applied = s.applied := by
  cases a <;> simp only [step] at hs <;> repeat' split at hs
  all_goals cases hs
  all_goals first | exact ⟨rfl, rfl⟩ | exact absurd rfl ha

/-- What a step other than `run` does to the work: nothing, or it adds an item at the end, which is an output command
only in `enqueue`. -/
theorem step_work {s s' : Server} {a : Action} (ha : a ≠ .run) (hs : s.step a = some s') :
    s'.work = s.work ∨ ∃ w, s'.work = s.work ++ [w] ∧
      ((∀ source, w ≠ .output source) ∨ ∃ source, a = .enqueue ∧ s.input = .read .output source ∧ w = .output source) := by
  cases a with
  | connect =>
    cases hs
    exact .inr ⟨_, work_append _ _, .inl (by simp)⟩
  | enqueue =>
    simp only [step] at hs
    split at hs
    · rename_i source hi
      cases hs
      exact .inr ⟨_, work_append _ _, .inr ⟨source, rfl, hi, rfl⟩⟩
    · cases hs
      exact .inr ⟨_, work_append _ _, .inl (by simp)⟩
    · cases hs
  | queueReset =>
    simp only [step] at hs
    split at hs
    · cases hs
      exact .inr ⟨_, work_append _ _, .inl (by simp)⟩
    · cases hs
  | take =>
    obtain ⟨x, q, rfl, hw⟩ := take_eq hs
    exact .inl hw
  | beginPass =>
    simp only [step] at hs
    split at hs
    · rename_i hx
      cases hs
      exact .inl (by simp [work, hx])
    · cases hs
  | run => exact absurd rfl ha
  | _ =>
    simp only [step] at hs
    split at hs
    all_goals cases hs
    all_goals exact .inl rfl

/-- Running the next item keeps the outputs' invariant. -/
theorem outputInv_run {s s' : Server} (h : s.OutputInv) (hs : s.step .run = some s') :
    Turn s'.installed s'.work ∧ ∀ a ∈ s'.applied, a.source = a.installed := by
  obtain ⟨last, w, -, -, rfl, hwork⟩ := run_eq hs
  have hturn := h.turn
  rw [hwork] at hturn
  cases w with
  | output source =>
    refine ⟨hturn.2, ?_⟩
    intro a ha
    rcases List.mem_append.1 ha with ha | ha
    · exact h.all a ha
    · rw [List.mem_singleton.1 ha]
      exact hturn.1
  | guarded k source generation =>
    have hcur := h.work k source generation (hwork ▸ List.mem_cons_self)
    by_cases hg : generation = s.dataConnection
    · simp only [runWork, if_pos hg] at hturn ⊢
      refine ⟨hturn, ?_⟩
      intro a ha
      rcases List.mem_append.1 ha with ha | ha
      · exact h.all a ha
      · rw [List.mem_singleton.1 ha]
        exact hcur.2 hg
    · simp only [runWork, if_neg hg] at hturn ⊢
      exact ⟨hturn, h.all⟩
  | reset generation =>
    by_cases hg : generation = s.dataConnection
    · simp only [runWork, if_pos hg] at hturn ⊢
      exact ⟨hturn, h.all⟩
    · simp only [runWork, if_neg hg] at hturn ⊢
      exact ⟨hturn, h.all⟩
  | connect conn => exact ⟨hturn, h.all⟩

/-- Every step under the condition keeps the outputs' invariant. -/
theorem step_outputInv {s s' : Server} (a : Action) (h : s.OutputInv) (hc : s.NoConnectQueued a)
    (hs : s.step a = some s') : s'.OutputInv := by
  by_cases ha : a = .run
  · subst ha
    obtain ⟨hturn, hall⟩ := outputInv_run h hs
    exact ⟨step_inv .run h.toInv hs, hturn, hall⟩
  · obtain ⟨hinst, happ⟩ := step_frame ha hs
    refine ⟨step_inv a h.toInv hs, ?_, by rw [happ]; exact h.all⟩
    rw [hinst]
    rcases step_work ha hs with hw | ⟨w, hw, hno | ⟨source, hq, hi, rfl⟩⟩
    · rw [hw]
      exact h.turn
    · rw [hw]
      exact h.turn.append hno
    · have hin := h.input
      simp only [InputOk, hi] at hin
      rw [hw, hin.1]
      refine h.turn.append_output fun conn hmem => ?_
      have := hc hq (by rw [hi]; rfl) _ hmem
      cases this

/-- **No command of an old connection takes effect on a new one**, in every run in which no output command is queued
behind the installation of a connection: each command was read from the connection that is installed when it is
applied. -/
theorem applied_current {s : Server} (h : Reach step NoConnectQueued Server.init s) :
    ∀ a ∈ s.applied, a.source = a.installed :=
  (h.invariant OutputInv.init fun _ a _ hi hc hs => step_outputInv a hi hc hs).all

/-- A connection is installed and each kind of its commands takes effect. -/
def commandActions : List Action :=
  [.connect, .beginPass, .take, .run, .take, .recv .output 1, .enqueue, .recv (.guarded .data) 1, .load, .enqueue,
    .recv (.guarded .gpuDoneFd) 1, .load, .enqueue, .beginPass, .take, .run, .take, .run, .take, .run]

theorem applied_current_commands : ∃ s, exec (fun s a => if NoConnectQueued s a then step s a else none) Server.init
    commandActions = some s ∧ s.applied.length = 3 ∧ ∀ a ∈ s.applied, a.source = a.installed :=
  ⟨_, rfl, rfl, applied_current (.of_exec_guarded commandActions rfl)⟩

/-- The host connects again, an output command is queued behind the installation, and the pass runs both. -/
def staleActions : List Action :=
  [.connect, .beginPass, .take, .run, .take, .recv .output 1, .connect, .enqueue, .beginPass, .take, .run, .take, .run]

/-- An output command of the first connection takes effect on the second one. -/
theorem output_applied_stale : ∃ s, Reach step Free Server.init s ∧
    ∃ a ∈ s.applied, a.command = .output ∧ a.source = 1 ∧ a.installed = 2 :=
  ⟨_, .of_exec staleActions rfl, ⟨.output, 1, 2⟩, by decide, rfl, rfl, rfl⟩

end Server

end Lorie.Connection
