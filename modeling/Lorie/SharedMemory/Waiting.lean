import Lorie.Lib.Waiting
import Lorie.SharedMemory.Frame

/-!
# Processes that wait for each other

A process that asks another one for a segment has its own mutex, and its thread cannot answer until the call is over. A process
whose thread has ended, or was never there, answers no more.

- `State.target`: the process that a process waits for; `State.Waits`;
- `Moves`, `moves_of_step`: what a step does to processes and sockets;
- `waits_kept`: a process goes on waiting as long as the one that it waits for is in a call; `deaf_kept`: one goes on waiting for
  a socket without a thread;
- `stuck_or_moves`: a call that waits for an answer gets on, unless it waits for a circle of processes, or for a process without a
  thread; then it lasts until one of them ends, or a signal interrupts it.
-/

namespace Lorie.SharedMemory

open Lorie.Lib Lorie.Lib.Waiting Relation

variable {s t : State} {n m : Nat} {a : Answers}

/-- The call waits for an answer. -/
def Call.Unanswered (call : Call) : Prop := ∃ shmid owner purpose, call = .asking shmid owner none purpose

namespace State

/-- The process that a process waits for, at a socket that is there -/
def target (s : State) (m : Nat) : Option Nat :=
  match (s.processes m).call with
  | .asking shmid owner none _ => (s.asked shmid owner).map fun _ => owner
  | _ => none

/-- A process waits for another one. -/
def Waits (s : State) : Nat → Nat → Prop := Waiting.Waits s.target

/-- Calls are those of processes that run, and these are finitely many. -/
structure Alive (s : State) : Prop where
  running : ∀ m, (s.processes m).call ≠ .idle → (s.processes m).running = true ∧ (s.processes m).pid ≠ 0
  pid : ∀ m, (s.processes m).running = true → (s.processes m).pid ≠ 0
  bound : ∃ N, ∀ m, N ≤ m → (s.processes m).call = .idle

/-- The thread of a socket is one of a process that runs. -/
def Answering (s : State) : Prop :=
  ∀ socketId socket, s.sockets socketId = some socket → socket.answered = true → (s.processes socket.owner).running = true

/-- The sockets that are there stay; their threads may end. -/
def Retains (s t : State) : Prop :=
  ∀ socketId socket, s.sockets socketId = some socket →
    ∃ socket', t.sockets socketId = some socket' ∧ socket'.owner = socket.owner ∧ (socket'.answered → socket.answered)

end State

/-! ## Who runs -/

namespace Process

variable (p : Process)

/-- The process is the same one, and runs as before. -/
def Same (q : Process) : Prop := q.pid = p.pid ∧ q.running = p.running

theorem same_checkPid : p.Same p.checkPid := by
  unfold checkPid
  split
  · exact ⟨rfl, rfl⟩
  · split <;> exact ⟨rfl, rfl⟩

theorem same_delete (i : Nat) : p.Same (p.delete i) := by
  unfold delete
  split <;> exact ⟨rfl, rfl⟩

theorem same_takeId (taken : Option Int) : p.Same (p.takeId taken).1 := by
  cases taken <;> exact ⟨rfl, rfl⟩

variable {p}

theorem Same.trans {q r : Process} (h : p.Same q) (h' : q.Same r) : p.Same r := ⟨h'.1.trans h.1, h'.2.trans h.2⟩

theorem same_shmdt (p : Process) (shmaddr : Option Nat) : p.Same (p.shmdt shmaddr) := by
  refine (same_checkPid p).trans ?_
  unfold shmdt
  dsimp only
  split
  · exact ⟨rfl, rfl⟩
  · split
    · exact same_delete (p.checkPid.unmap _ shmaddr) _
    · exact ⟨rfl, rfl⟩

theorem same_shmctl (p : Process) (shmid : Int) (cmd : Command) : p.Same (p.shmctl shmid cmd) := by
  refine (same_checkPid p).trans ?_
  unfold shmctl
  split
  · unfold remove
    split
    · exact ⟨rfl, rfl⟩
    · split
      · exact ⟨rfl, rfl⟩
      · exact same_delete p.checkPid _
  · unfold stat
    split <;> exact ⟨rfl, rfl⟩
  · exact ⟨rfl, rfl⟩

end Process

namespace State

theorem Retains.of_eq (h : t.sockets = s.sockets) : s.Retains t :=
  fun _ socket hsocket => ⟨socket, h ▸ hsocket, rfl, id⟩

/-- All processes are the same ones, and the sockets stay. -/
structure Same (s t : State) : Prop where
  processes : ∀ m, (s.processes m).Same (t.processes m)
  sockets : s.Retains t
  answering : s.Answering → t.Answering

theorem Same.refl (s : State) : s.Same s := ⟨fun _ => ⟨rfl, rfl⟩, .of_eq rfl, id⟩

theorem Same.trans {u : State} (h : s.Same t) (h' : t.Same u) : s.Same u := by
  refine ⟨fun m => (h.processes m).trans (h'.processes m), fun socketId socket hs => ?_, fun hs => h'.answering (h.answering hs)⟩
  obtain ⟨socket', ht, howner, hanswered⟩ := h.sockets socketId socket hs
  obtain ⟨socket'', hu, howner', hanswered'⟩ := h'.sockets socketId socket' ht
  exact ⟨socket'', hu, howner'.trans howner, fun h => hanswered (hanswered' h)⟩

theorem same_of_update {p : Process} (ht : t.processes = Function.update s.processes n p) (hsockets : t.sockets = s.sockets)
    (h : (s.processes n).Same p) : s.Same t := by
  have hprocesses (m : Nat) : (s.processes m).Same (t.processes m) := by
    rw [ht]
    by_cases hm : m = n
    · subst hm
      rw [Function.update_self]
      exact h
    · rw [Function.update_of_ne hm]
      exact ⟨rfl, rfl⟩
  refine ⟨hprocesses, .of_eq hsockets, fun hs socketId socket hsocket hanswered => ?_⟩
  rw [hsockets] at hsocket
  rw [(hprocesses _).2]
  exact hs socketId socket hsocket hanswered

theorem same_setProcess {p : Process} (h : (s.processes n).Same p) : s.Same (s.setProcess n p) := same_of_update rfl rfl h

theorem same_attach (s : State) (n : Nat) (shmid : Int) (i : Nat) (shmflg : Int) (a : Answers) :
    s.Same (s.attach n shmid i shmflg a) := by
  unfold attach
  dsimp only
  split
  · exact .refl s
  · split
    · exact same_setProcess ⟨rfl, rfl⟩
    · split <;> exact same_setProcess ⟨rfl, rfl⟩

theorem same_refuse (s : State) (n : Nat) (shmid : Int) (purpose : Purpose) : s.Same (s.refuse n shmid purpose) := by
  cases purpose <;> exact same_setProcess ⟨rfl, rfl⟩

theorem same_ask (s : State) (n : Nat) (shmid : Int) (purpose : Purpose) (a : Answers) : s.Same (s.ask n shmid purpose a) := by
  unfold ask
  split
  · exact same_refuse s n shmid purpose
  · exact same_setProcess ⟨rfl, rfl⟩

theorem same_receive (s : State) (n : Nat) (shmid : Int) (reply : Reply) (purpose : Purpose) (a : Answers) :
    s.Same (s.receive n shmid reply purpose a) := by
  unfold receive
  dsimp only
  split
  · split
    · refine Same.trans ?_ (same_refuse _ n shmid purpose)
      exact same_of_update rfl rfl ⟨rfl, rfl⟩
    · split
      · exact same_of_update rfl rfl ⟨rfl, rfl⟩
      · refine Same.trans ?_ (same_attach _ n _ _ _ a)
        exact same_of_update rfl rfl ⟨rfl, rfl⟩
  · exact same_refuse s n shmid purpose

theorem same_create (s : State) (n : Nat) (key : Int) (size : Nat) (taken : Option Int) (a : Answers) :
    s.Same (s.create n key size taken a) := by
  have htake := (s.processes n).same_takeId taken
  unfold create
  dsimp only
  split
  · exact same_setProcess htake
  · exact same_of_update rfl rfl htake

/-- A name that is bound is not bound again. -/
theorem bindLoop_free {pid fuel i socketId : Nat} (h : s.bindLoop pid fuel i = some socketId) : s.sockets socketId = none := by
  induction fuel generalizing i with
  | zero => cases h
  | succ fuel ih =>
    unfold bindLoop at h
    dsimp only at h
    split at h
    · next hfree =>
      cases h
      exact hfree
    · exact ih h

/-- A process that runs has a new socket. -/
theorem same_bind {p : Process} (h : (s.processes n).Same p) (hrun : (s.processes n).running = true) {socketId : Nat}
    (hfree : s.sockets socketId = none) (listening answered : Bool) (names : List Nat) :
    s.Same { s.setProcess n p with
      sockets := Function.update s.sockets socketId (some ⟨n, listening, answered⟩)
      names := names } := by
  have hsame := same_setProcess h
  refine ⟨hsame.processes, fun k socket hs => ?_, fun hs k socket hsocket hanswered => ?_⟩
  · have hne : k ≠ socketId := by
      rintro rfl
      rw [hfree] at hs
      cases hs
    exact ⟨socket, by simpa only [Function.update_of_ne hne] using hs, rfl, id⟩
  · by_cases hk : k = socketId
    · subst hk
      simp only [Function.update_self, Option.some.injEq] at hsocket
      rw [← hsocket, (hsame.processes n).2]
      exact hrun
    · simp only [Function.update_of_ne hk] at hsocket
      rw [(hsame.processes _).2]
      exact hs k socket hsocket hanswered

theorem same_startThread (hrun : (s.processes n).running = true) (a : Answers) : s.Same (s.startThread n a).1 := by
  unfold startThread
  dsimp only
  split
  · exact .refl s
  · split
    · exact .refl s
    · split
      · exact same_setProcess ⟨rfl, rfl⟩
      · next socketId hbind =>
        refine same_bind (p := { s.processes n with
          localSocketId := socketId, listening := a.listen && (a.thread || a.threadId), named := true }) ⟨rfl, rfl⟩ hrun ?_ _ _ _
        split at hbind
        · exact bindLoop_free hbind
        · cases hbind

theorem same_shmget (hrun : (s.processes n).running = true) (key : Int) (size : Nat) (a : Answers) :
    s.Same (s.shmget n key size a) := by
  have hcheck := same_setProcess (s := s) (s.processes n).same_checkPid
  have hthread := hcheck.trans (same_startThread (n := n) (by rw [(hcheck.processes n).2]; exact hrun) a)
  unfold shmget
  split
  · next heq =>
    rw [heq] at hthread
    exact hthread.trans (same_setProcess ⟨rfl, rfl⟩)
  · next heq =>
    rw [heq] at hthread
    split
    · exact hthread.trans (same_create _ n key size none a)
    · exact hthread.trans (same_setProcess ⟨rfl, rfl⟩)

theorem same_shmat (s : State) (n : Nat) (shmid shmflg : Int) (a : Answers) : s.Same (s.shmat n shmid shmflg a) := by
  refine (same_setProcess (s.processes n).same_checkPid).trans ?_
  unfold shmat
  dsimp only
  split
  · exact same_attach _ n shmid _ shmflg a
  · split
    · exact same_ask _ n shmid _ a
    · exact same_setProcess ⟨rfl, rfl⟩

theorem same_proceed (hs : s.proceed n a = some t) : s.Same t := by
  unfold proceed at hs
  split at hs
  · split at hs
    · cases hs
      exact same_setProcess ⟨rfl, rfl⟩
    · split at hs
      · cases hs
        exact same_setProcess ⟨rfl, rfl⟩
      · split at hs
        · cases hs
          exact same_of_update rfl rfl ⟨rfl, rfl⟩
        · cases hs
          exact same_ask s n _ _ a
  · cases hs
    exact same_receive s n _ _ _ a
  · cases hs
    exact same_of_update rfl rfl ⟨rfl, rfl⟩
  · next key size taken _ =>
    have htake := same_setProcess (s := s) ((s.processes n).same_takeId taken)
    dsimp only at hs
    split at hs
    · cases hs
      refine htake.trans (Same.trans ?_ (same_create _ n _ _ _ a))
      exact ⟨fun _ => ⟨rfl, rfl⟩, .of_eq rfl, fun h => h⟩
    · cases hs
      exact htake.trans (same_setProcess ⟨rfl, rfl⟩)
  · cases hs

theorem same_serve {asker : Nat} {sent : Bool} (hs : s.serve n asker sent = some t) :
    s.Same t ∧ (s.processes asker).call ≠ .idle := by
  unfold serve at hs
  split at hs
  · next hcall =>
    obtain ⟨-, ht⟩ := Option.ite_none_right_eq_some.1 hs
    cases ht
    exact ⟨same_of_update rfl rfl ⟨rfl, rfl⟩, by simp [hcall]⟩
  · cases hs

theorem same_hangup (hs : s.hangup n = some t) : s.Same t ∧ (s.processes n).call ≠ .idle := by
  unfold hangup at hs
  split at hs
  · next hcall =>
    obtain ⟨-, ht⟩ := Option.ite_none_left_eq_some.1 hs
    cases ht
    exact ⟨same_of_update rfl rfl ⟨rfl, rfl⟩, by simp [hcall]⟩
  · cases hs

theorem same_interrupt (hs : s.interrupt n = some t) : s.Same t ∧ (s.processes n).call ≠ .idle := by
  unfold interrupt at hs
  split at hs
  · next hcall =>
    cases hs
    exact ⟨same_setProcess ⟨rfl, rfl⟩, by simp [hcall]⟩
  · cases hs

theorem same_endThread {socketId : Nat} (hs : s.endThread socketId = some t) : s.Same t := by
  unfold endThread at hs
  split at hs
  · next owner listening hsocket =>
    cases hs
    refine ⟨fun m => ⟨rfl, rfl⟩, fun k socket hk => ?_, fun h k socket hk hanswered => ?_⟩
    · by_cases hne : k = socketId
      · subst hne
        rw [hsocket] at hk
        cases hk
        exact ⟨⟨owner, listening, false⟩, Function.update_self .., rfl, fun h => by cases h⟩
      · exact ⟨socket, by simpa only [Function.update_of_ne hne] using hk, rfl, id⟩
    · by_cases hne : k = socketId
      · subst hne
        simp only [Function.update_self, Option.some.injEq] at hk
        rw [← hk] at hanswered
        cases hanswered
      · simp only [Function.update_of_ne hne] at hk
        exact h k socket hk hanswered
  · cases hs

end State

/-- A step is one of a process that runs, begins or ends a process, or frees the name of a socket. -/
inductive Moves (s : State) (a : Action) (t : State) : Prop where
  | same (h : s.Same t) (hrun : ∀ m, a.process = some m → (s.processes m).running = true)
  | begins (m : Nat) (p : Process) (hm : a.process = some m) (ht : t = s.setProcess m p) (hcall : p.call = .idle)
    (hrun : p.running = true) (hpid : p.pid ≠ 0)
  | ends (m : Nat) (inherited : Bool) (ha : a = .exit m inherited) (ht : t = s.exit m inherited)
  | unbinds (socketId : Nat) (ha : a = .unbind socketId)
    (hgone : ∀ socket, s.sockets socketId = some socket → (s.processes socket.owner).running = false)
    (ht : t = { s with sockets := Function.update s.sockets socketId none })

theorem moves_of_step (h : s.Alive) {a : Action} (hs : step s a = some t) : Moves s a t := by
  cases a with
  | start n pid =>
    obtain ⟨⟨-, hpid⟩, ht⟩ := Option.ite_none_right_eq_some.1 hs
    cases ht
    exact .begins n _ rfl rfl rfl rfl hpid
  | fork n child pid =>
    obtain ⟨⟨hrun, -, hpid⟩, ht⟩ := Option.ite_none_right_eq_some.1 hs
    cases ht
    exact .begins child _ rfl rfl rfl hrun hpid
  | exit n inherited =>
    obtain ⟨-, ht⟩ := Option.ite_none_right_eq_some.1 hs
    cases ht
    exact .ends n inherited rfl rfl
  | unbind socketId =>
    obtain ⟨hgone, ht⟩ := Option.ite_none_right_eq_some.1 hs
    cases ht
    refine .unbinds socketId rfl (fun socket hsocket => ?_) rfl
    simpa [hsocket] using hgone
  | shmget n key size a =>
    obtain ⟨⟨hready, -⟩, ht⟩ := Option.ite_none_right_eq_some.1 hs
    cases ht
    exact .same (State.same_shmget hready.1 key size a) (by rintro m ⟨⟩; exact hready.1)
  | shmat n shmid shmflg a =>
    obtain ⟨⟨hready, -⟩, ht⟩ := Option.ite_none_right_eq_some.1 hs
    cases ht
    exact .same (State.same_shmat s n shmid shmflg a) (by rintro m ⟨⟩; exact hready.1)
  | shmdt n shmaddr =>
    obtain ⟨⟨hready, -⟩, ht⟩ := Option.ite_none_right_eq_some.1 hs
    cases ht
    exact .same (State.same_setProcess (Process.same_shmdt _ shmaddr)) (by rintro m ⟨⟩; exact hready.1)
  | shmctl n shmid cmd =>
    obtain ⟨hready, ht⟩ := Option.ite_none_right_eq_some.1 hs
    cases ht
    exact .same (State.same_setProcess (Process.same_shmctl _ shmid cmd)) (by rintro m ⟨⟩; exact hready.1)
  | proceed n a =>
    obtain ⟨⟨hrunning, -⟩, ht⟩ := Option.ite_none_right_eq_some.1 hs
    exact .same (State.same_proceed ht) (by rintro m ⟨⟩; exact hrunning)
  | serve n asker sent =>
    obtain ⟨hsame, hcall⟩ := State.same_serve hs
    exact .same hsame (by rintro m ⟨⟩; exact (h.running _ hcall).1)
  | hangup n =>
    obtain ⟨hsame, hcall⟩ := State.same_hangup hs
    exact .same hsame (by rintro m ⟨⟩; exact (h.running _ hcall).1)
  | interrupt n =>
    obtain ⟨hsame, hcall⟩ := State.same_interrupt hs
    exact .same hsame (by rintro m ⟨⟩; exact (h.running _ hcall).1)
  | endThread socketId => exact .same (State.same_endThread hs) (by simp [Action.process])

theorem State.Alive.step (h : s.Alive) {a : Action} (hs : step s a = some t) : t.Alive := by
  have hbound : ∃ N, ∀ m, N ≤ m → (t.processes m).call = .idle := by
    obtain ⟨N, hN⟩ := h.bound
    cases hprocess : a.process with
    | none =>
      refine ⟨N, fun m hm => ?_⟩
      rw [step_others hs (by simp [hprocess])]
      exact hN m hm
    | some n =>
      refine ⟨max N (n + 1), fun m hm => ?_⟩
      have hne : a.process ≠ some m := by
        rw [hprocess]
        simp
        omega
      rw [step_others hs hne]
      exact hN m (by omega)
  -- a process that begins or has ended is in no call
  have hupdate {n : Nat} {p : Process} (ht : t.processes = Function.update s.processes n p) (hcall : p.call = .idle)
      (hpid : p.running = true → p.pid ≠ 0) : t.Alive := by
    refine ⟨fun m hm => ?_, fun m hm => ?_, hbound⟩ <;> rw [ht] at hm ⊢ <;> by_cases hmn : m = n
    · subst hmn
      rw [Function.update_self, hcall] at hm
      exact absurd rfl hm
    · rw [Function.update_of_ne hmn] at hm ⊢
      exact h.running m hm
    · subst hmn
      rw [Function.update_self] at hm ⊢
      exact hpid hm
    · rw [Function.update_of_ne hmn] at hm ⊢
      exact h.pid m hm
  cases moves_of_step h hs with
  | same hsame hrunning =>
    refine ⟨fun m hcall => ?_, fun m hrun => ?_, hbound⟩
    · rw [(hsame.processes m).1, (hsame.processes m).2]
      have hrun : (s.processes m).running = true := by
        by_cases hm : a.process = some m
        · exact hrunning m hm
        · rw [step_others hs hm] at hcall
          exact (h.running m hcall).1
      exact ⟨hrun, h.pid m hrun⟩
    · rw [(hsame.processes m).2] at hrun
      rw [(hsame.processes m).1]
      exact h.pid m hrun
  | begins n p hm ht hcall hrun hpid =>
    cases ht
    exact hupdate rfl hcall fun _ => hpid
  | ends n inherited ha ht =>
    cases ht
    exact hupdate rfl rfl fun hrun => by cases hrun
  | unbinds socketId ha hgone ht =>
    cases ht
    exact ⟨h.running, h.pid, h.bound⟩

theorem alive_of_reach {C : State → Action → Prop} {pageSize : Nat} (h : Reach step C (State.start pageSize) s) : s.Alive :=
  h.invariant (I := State.Alive) ⟨by simp [State.start], by simp [State.start], 0, by simp [State.start]⟩
    fun _ _ _ ht _ hs => ht.step hs

/-! ## Who answers -/

theorem State.Answering.step (h : s.Answering) (halive : s.Alive) {a : Action} (hs : step s a = some t) : t.Answering := by
  cases moves_of_step halive hs with
  | same hsame hrunning => exact hsame.answering h
  | begins n p hm ht hcall hrun hpid =>
    cases ht
    intro socketId socket hsocket hanswered
    by_cases hn : socket.owner = n
    · rw [hn, State.setProcess_self]
      exact hrun
    · rw [State.setProcess_other p hn]
      exact h socketId socket hsocket hanswered
  | ends n inherited ha ht =>
    cases ht
    intro socketId socket hsocket hanswered
    simp only [State.exit] at hsocket
    split at hsocket
    · next socket' hsocket' =>
      split at hsocket
      · next hn =>
        cases hsocket
        have hother : (s.exit n inherited).processes socket.owner = s.processes socket.owner := State.setProcess_other _ hn
        rw [hother]
        exact h socketId socket hsocket' hanswered
      · split at hsocket
        · cases hsocket
          cases hanswered
        · cases hsocket
    · cases hsocket
  | unbinds socketId ha hgone ht =>
    cases ht
    intro k socket hsocket hanswered
    have hne : k ≠ socketId := by
      rintro rfl
      simp at hsocket
    simp only [Function.update_of_ne hne] at hsocket
    exact h k socket hsocket hanswered

theorem answering_of_reach {C : State → Action → Prop} {pageSize : Nat} (h : Reach step C (State.start pageSize) s) :
    s.Answering := by
  have hboth : s.Alive ∧ s.Answering := h.invariant (I := fun s => s.Alive ∧ s.Answering)
    ⟨alive_of_reach (C := Free) .refl, by simp [State.Answering, State.start]⟩ fun _ _ _ ht _ hs => ⟨ht.1.step hs, ht.2.step ht.1 hs⟩
  exact hboth.2

/-! ## Waiting -/

theorem State.asked_iff {shmid : Int} {socket : Socket} :
    s.asked shmid n = some socket ↔
      (0 ≤ socketIdFromShmid shmid ∧ s.sockets (socketIdFromShmid shmid).toNat = some socket) ∧ socket.owner = n := by
  simp [State.asked, State.socket]

theorem State.waits_iff :
    s.Waits m n ↔ ∃ shmid purpose socket, (s.processes m).call = .asking shmid n none purpose ∧ s.asked shmid n = some socket := by
  unfold State.Waits Waiting.Waits State.target
  constructor
  · intro h
    split at h
    · next shmid owner purpose hcall =>
      obtain ⟨socket, hsocket, rfl⟩ := Option.map_eq_some_iff.1 h
      exact ⟨shmid, purpose, socket, hcall, hsocket⟩
    · cases h
  · rintro ⟨shmid, purpose, socket, hcall, hsocket⟩
    simp [hcall, hsocket]

/-- None of those that a process waited for at first ends, nor loses a socket, and no signal interrupts their calls. -/
structure Outlast (s : State) (m : Nat) (u : State) (a : Action) : Prop where
  exit : ∀ k inherited, ReflTransGen s.Waits m k → a ≠ .exit k inherited
  unbind : ∀ socketId socket, u.sockets socketId = some socket → ReflTransGen s.Waits m socket.owner → a ≠ .unbind socketId
  interrupt : ∀ k, ReflTransGen s.Waits m k → a ≠ .interrupt k

/-- The socket at which a process was asked stays. -/
theorem asked_kept (h : s.Alive) {u : State} {a : Action} {shmid : Int} {socket : Socket} (ha : Outlast u m s a)
    (hn : ReflTransGen u.Waits m n) (hsocket : s.asked shmid n = some socket) (hs : step s a = some t) :
    ∃ socket', t.asked shmid n = some socket' ∧ (socket'.answered → socket.answered) := by
  obtain ⟨⟨hname, hbound⟩, rfl⟩ := State.asked_iff.1 hsocket
  cases moves_of_step h hs with
  | same hsame hrunning =>
    obtain ⟨socket', hbound', howner, hanswered⟩ := hsame.sockets _ socket hbound
    exact ⟨socket', State.asked_iff.2 ⟨⟨hname, hbound'⟩, howner⟩, hanswered⟩
  | begins k p hk ht hcall hrun hpid =>
    cases ht
    exact ⟨socket, State.asked_iff.2 ⟨⟨hname, hbound⟩, rfl⟩, id⟩
  | ends k inherited ha' ht =>
    cases ht
    have hne : socket.owner ≠ k := by
      rintro rfl
      exact ha.exit _ inherited hn ha'
    refine ⟨socket, State.asked_iff.2 ⟨⟨hname, ?_⟩, rfl⟩, id⟩
    simp [State.exit, hbound, hne]
  | unbinds socketId ha' hgone ht =>
    cases ht
    have hne : (socketIdFromShmid shmid).toNat ≠ socketId := by
      rintro rfl
      exact ha.unbind _ socket hbound hn ha'
    refine ⟨socket, State.asked_iff.2 ⟨⟨hname, ?_⟩, rfl⟩, id⟩
    simpa only [Function.update_of_ne hne] using hbound

/-- The call of a process goes on waiting at a socket, unless the thread there answers. -/
theorem call_kept (h : s.Alive) {u : State} {a : Action} {shmid : Int} {purpose : Purpose} {socket : Socket}
    (ha : Outlast u m s a) {k : Nat} (hk : ReflTransGen u.Waits m k) (hcall : (s.processes k).call = .asking shmid n none purpose)
    (hsocket : s.asked shmid n = some socket) (hsilent : (s.processes n).call ≠ .idle ∨ socket.answered = false)
    (hs : step s a = some t) : (t.processes k).call = .asking shmid n none purpose := by
  have hidle : (s.processes k).call ≠ .idle := by simp [hcall]
  by_cases hprocess : a.process = some k
  · -- the process cannot move: its call waits, and nobody answers it
    exfalso
    cases a with
    | start l pid | fork l l' pid =>
      cases hprocess
      obtain ⟨hguard, -⟩ := Option.ite_none_right_eq_some.1 hs
      simp [(h.running k hidle).2] at hguard
    | exit l inherited =>
      cases hprocess
      exact ha.exit k inherited hk rfl
    | unbind socketId | endThread socketId => cases hprocess
    | shmget l key size a | shmat l shmid shmflg a | shmdt l shmaddr =>
      cases hprocess
      obtain ⟨⟨hready, -⟩, -⟩ := Option.ite_none_right_eq_some.1 hs
      exact hidle hready.2
    | shmctl l shmid cmd =>
      cases hprocess
      obtain ⟨hready, -⟩ := Option.ite_none_right_eq_some.1 hs
      exact hidle hready.2
    | proceed l a =>
      cases hprocess
      obtain ⟨-, ht⟩ := Option.ite_none_right_eq_some.1 hs
      simp [State.proceed, hcall] at ht
    | serve l asker sent =>
      cases hprocess
      have ht : s.serve l k sent = some t := hs
      simp only [State.serve, hcall] at ht
      obtain ⟨⟨rfl, -, hfree, hanswered⟩, -⟩ := Option.ite_none_right_eq_some.1 ht
      rw [hsocket, Option.any_some] at hanswered
      rcases hsilent with hbusy | hdeaf
      · exact hbusy hfree
      · rw [hdeaf] at hanswered
        cases hanswered
    | hangup l =>
      cases hprocess
      have ht : s.hangup k = some t := hs
      simp [State.hangup, hcall, hsocket] at ht
    | interrupt l =>
      cases hprocess
      exact ha.interrupt k hk rfl
  · rw [step_others hs hprocess]
    exact hcall

/-- A process goes on waiting as long as the one that it waits for is in a call. -/
theorem waits_kept (h : s.Alive) {u : State} {a : Action} (ha : Outlast u m s a) {j k : Nat} (hj : ReflTransGen u.Waits m j)
    (hk : ReflTransGen u.Waits m k) (hjk : s.Waits j k) (hbusy : (s.processes k).call ≠ .idle) (hs : step s a = some t) :
    t.Waits j k := by
  obtain ⟨shmid, purpose, socket, hcall, hsocket⟩ := State.waits_iff.1 hjk
  obtain ⟨socket', hsocket', -⟩ := asked_kept h ha hk hsocket hs
  exact State.waits_iff.2 ⟨shmid, purpose, socket', call_kept h ha hj hcall hsocket (.inl hbusy) hs, hsocket'⟩

/-- A process waits at a socket that has no thread. -/
def State.Deaf (s : State) (k n : Nat) : Prop :=
  ∃ shmid purpose socket, (s.processes k).call = .asking shmid n none purpose ∧ s.asked shmid n = some socket ∧
    socket.answered = false

theorem State.Deaf.waits {k : Nat} (h : s.Deaf k n) : s.Waits k n := by
  obtain ⟨shmid, purpose, socket, hcall, hsocket, -⟩ := h
  exact State.waits_iff.2 ⟨shmid, purpose, socket, hcall, hsocket⟩

/-- The thread does not come back. -/
theorem deaf_kept (h : s.Alive) {u : State} {a : Action} (ha : Outlast u m s a) {k : Nat} (hk : ReflTransGen u.Waits m k)
    (hn : ReflTransGen u.Waits m n) (hdeaf : s.Deaf k n) (hs : step s a = some t) : t.Deaf k n := by
  obtain ⟨shmid, purpose, socket, hcall, hsocket, hsilent⟩ := hdeaf
  obtain ⟨socket', hsocket', hanswered⟩ := asked_kept h ha hn hsocket hs
  refine ⟨shmid, purpose, socket', call_kept h ha hk hcall hsocket (.inr hsilent) hs, hsocket', ?_⟩
  simpa [hsilent] using hanswered

/-- A process waits for a circle of processes, or for one that will not answer. -/
def State.Stuck (s : State) (m : Nat) : Prop :=
  ∃ k, ReflTransGen s.Waits m k ∧ (TransGen s.Waits k k ∨ ∃ n, s.Deaf k n)

/-- Who is stuck stays so until one of those that it waits for ends, or is interrupted. -/
theorem stuck_kept (h : s.Alive) (hm : s.Stuck m) (hrun : Reach step (Outlast s m) s t) : t.Stuck m := by
  obtain ⟨k, hmk, hk⟩ := hm
  -- what the processes that `m` waits for at first wait for
  let R (u : State) (x y : Nat) : Prop := u.Waits x y ∧ ReflTransGen s.Waits m x
  have hle (u : State) : R u ≤ u.Waits := fun _ _ h => h.1
  have hbusy (u : State) (x y : Nat) (hxy : R u x y) : (u.processes x).call ≠ .idle ∧ ReflTransGen s.Waits m x := by
    obtain ⟨shmid, purpose, socket, hcall, -⟩ := State.waits_iff.1 hxy.1
    exact ⟨by simp [hcall], hxy.2⟩
  have hdeaf (u : State) (n : Nat) (hn : u.Deaf k n) : (u.processes k).call ≠ .idle ∧ ReflTransGen s.Waits m k := by
    obtain ⟨shmid, purpose, socket, hcall, -⟩ := hn
    exact ⟨by simp [hcall], hmk⟩
  have hkeep {u v : State} {a : Action} (hu : u.Alive) (ha : Outlast s m u a) (hs : step u a = some v) (x y : Nat)
      (hxy : R u x y) (hy : (u.processes y).call ≠ .idle ∧ ReflTransGen s.Waits m y) : R v x y :=
    ⟨waits_kept hu ha hxy.2 hy.2 hxy.1 hy.1 hs, hxy.2⟩
  rcases hk with hk | ⟨n, hn⟩
  · have hlasts : t.Alive ∧ ReflTransGen (R t) m k ∧ TransGen (R t) k k := by
      refine hrun.invariant (I := fun t => t.Alive ∧ ReflTransGen (R t) m k ∧ TransGen (R t) k k)
        ⟨h, chain_within hmk, cycle_within hmk hk⟩ fun u a v hu ha hs => ?_
      obtain ⟨l, hkl, -⟩ := TransGen.head'_iff.1 hu.2.2
      exact ⟨hu.1.step hs, chain_kept (hkeep hu.1 ha hs) (hbusy u) (hbusy u _ _ hkl) hu.2.1,
        cycle_kept (hkeep hu.1 ha hs) (hbusy u) hu.2.2⟩
    exact ⟨k, ReflTransGen.mono (hle t) _ _ hlasts.2.1, .inl (TransGen.mono (hle t) _ _ hlasts.2.2)⟩
  · have hlasts : t.Alive ∧ ReflTransGen (R t) m k ∧ t.Deaf k n := by
      refine hrun.invariant (I := fun t => t.Alive ∧ ReflTransGen (R t) m k ∧ t.Deaf k n) ⟨h, chain_within hmk, hn⟩
        fun u a v hu ha hs => ?_
      exact ⟨hu.1.step hs, chain_kept (hkeep hu.1 ha hs) (hbusy u) (hdeaf u n hu.2.2) hu.2.1,
        deaf_kept hu.1 ha hmk (hmk.tail hn.waits) hu.2.2 hs⟩
    exact ⟨k, ReflTransGen.mono (hle t) _ _ hlasts.2.1, .inr ⟨n, hlasts.2.2⟩⟩

/-- When the process at the end of a chain is in no call that waits, it can take a step, or has no thread. -/
theorem moves_of_free (h : s.Answering) {j k : Nat} (hjk : s.Waits j k) (hk : ¬(s.processes k).call.Unanswered) :
    s.Deaf j k ∨ ∃ a t, step s a = some t ∧ (a = .serve k j true ∨ a = .proceed k {}) := by
  obtain ⟨shmid, purpose, socket, hcall, hsocket⟩ := State.waits_iff.1 hjk
  cases hanswered : socket.answered with
  | false => exact .inl ⟨shmid, purpose, socket, hcall, hsocket, hanswered⟩
  | true =>
    right
    have hfresh : (s.processes k).Fresh {} := by simp [Process.Fresh]
    have hrun : (s.processes k).running = true := by
      obtain ⟨⟨-, hbound⟩, rfl⟩ := State.asked_iff.1 hsocket
      exact h _ socket hbound hanswered
    cases hk' : (s.processes k).call with
    | idle =>
      refine ⟨.serve k j true, ?_⟩
      simp [step, State.serve, hcall, hrun, hk', hsocket, hanswered]
    | reading key size taken =>
      refine ⟨.proceed k {}, ?_⟩
      simp only [step, hrun, hfresh, and_self, if_true, State.proceed, hk']
      split
      · exact ⟨_, rfl, by simp⟩
      · split
        · exact ⟨_, rfl, by simp⟩
        · split <;> exact ⟨_, rfl, by simp⟩
    | asking id owner reply purpose' =>
      cases reply with
      | none => exact absurd ⟨id, owner, purpose', hk'⟩ hk
      | some reply =>
        refine ⟨.proceed k {}, ?_⟩
        simp [step, hrun, hfresh, State.proceed, hk']
    | unlinking key size taken =>
      refine ⟨.proceed k {}, ?_⟩
      simp [step, hrun, hfresh, State.proceed, hk']
    | linking key size taken =>
      refine ⟨.proceed k {}, ?_⟩
      simp only [step, hrun, hfresh, and_self, if_true, State.proceed, hk']
      split <;> exact ⟨_, rfl, by simp⟩

/-- **Which calls wait for ever**: a process that waits for a circle of processes, or for one whose thread has ended, does so in
every run in which none of those that it waits for ends, nor is interrupted; any other process that waits for an answer does so,
through others, for one that can take a step, or at a socket that is gone. -/
theorem stuck_or_moves {pageSize : Nat} (h : Reach step Free (State.start pageSize) s) (hm : (s.processes m).call.Unanswered) :
    (s.Stuck m → ∀ t, Reach step (Outlast s m) s t → t.Stuck m) ∧
      (¬s.Stuck m → ∃ j, ReflTransGen s.Waits m j ∧
        ∃ a t, step s a = some t ∧ (a = .hangup j ∨ ∃ k, s.Waits j k ∧ (a = .serve k j true ∨ a = .proceed k {}))) := by
  have halive := alive_of_reach h
  refine ⟨fun hstuck t ht => stuck_kept halive hstuck ht, fun hfree => ?_⟩
  have hfinite : {n | s.target n ≠ none}.Finite := by
    obtain ⟨N, hN⟩ := halive.bound
    refine (Set.finite_lt_nat N).subset fun n hn => ?_
    by_contra hle
    exact hn (by simp [State.target, hN n (Nat.le_of_not_lt hle)])
  rcases exists_free_or_cycle hfinite m with ⟨k, hmk, hk⟩ | ⟨k, hmk, hcycle⟩
  · by_cases hwaits : (s.processes k).call.Unanswered
    · -- the last one waits at a socket that is gone
      obtain ⟨shmid, owner, purpose, hcall⟩ := hwaits
      have hgone : s.asked shmid owner = none := by simpa [State.target, hcall] using hk
      refine ⟨k, hmk, .hangup k, s.setCall k (.asking shmid owner (some .closed) purpose), ?_, .inl rfl⟩
      simp [step, State.hangup, hcall, hgone]
    · rcases ReflTransGen.cases_tail hmk with rfl | ⟨j, hmj, hjk⟩
      · exact absurd hm hwaits
      · rcases moves_of_free (answering_of_reach h) hjk hwaits with hdeaf | ⟨a, t, hs, ha⟩
        · exact absurd ⟨j, hmj, .inr ⟨k, hdeaf⟩⟩ hfree
        · exact ⟨j, hmj, a, t, hs, .inr ⟨k, hjk, ha⟩⟩
  · exact absurd ⟨k, hmk, .inl hcycle⟩ hfree

/-- A process removes its segment of a key, and asks for the key again. -/
def asksItself : List Action :=
  [.start 0 500, .shmget 0 7 10 {}, .proceed 0 {}, .proceed 0 { descriptor := some 3 }, .shmctl 0 32768001 .remove,
    .shmget 0 7 10 {}, .proceed 0 {}]

theorem stuck_or_moves_itself : ∃ s, Reach step Free (State.start 4096) s ∧ s.Waits 0 0 ∧
    ∀ t, Reach step (Outlast s 0) s t → t.Stuck 0 := by
  have hany : (exec step (State.start 4096) asksItself).any (fun s => s.target 0 = some 0) = true := by decide +kernel
  obtain ⟨s, hs, hfacts⟩ := (Option.any_eq_true _ _).1 hany
  have htarget : s.target 0 = some 0 := of_decide_eq_true hfacts
  have hwaits : s.Waits 0 0 := htarget
  have hreach : Reach step Free (State.start 4096) s := Reach.of_exec asksItself hs
  obtain ⟨shmid, purpose, -, hcall, -⟩ := State.waits_iff.1 hwaits
  exact ⟨s, hreach, hwaits, (stuck_or_moves hreach ⟨shmid, 0, purpose, hcall⟩).1 ⟨0, .refl, .inl (.single hwaits)⟩⟩

end Lorie.SharedMemory
