import Lorie.SharedMemory.Sound

/-!
# Who changes in a step

- `Action.process`: the process that a step changes; the others stay as they are (`step_others`);
- `State.Answered`: what the last `shmat` of a process returned is attached (`answered_of_reach`).
-/

namespace Lorie.SharedMemory

open Lorie.Lib

variable {s t : State} {n m : Nat} {a : Answers}

/-- The process that a step changes -/
def Action.process : Action → Option Nat
  | .start n _ | .fork _ n _ | .exit n _ | .shmget n _ _ _ | .shmat n _ _ _ | .shmdt n _ | .shmctl n _ _ | .proceed n _
  | .serve _ n _ | .hangup n | .interrupt n => some n
  | .unbind _ | .endThread _ => none

namespace State

/-! ## The other processes -/

@[simp] theorem setProcess_self (s : State) (n : Nat) (p : Process) : (s.setProcess n p).processes n = p := by
  simp [setProcess]

@[simp] theorem setProcess_other (p : Process) (hm : m ≠ n) : (s.setProcess n p).processes m = s.processes m := by
  simp [setProcess, hm]

@[simp] theorem setProcess_regions (s : State) (n : Nat) (p : Process) : (s.setProcess n p).regions = s.regions := rfl

@[simp] theorem setCall_other (call : Call) (hm : m ≠ n) : (s.setCall n call).processes m = s.processes m := by
  simp [setCall, hm]

theorem startThread_other (a : Answers) (hm : m ≠ n) : (s.startThread n a).1.processes m = s.processes m := by
  unfold startThread
  dsimp only
  split
  · rfl
  · split
    · rfl
    · split <;> simp [setProcess, hm]

theorem create_other (key : Int) (size : Nat) (taken : Option Int) (a : Answers) (hm : m ≠ n) :
    (s.create n key size taken a).processes m = s.processes m := by
  unfold create
  dsimp only
  split <;> simp [setProcess, hm]

theorem attach_other (shmid : Int) (i : Nat) (shmflg : Int) (a : Answers) (hm : m ≠ n) :
    (s.attach n shmid i shmflg a).processes m = s.processes m := by
  unfold attach
  dsimp only
  split
  · rfl
  · split
    · simp [hm]
    · split <;> simp [hm]

theorem refuse_other (shmid : Int) (purpose : Purpose) (hm : m ≠ n) : (s.refuse n shmid purpose).processes m = s.processes m := by
  cases purpose <;> simp [refuse, hm]

theorem ask_other (shmid : Int) (purpose : Purpose) (a : Answers) (hm : m ≠ n) :
    (s.ask n shmid purpose a).processes m = s.processes m := by
  unfold ask
  split
  · exact refuse_other shmid purpose hm
  · simp [hm]

theorem receive_other (shmid : Int) (reply : Reply) (purpose : Purpose) (a : Answers) (hm : m ≠ n) :
    (s.receive n shmid reply purpose a).processes m = s.processes m := by
  unfold receive
  dsimp only
  split
  · split
    · rw [refuse_other shmid purpose hm, setProcess_other _ hm]
    · split
      · simp [setProcess, hm]
      · rw [attach_other _ _ _ a hm, setProcess_other _ hm]
  · exact refuse_other shmid purpose hm

theorem shmget_other (key : Int) (size : Nat) (a : Answers) (hm : m ≠ n) :
    (s.shmget n key size a).processes m = s.processes m := by
  have hthread := startThread_other (s := s.setProcess n (s.processes n).checkPid) a hm
  rw [setProcess_other _ hm] at hthread
  unfold shmget
  split
  · next heq =>
    rw [heq] at hthread
    simpa [hm] using hthread
  · next heq =>
    rw [heq] at hthread
    split
    · rw [create_other _ _ _ a hm, hthread]
    · simpa [hm] using hthread

theorem shmat_other (shmid shmflg : Int) (a : Answers) (hm : m ≠ n) :
    (s.shmat n shmid shmflg a).processes m = s.processes m := by
  unfold shmat
  dsimp only
  split
  · rw [attach_other _ _ _ a hm, setProcess_other _ hm]
  · split
    · rw [ask_other _ _ a hm, setProcess_other _ hm]
    · simp [hm]

theorem proceed_other (hs : s.proceed n a = some t) (hm : m ≠ n) : t.processes m = s.processes m := by
  unfold proceed at hs
  split at hs
  · split at hs
    · cases hs
      simp [hm]
    · split at hs
      · cases hs
        simp [hm]
      · split at hs
        · cases hs
          simp [setProcess, hm]
        · cases hs
          exact ask_other _ _ a hm
  · cases hs
    exact receive_other _ _ _ a hm
  · cases hs
    simp [setCall, setProcess, hm]
  · dsimp only at hs
    split at hs
    · cases hs
      rw [create_other _ _ _ a hm]
      simp [setProcess, hm]
    · cases hs
      simp [hm]
  · cases hs

theorem serve_other {asker : Nat} {sent : Bool} (hs : s.serve n asker sent = some t) (hm : m ≠ asker) :
    t.processes m = s.processes m := by
  unfold serve at hs
  split at hs
  · obtain ⟨-, ht⟩ := Option.ite_none_right_eq_some.1 hs
    cases ht
    simp [hm]
  · cases hs

theorem hangup_other (hs : s.hangup n = some t) (hm : m ≠ n) : t.processes m = s.processes m := by
  unfold hangup at hs
  split at hs
  · obtain ⟨-, ht⟩ := Option.ite_none_left_eq_some.1 hs
    cases ht
    simp [hm]
  · cases hs

theorem interrupt_other (hs : s.interrupt n = some t) (hm : m ≠ n) : t.processes m = s.processes m := by
  unfold interrupt at hs
  split at hs
  · cases hs
    simp [hm]
  · cases hs

theorem endThread_processes {socketId : Nat} (hs : s.endThread socketId = some t) : t.processes = s.processes := by
  unfold endThread at hs
  split at hs <;> cases hs
  rfl

end State

/-- **A step changes one process.** -/
theorem step_others {a : Action} (hs : step s a = some t) (hm : a.process ≠ some m) : t.processes m = s.processes m := by
  cases a with
  | unbind socketId =>
    obtain ⟨-, ht⟩ := Option.ite_none_right_eq_some.1 hs
    cases ht
    rfl
  | serve n asker sent => exact State.serve_other hs fun h => hm (by rw [h]; rfl)
  | hangup n => exact State.hangup_other hs fun h => hm (by rw [h]; rfl)
  | interrupt n => exact State.interrupt_other hs fun h => hm (by rw [h]; rfl)
  | endThread socketId => rw [State.endThread_processes hs]
  | proceed n a =>
    obtain ⟨-, ht⟩ := Option.ite_none_right_eq_some.1 hs
    exact State.proceed_other ht fun h => hm (by rw [h]; rfl)
  | start n pid | fork n child pid | shmdt n shmaddr | shmctl n shmid cmd =>
    obtain ⟨-, ht⟩ := Option.ite_none_right_eq_some.1 hs
    cases ht
    exact State.setProcess_other _ fun h => hm (by rw [h]; rfl)
  | exit n inherited =>
    obtain ⟨-, ht⟩ := Option.ite_none_right_eq_some.1 hs
    cases ht
    exact State.setProcess_other _ fun h => hm (by rw [h]; rfl)
  | shmget n key size a =>
    obtain ⟨-, ht⟩ := Option.ite_none_right_eq_some.1 hs
    cases ht
    exact State.shmget_other _ _ a fun h => hm (by rw [h]; rfl)
  | shmat n shmid shmflg a =>
    obtain ⟨-, ht⟩ := Option.ite_none_right_eq_some.1 hs
    cases ht
    exact State.shmat_other _ _ a fun h => hm (by rw [h]; rfl)

/-! ## What `shmat` returned -/

theorem Process.answered_of_ne {p : Process} (h : ∀ shmid addr, p.result ≠ some (.address shmid (some addr))) : p.Answered :=
  fun shmid addr hr => absurd hr (h shmid addr)

namespace State

/-- What the last `shmat` of every process returned is attached. -/
def Answered (s : State) : Prop := ∀ m, (s.processes m).Answered

theorem attach_answered {shmid : Int} {i : Nat} {segment : Segment} (hi : (s.processes n).shmem[i]? = some segment)
    (hid : segment.id = shmid) (shmflg : Int) (a : Answers) : ((s.attach n shmid i shmflg a).processes n).Answered := by
  unfold attach
  simp only [hi]
  split
  · next addr haddr =>
    rw [setProcess_self]
    intro shmid' addr' hr
    simp only [Process.finish, Option.some.injEq, Result.address.injEq] at hr
    obtain ⟨rfl, rfl⟩ := hr
    exact ⟨segment, List.mem_of_getElem? hi, hid, haddr⟩
  · split
    · rw [setProcess_self]
      exact Process.answered_of_ne (by simp [Process.finish])
    · next addr _ =>
      rw [setProcess_self]
      intro shmid' addr' hr
      simp only [Process.finish, Option.some.injEq, Result.address.injEq] at hr
      obtain ⟨rfl, rfl⟩ := hr
      obtain ⟨pre, post, -, -, hmodify⟩ := exists_split hi
      refine ⟨{ segment with addr := some addr }, ?_, hid, rfl⟩
      simp [Process.finish, hmodify]

theorem refuse_answered (s : State) (n : Nat) (shmid : Int) (purpose : Purpose) :
    ((s.refuse n shmid purpose).processes n).Answered := by
  cases purpose <;> exact Process.answered_of_ne (by simp [refuse, setCall, Process.finish])

theorem ask_answered (s : State) (n : Nat) (shmid : Int) (purpose : Purpose) (a : Answers) :
    ((s.ask n shmid purpose a).processes n).Answered := by
  unfold ask
  split
  · exact refuse_answered s n shmid purpose
  · exact Process.answered_of_ne (by simp [setCall])

theorem receive_answered (s : State) (n : Nat) (shmid : Int) (reply : Reply) (purpose : Purpose) (a : Answers) :
    ((s.receive n shmid reply purpose a).processes n).Answered := by
  unfold receive
  dsimp only
  split
  · next key region number hnumber =>
    split
    · exact refuse_answered _ n shmid purpose
    · split
      · exact Process.answered_of_ne (by simp [setProcess, Process.finish])
      · next shmflg =>
        have hi (segment : Segment) :
            ((s.setProcess n ((s.processes n).add segment)).processes n).shmem[(s.processes n).shmem.length]? = some segment := by
          rw [setProcess_self]
          exact List.getElem?_concat_length
        exact attach_answered (hi _) (by rfl) shmflg a
  · exact refuse_answered s n shmid purpose

theorem create_answered (s : State) (n : Nat) (key : Int) (size : Nat) (taken : Option Int) (a : Answers) :
    ((s.create n key size taken a).processes n).Answered := by
  unfold create
  dsimp only
  split <;> exact Process.answered_of_ne (by simp [setProcess, Process.finish])

theorem proceed_answered (hs : s.proceed n a = some t) : (t.processes n).Answered := by
  unfold proceed at hs
  split at hs
  · split at hs
    · cases hs
      exact Process.answered_of_ne (by simp [setCall])
    · split at hs
      · cases hs
        exact Process.answered_of_ne (by simp [setCall])
      · split at hs
        · cases hs
          exact Process.answered_of_ne (by simp [setProcess, Process.finish])
        · cases hs
          exact ask_answered s n _ _ a
  · cases hs
    exact receive_answered s n _ _ _ a
  · cases hs
    exact Process.answered_of_ne (by simp [setCall, setProcess])
  · dsimp only at hs
    split at hs
    · cases hs
      exact create_answered _ n _ _ _ a
    · cases hs
      exact Process.answered_of_ne (by simp [setCall])
  · cases hs

theorem Answered.step (h : s.Answered) {a : Action} (hs : step s a = some t) : t.Answered := by
  intro m
  by_cases hm : a.process = some m
  · cases a with
    | start n pid | fork k n pid | exit n inherited =>
      cases hm
      obtain ⟨-, ht⟩ := Option.ite_none_right_eq_some.1 hs
      cases ht
      exact Process.answered_of_ne (by simp [setProcess, State.exit])
    | unbind socketId | endThread socketId => cases hm
    | shmget n key size a =>
      cases hm
      obtain ⟨-, ht⟩ := Option.ite_none_right_eq_some.1 hs
      cases ht
      unfold State.shmget
      split
      · exact Process.answered_of_ne (by simp [Process.finish])
      · split
        · exact create_answered _ m key size none a
        · exact Process.answered_of_ne (by simp [setCall])
    | shmat n shmid shmflg a =>
      cases hm
      obtain ⟨-, ht⟩ := Option.ite_none_right_eq_some.1 hs
      cases ht
      unfold State.shmat
      dsimp only
      split
      · next i hfind =>
        obtain ⟨segment, hi, hid⟩ := exists_of_findIdx? hfind
        exact attach_answered hi (of_decide_eq_true hid) shmflg a
      · split
        · exact ask_answered _ m shmid _ a
        · exact Process.answered_of_ne (by simp [Process.finish])
    | shmdt n shmaddr =>
      cases hm
      obtain ⟨-, ht⟩ := Option.ite_none_right_eq_some.1 hs
      cases ht
      rw [setProcess_self]
      unfold Process.shmdt
      dsimp only
      split <;> exact Process.answered_of_ne (by simp [Process.finish])
    | shmctl n shmid cmd =>
      cases hm
      obtain ⟨-, ht⟩ := Option.ite_none_right_eq_some.1 hs
      cases ht
      rw [setProcess_self]
      refine Process.answered_of_ne ?_
      unfold Process.shmctl
      split
      · unfold Process.remove
        split <;> simp [Process.finish]
      · unfold Process.stat
        split <;> simp [Process.finish]
      · simp [Process.finish]
    | proceed n a =>
      cases hm
      obtain ⟨-, ht⟩ := Option.ite_none_right_eq_some.1 hs
      exact proceed_answered ht
    | serve n asker sent =>
      cases hm
      have hs' : s.serve n m sent = some t := hs
      unfold serve at hs'
      split at hs'
      · obtain ⟨-, ht⟩ := Option.ite_none_right_eq_some.1 hs'
        cases ht
        exact Process.answered_of_ne (by simp [setCall])
      · cases hs'
    | hangup n =>
      cases hm
      have hs' : s.hangup m = some t := hs
      unfold hangup at hs'
      split at hs'
      · obtain ⟨-, ht⟩ := Option.ite_none_left_eq_some.1 hs'
        cases ht
        exact Process.answered_of_ne (by simp [setCall])
      · cases hs'
    | interrupt n =>
      cases hm
      have hs' : s.interrupt m = some t := hs
      unfold interrupt at hs'
      split at hs'
      · cases hs'
        exact Process.answered_of_ne (by simp [setCall])
      · cases hs'
  · rw [step_others hs hm]
    exact h m

end State

theorem answered_of_reach {C : State → Action → Prop} {pageSize : Nat} (h : Reach step C (State.start pageSize) s) :
    s.Answered :=
  h.invariant (I := State.Answered) (fun _ => Process.answered_of_ne (by simp [State.start])) fun _ _ _ ht _ hs => ht.step hs

end Lorie.SharedMemory
