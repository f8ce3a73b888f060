import Lorie.SharedMemory.Frame

/-!
# Descriptors and mappings of a process

- `Sizeless`: the kernel's `int` says that a region has no size, and then a process that received its descriptor drops it;
- `Process.Tidy`: no other descriptor is lost, in a process that was not forked (`tidy_of_reach`);
- `accounted_of_reach`: every descriptor and every mapping belongs to one segment of the table.
-/

namespace Lorie.SharedMemory

open Lorie.Lib

variable {regions : List Region} {p q : Process} {s t : State} {n : Nat} {a : Answers}

/-- The size of a region reads as 0 or as an error. -/
def Sizeless (regions : List Region) (region : Nat) : Prop :=
  ∃ r, regions[region]? = some r ∧ (Int.bmod r.size (2 ^ 32) = 0 ∨ Int.bmod r.size (2 ^ 32) = -1)

theorem Sizeless.append {region : Nat} (h : Sizeless regions region) (more : List Region) : Sizeless (regions ++ more) region := by
  obtain ⟨r, hr, hsize⟩ := h
  have hlt : region < regions.length := (List.getElem?_eq_some_iff.1 hr).1
  exact ⟨r, by rw [List.getElem?_append_left hlt, hr], hsize⟩

namespace Process

/-- No descriptor is lost but those of regions without a size, and no mapping. -/
structure Tidy (regions : List Region) (p : Process) : Prop where
  setup : p.pidSetup = 0 ∨ p.pidSetup = p.pid
  kept : p.kept = []
  numbers : ∀ d ∈ p.opened, d.number ≠ 0
  lost : ∀ d ∈ p.lost, Sizeless regions d.region

namespace Tidy

theorem append (h : p.Tidy regions) (more : List Region) : p.Tidy (regions ++ more) :=
  ⟨h.setup, h.kept, h.numbers, fun d hd => (h.lost d hd).append more⟩

theorem empty (pid : Nat) (running : Bool) : Process.Tidy regions { pid, running } := ⟨.inl rfl, rfl, by simp, by simp⟩

theorem congr (h : p.Tidy regions) (hsetup : q.pidSetup = p.pidSetup) (hpid : q.pid = p.pid) (hkept : q.kept = p.kept)
    (hopened : q.opened = p.opened) (hlost : q.lost = p.lost) : q.Tidy regions := by
  refine ⟨?_, hkept.trans h.kept, ?_, ?_⟩
  · rw [hsetup, hpid]
    exact h.setup
  · rw [hopened]
    exact h.numbers
  · rw [hlost]
    exact h.lost

theorem finish (h : p.Tidy regions) (result : Result) : (p.finish result).Tidy regions := h.congr rfl rfl rfl rfl rfl

theorem takeId (h : p.Tidy regions) (taken : Option Int) : (p.takeId taken).1.Tidy regions := by
  cases taken with
  | none => exact h.congr rfl rfl rfl rfl rfl
  | some id => exact h

theorem checkPid (h : p.Tidy regions) : p.checkPid.Tidy regions := by
  unfold Process.checkPid
  split
  · exact ⟨.inr rfl, h.kept, h.numbers, h.lost⟩
  · next hzero =>
    rw [if_neg (fun hne => hne (h.setup.resolve_left hzero))]
    exact h

theorem add (h : p.Tidy regions) {segment : Segment} (hnumber : segment.descriptor.number ≠ 0) : (p.add segment).Tidy regions := by
  refine ⟨h.setup, h.kept, fun d hd => ?_, h.lost⟩
  rcases List.mem_cons.1 hd with rfl | hd
  · exact hnumber
  · exact h.numbers d hd

theorem lose (h : p.Tidy regions) {d : Descriptor} (hnumber : d.number ≠ 0) (hsize : Sizeless regions d.region) :
    (p.lose d).Tidy regions := by
  refine ⟨h.setup, h.kept, fun e he => ?_, fun e he => ?_⟩
  · rcases List.mem_cons.1 he with rfl | he
    · exact hnumber
    · exact h.numbers e he
  · rcases List.mem_cons.1 he with rfl | he
    · exact hsize
    · exact h.lost e he

/-- The descriptor of a segment of the table is closed. -/
theorem delete (h : p.Tidy regions) (hp : p.Sound regions) (i : Nat) : (p.delete i).Tidy regions := by
  unfold Process.delete
  split
  · exact h
  · next segment hi =>
    have hmem := hp.descriptors.mem (List.mem_map_of_mem (List.mem_of_getElem? hi))
    have hne := h.numbers _ hmem
    refine ⟨h.setup, h.kept, fun d hd => ?_, ?_⟩
    · simp only [if_neg hne] at hd
      exact h.numbers d (List.mem_of_mem_eraseP hd)
    · simp only [if_neg hne]
      exact h.lost

theorem shmdt (h : p.Tidy regions) (hp : p.Sound regions) (shmaddr : Option Nat) : (p.shmdt shmaddr).Tidy regions := by
  unfold Process.shmdt
  dsimp only
  split
  · exact h.checkPid.finish _
  · next i hfind =>
    obtain ⟨segment, hi, haddr⟩ := exists_of_findIdx? hfind
    have hunmap : (p.checkPid.unmap i shmaddr).Tidy regions := h.checkPid.congr rfl rfl rfl rfl rfl
    split
    · exact (hunmap.delete (hp.checkPid.unmap hi (of_decide_eq_true haddr)) i).finish _
    · exact hunmap.finish _

theorem shmctl (h : p.Tidy regions) (hp : p.Sound regions) (shmid : Int) (cmd : Command) : (p.shmctl shmid cmd).Tidy regions := by
  have hcheck := h.checkPid
  unfold Process.shmctl
  split
  · unfold Process.remove
    split
    · exact hcheck.finish _
    · split
      · exact hcheck.congr rfl rfl rfl rfl rfl
      · exact (hcheck.delete hp.checkPid _).finish _
  · unfold Process.stat
    split <;> exact hcheck.finish _
  · exact hcheck.finish _

end Tidy

end Process

/-- Nothing else has descriptor 0 closed, the kernel says the size of a region, and no process makes another one. -/
def Careful (_ : State) : Action → Prop
  | .fork _ _ _ => False
  | .shmget _ _ _ a | .shmat _ _ _ a | .proceed _ a => a.descriptor ≠ some 0 ∧ a.size = true
  | _ => True

namespace State

/-- Every process is tidy. -/
def Tidy (s : State) : Prop := ∀ m, (s.processes m).Tidy s.regions

namespace Tidy

theorem setProcess (h : s.Tidy) (hp : p.Tidy s.regions) : (s.setProcess n p).Tidy := by
  intro m
  by_cases hm : m = n
  · subst hm
    simpa using hp
  · simpa [hm] using h m

theorem setCall (h : s.Tidy) (call : Call) : (s.setCall n call).Tidy := h.setProcess ((h n).congr rfl rfl rfl rfl rfl)

theorem finish (h : s.Tidy) (result : Result) : (s.setProcess n ((s.processes n).finish result)).Tidy :=
  h.setProcess ((h n).finish result)

theorem startThread (h : s.Tidy) (a : Answers) : (s.startThread n a).1.Tidy := by
  unfold State.startThread
  dsimp only
  split
  · exact h
  · split
    · exact h
    · split <;> exact h.setProcess ((h n).congr rfl rfl rfl rfl rfl)

theorem create (h : s.Tidy) (key : Int) (size : Nat) (taken : Option Int) (hnumber : a.descriptor ≠ some 0) :
    (s.create n key size taken a).Tidy := by
  have htake := (h n).takeId taken
  unfold State.create
  dsimp only
  split
  · exact h.setProcess (htake.finish _)
  · next number heq =>
    have hne : number ≠ 0 := fun hzero => hnumber (heq.trans (congrArg some hzero))
    intro m
    by_cases hm : m = n
    · subst hm
      simp only [State.setProcess, Function.update_self]
      exact ((htake.append _).add hne).finish _
    · simp only [State.setProcess, Function.update_of_ne hm]
      exact (h m).append _

theorem attach (h : s.Tidy) (shmid : Int) (i : Nat) (shmflg : Int) (a : Answers) : (s.attach n shmid i shmflg a).Tidy := by
  unfold State.attach
  dsimp only
  split
  · exact h
  · split
    · exact h.finish _
    · split
      · exact h.finish _
      · exact h.setProcess ((h n).congr rfl rfl rfl rfl rfl)

theorem refuse (h : s.Tidy) (shmid : Int) (purpose : Purpose) : (s.refuse n shmid purpose).Tidy := by
  cases purpose with
  | get => exact h.setCall _
  | attach => exact h.finish _

theorem ask (h : s.Tidy) (shmid : Int) (purpose : Purpose) (a : Answers) : (s.ask n shmid purpose a).Tidy := by
  unfold State.ask
  split
  · exact h.refuse shmid purpose
  · exact h.setCall _

theorem receive (h : s.Tidy) {shmid : Int} {reply : Reply} (purpose : Purpose) (hnumber : a.descriptor ≠ some 0)
    (hsize : a.size = true) (hreply : ∀ key region, reply = .segment key region → MadeFor s.regions region shmid key) :
    (s.receive n shmid reply purpose a).Tidy := by
  unfold State.receive
  dsimp only
  split
  · next key region number heq =>
    have hne : number ≠ 0 := fun hzero => hnumber (heq.trans (congrArg some hzero))
    split
    · next hempty =>
      obtain ⟨r, hr, -, -⟩ := hreply key region rfl
      have hregion : s.regionSize region a = Int.bmod r.size (2 ^ 32) := by
        unfold State.regionSize
        rw [hsize, hr]
      rw [hregion] at hempty
      have hlose := (h n).lose (d := ⟨number, region⟩) hne ⟨r, hr, hempty⟩
      exact State.Tidy.refuse (h.setProcess hlose) shmid purpose
    · split
      · exact h.setProcess (((h n).add hne).finish _)
      · exact State.Tidy.attach (h.setProcess ((h n).add hne)) shmid _ _ a
  · exact h.refuse shmid purpose

theorem proceed (h : s.Tidy) (hs : s.Sound) (hnumber : a.descriptor ≠ some 0) (hsize : a.size = true)
    (ht : s.proceed n a = some t) : t.Tidy := by
  unfold State.proceed at ht
  split at ht
  · split at ht
    · cases ht
      exact h.setCall _
    · split at ht
      · cases ht
        exact h.setCall _
      · split at ht
        · cases ht
          exact fun m => h.finish (n := n) _ m
        · cases ht
          exact h.ask _ _ _
  · next shmid owner reply purpose hcall =>
    cases ht
    refine h.receive purpose hnumber hsize fun key region hreply => ?_
    have hhonest := (hs n).call
    rw [hcall, hreply] at hhonest
    exact hhonest
  · cases ht
    exact fun m => h.setCall (n := n) _ m
  · next key size taken hcall =>
    have htake : (s.setProcess n ((s.processes n).takeId taken).1).Tidy := h.setProcess ((h n).takeId taken)
    dsimp only at ht
    split at ht
    · cases ht
      have hlinked : State.Tidy { s.setProcess n ((s.processes n).takeId taken).1 with
          links := Function.update s.links key (some ((s.processes n).takeId taken).2) } := fun m => htake m
      exact hlinked.create key size _ hnumber
    · cases ht
      exact htake.setCall _
  · cases ht

theorem step (h : s.Tidy) (hsound : s.Sound) {a : Action} (ha : Careful s a) (hs : step s a = some t) : t.Tidy := by
  cases a with
  | start n pid =>
    obtain ⟨-, ht⟩ := Option.ite_none_right_eq_some.1 hs
    cases ht
    exact h.setProcess (.empty pid true)
  | fork n child pid => exact absurd ha id
  | exit n inherited =>
    obtain ⟨-, ht⟩ := Option.ite_none_right_eq_some.1 hs
    cases ht
    exact fun m => h.setProcess (n := n) (.empty _ false) m
  | unbind socketId =>
    obtain ⟨-, ht⟩ := Option.ite_none_right_eq_some.1 hs
    cases ht
    exact fun m => h m
  | shmget n key size a =>
    obtain ⟨-, ht⟩ := Option.ite_none_right_eq_some.1 hs
    cases ht
    have hthread := (h.setProcess (n := n) (h n).checkPid).startThread (n := n) a
    unfold State.shmget
    split
    · next heq =>
      rw [heq] at hthread
      exact hthread.finish _
    · next heq =>
      rw [heq] at hthread
      split
      · exact hthread.create key size none ha.1
      · exact hthread.setCall _
  | shmat n shmid shmflg a =>
    obtain ⟨-, ht⟩ := Option.ite_none_right_eq_some.1 hs
    cases ht
    have hcheck := h.setProcess (n := n) (h n).checkPid
    unfold State.shmat
    dsimp only
    split
    · exact hcheck.attach _ _ _ _
    · split
      · exact hcheck.ask _ _ _
      · exact hcheck.finish _
  | shmdt n shmaddr =>
    obtain ⟨-, ht⟩ := Option.ite_none_right_eq_some.1 hs
    cases ht
    exact h.setProcess ((h n).shmdt (hsound n) shmaddr)
  | shmctl n shmid cmd =>
    obtain ⟨-, ht⟩ := Option.ite_none_right_eq_some.1 hs
    cases ht
    exact h.setProcess ((h n).shmctl (hsound n) shmid cmd)
  | proceed n a =>
    obtain ⟨-, ht⟩ := Option.ite_none_right_eq_some.1 hs
    exact h.proceed hsound ha.1 ha.2 ht
  | serve n asker sent =>
    have hs' : s.serve n asker sent = some t := hs
    unfold State.serve at hs'
    split at hs'
    · obtain ⟨-, ht⟩ := Option.ite_none_right_eq_some.1 hs'
      cases ht
      exact h.setCall _
    · cases hs'
  | hangup n =>
    have hs' : s.hangup n = some t := hs
    unfold State.hangup at hs'
    split at hs'
    · obtain ⟨-, ht⟩ := Option.ite_none_left_eq_some.1 hs'
      cases ht
      exact h.setCall _
    · cases hs'
  | interrupt n =>
    have hs' : s.interrupt n = some t := hs
    unfold State.interrupt at hs'
    split at hs'
    · cases hs'
      exact h.setCall _
    · cases hs'
  | endThread socketId =>
    have hs' : s.endThread socketId = some t := hs
    unfold State.endThread at hs'
    split at hs' <;> cases hs'
    exact fun m => h m

end Tidy

end State

theorem tidy_of_reach {pageSize : Nat} (h : Reach step Careful (State.start pageSize) s) : s.Tidy := by
  have hboth : s.Sound ∧ s.Tidy := h.invariant (I := fun s => s.Sound ∧ s.Tidy) ⟨fun _ => .empty 0 false, fun _ => .empty 0 false⟩
    fun _ _ _ ht ha hs => ⟨ht.1.step hs, ht.2.step ht.1 ha hs⟩
  exact hboth.2

/-- **Descriptors and mappings are accounted for**: in a process that was not forked, each descriptor belongs to one segment of
the table, or stands for a region without a size that it received; what is mapped are the segments that are attached, each once. -/
theorem accounted_of_reach {pageSize : Nat} (h : Reach step Careful (State.start pageSize) s) (n : Nat) :
    (s.processes n).opened.Perm ((s.processes n).shmem.map Segment.descriptor ++ (s.processes n).lost) ∧
      ((s.processes n).opened.map Descriptor.number).Nodup ∧ (∀ d ∈ (s.processes n).lost, Sizeless s.regions d.region) ∧
        ((s.processes n).mapped.map Mapping.place).Perm ((s.processes n).shmem.filterMap Segment.place) ∧
          ((s.processes n).mapped.map Mapping.addr).Nodup := by
  have hsound := sound_of_reach h n
  have htidy := tidy_of_reach h n
  have hmappings := hsound.mappings
  rw [htidy.kept, List.map_nil] at hmappings
  refine ⟨hsound.descriptors.perm, hsound.descriptors.nodup, htidy.lost, ?_, ?_⟩
  · simpa using hmappings.perm
  · simpa [Function.comp_def, Mapping.place] using hmappings.nodup

/-- A client makes a segment of no bytes, and the server asks for it. -/
def emptySegment : List Action :=
  [.start 0 500, .start 1 501, .shmget 1 0 0 { descriptor := some 3 }, .shmat 0 32833537 0 {}, .serve 1 0 true,
    .proceed 0 { descriptor := some 5, address := some 128 }]

instance : ∀ s a, Decidable (Careful s a)
  | _, .fork _ _ _ => inferInstanceAs (Decidable False)
  | _, .shmget _ _ _ _ | _, .shmat _ _ _ _ | _, .proceed _ _ => inferInstanceAs (Decidable (_ ∧ _))
  | _, .start _ _ | _, .exit _ _ | _, .unbind _ | _, .shmdt _ _ | _, .shmctl _ _ _ | _, .serve _ _ _ | _, .hangup _
  | _, .interrupt _ | _, .endThread _ => inferInstanceAs (Decidable True)

theorem accounted_of_reach_empty : ∃ s, Reach step Careful (State.start 4096) s ∧ (s.processes 0).shmem = [] ∧
    (s.processes 0).opened.Perm [⟨5, 0⟩] ∧ Sizeless s.regions 0 := by
  have hany : (exec (fun s a => if Careful s a then step s a else none) (State.start 4096) emptySegment).any
      (fun s => (s.processes 0).shmem = [] && (s.processes 0).lost = [⟨5, 0⟩]) = true := by decide
  obtain ⟨s, hs, hfacts⟩ := (Option.any_eq_true _ _).1 hany
  simp only [Bool.and_eq_true, decide_eq_true_eq] at hfacts
  have hreach : Reach step Careful (State.start 4096) s := Reach.of_exec_guarded emptySegment hs
  obtain ⟨hopened, -, hlost, -, -⟩ := accounted_of_reach hreach 0
  rw [hfacts.1, hfacts.2] at hopened
  exact ⟨s, hreach, hfacts.1, hopened, hlost ⟨5, 0⟩ (by rw [hfacts.2]; exact List.mem_singleton.2 rfl)⟩

end Lorie.SharedMemory
