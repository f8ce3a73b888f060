import Lorie.Lib.Handles
import Lorie.SharedMemory.Model

/-!
# What a process holds

- `Genuine`: a segment has the identifier and the key that its region was made for;
- `Process.Sound`: the segments of a table are genuine, the descriptors in use are those of the table and those that were lost,
  and what is mapped is what the segments are attached to; every operation of a process keeps it;
- `sound_of_reach`: every process is sound in every run.
-/

namespace Lorie.SharedMemory

open Lorie.Lib

variable {regions regions' : List Region} {p : Process} {a : Answers}

/-- The identifier and the key of the segment that a region was made for -/
def MadeFor (regions : List Region) (region : Nat) (id key : Int) : Prop :=
  ∃ r, regions[region]? = some r ∧ r.id = id ∧ r.key = key

/-- A segment is the one that its region was made for. A size from 2^31 on does not fit into the answer of another process. -/
structure Genuine (regions : List Region) (segment : Segment) : Prop where
  made : MadeFor regions segment.descriptor.region segment.id segment.key
  size : ∀ r, regions[segment.descriptor.region]? = some r → r.size < 2 ^ 31 → segment.size = r.size

/-- Where and what is mapped -/
structure Place where
  addr : Nat
  region : Nat
  size : Nat
  deriving DecidableEq, Repr

def Mapping.place (m : Mapping) : Place := ⟨m.addr, m.region, m.size⟩

/-- What an attached segment maps -/
def Segment.place (segment : Segment) : Option Place :=
  segment.addr.map fun addr => ⟨addr, segment.descriptor.region, segment.size⟩

/-- The answer that a call got is about the segment that it asked for. -/
def Call.Honest (regions : List Region) : Call → Prop
  | .asking shmid _ (some (.segment key region)) _ => MadeFor regions region shmid key
  | _ => True

namespace Process

structure Sound (regions : List Region) (p : Process) : Prop where
  genuine : ∀ segment ∈ p.shmem, Genuine regions segment
  descriptors : Held Descriptor.number p.opened (p.shmem.map Segment.descriptor) p.lost
  mappings : Held Place.addr (p.mapped.map Mapping.place) (p.shmem.filterMap Segment.place) (p.kept.map Mapping.place)
  call : p.call.Honest regions

/-- What the last `shmat` returned is attached. -/
def Answered (p : Process) : Prop :=
  ∀ shmid addr, p.result = some (.address shmid (some addr)) → ∃ segment ∈ p.shmem, segment.id = shmid ∧ segment.addr = some addr

end Process

/-! ## New regions -/

theorem MadeFor.append {region : Nat} {id key : Int} (h : MadeFor regions region id key) (more : List Region) :
    MadeFor (regions ++ more) region id key := by
  obtain ⟨r, hr, hid, hkey⟩ := h
  have hlt : region < regions.length := (List.getElem?_eq_some_iff.1 hr).1
  exact ⟨r, by rw [List.getElem?_append_left hlt, hr], hid, hkey⟩

theorem Genuine.append {segment : Segment} (h : Genuine regions segment) (more : List Region) :
    Genuine (regions ++ more) segment := by
  refine ⟨h.made.append more, fun r hr hsize => ?_⟩
  obtain ⟨r', hr', -, -⟩ := h.made
  have hlt : segment.descriptor.region < regions.length := (List.getElem?_eq_some_iff.1 hr').1
  rw [List.getElem?_append_left hlt] at hr
  exact h.size r hr hsize

theorem Call.Honest.append {call : Call} (h : call.Honest regions) (more : List Region) : call.Honest (regions ++ more) := by
  unfold Call.Honest at h ⊢
  split
  · exact MadeFor.append h more
  · trivial

namespace Process.Sound

theorem append (h : p.Sound regions) (more : List Region) : p.Sound (regions ++ more) :=
  ⟨fun segment hs => (h.genuine segment hs).append more, h.descriptors, h.mappings, h.call.append more⟩

/-! ## Operations of a process -/

theorem empty (pid : Nat) (running : Bool) : Process.Sound regions { pid, running } :=
  ⟨by simp, .nil, .nil, trivial⟩

/-- The table, the descriptors and the mappings stay. -/
theorem congr {q : Process} (h : p.Sound regions) (hshmem : q.shmem = p.shmem) (hopened : q.opened = p.opened)
    (hlost : q.lost = p.lost) (hmapped : q.mapped = p.mapped) (hkept : q.kept = p.kept) (hcall : q.call.Honest regions) :
    q.Sound regions := by
  refine ⟨?_, ?_, ?_, hcall⟩
  · rw [hshmem]
    exact h.genuine
  · rw [hshmem, hopened, hlost]
    exact h.descriptors
  · rw [hshmem, hmapped, hkept]
    exact h.mappings

theorem finish (h : p.Sound regions) (result : Result) : (p.finish result).Sound regions :=
  h.congr rfl rfl rfl rfl rfl trivial

theorem takeId (h : p.Sound regions) (taken : Option Int) : (p.takeId taken).1.Sound regions := by
  cases taken with
  | none => exact h.congr rfl rfl rfl rfl rfl h.call
  | some id => exact h

/-- After a fork the descriptors and the mappings of the parent are there, but no segment has them. -/
theorem checkPid (h : p.Sound regions) : p.checkPid.Sound regions := by
  unfold Process.checkPid
  split
  · exact h.congr rfl rfl rfl rfl rfl h.call
  · split
    · exact ⟨by simp, h.descriptors.loseAll, ⟨.refl _, h.mappings.nodup⟩, h.call⟩
    · exact h

theorem add {segment : Segment} (h : p.Sound regions) (hs : Genuine regions segment) (haddr : segment.addr = none)
    (hfresh : ∀ d ∈ p.opened, d.number ≠ segment.descriptor.number) : (p.add segment).Sound regions := by
  refine ⟨fun t ht => ?_, ?_, ?_, h.call⟩
  · rcases List.mem_append.1 ht with ht | ht
    · exact h.genuine t ht
    · rw [List.mem_singleton.1 ht]
      exact hs
  · have hnew := h.descriptors.acquire (a := segment.descriptor) hfresh
    refine hnew.congr ?_
    simp only [Process.add, List.map_append, List.map_cons, List.map_nil]
    exact (List.perm_append_singleton _ _).symm
  · have hplace : segment.place = none := by simp [Segment.place, haddr]
    simpa [Process.add, List.filterMap_append, hplace] using h.mappings

theorem lose {d : Descriptor} (h : p.Sound regions) (hfresh : ∀ e ∈ p.opened, e.number ≠ d.number) :
    (p.lose d).Sound regions :=
  ⟨h.genuine, h.descriptors.acquireLost hfresh, h.mappings, h.call⟩

/-- A segment that is not attached leaves the table. -/
theorem delete {i : Nat} {segment : Segment} (h : p.Sound regions) (hi : p.shmem[i]? = some segment)
    (haddr : segment.addr = none) : (p.delete i).Sound regions := by
  obtain ⟨pre, post, hshmem, herase, -⟩ := exists_split hi
  have howned : (p.shmem.map Segment.descriptor).Perm (segment.descriptor :: (pre ++ post).map Segment.descriptor) := by
    simp only [hshmem, List.map_append, List.map_cons]
    exact List.perm_middle
  have hplaces : (pre ++ post).filterMap Segment.place = p.shmem.filterMap Segment.place := by
    simp [hshmem, List.filterMap_append, Segment.place, haddr]
  unfold Process.delete
  rw [hi]
  refine ⟨fun t ht => h.genuine t (List.mem_of_mem_eraseIdx ht), ?_, ?_, h.call⟩
  · simp only [herase]
    split
    · exact h.descriptors.lose howned
    · exact h.descriptors.close howned
  · simp only [herase, hplaces]
    exact h.mappings

/-- A segment is marked, attached or detached; its region stays. -/
theorem genuine_modify (h : p.Sound regions) (i : Nat) {f : Segment → Segment}
    (hf : ∀ s, (f s).descriptor = s.descriptor ∧ (f s).id = s.id ∧ (f s).key = s.key ∧ (f s).size = s.size) :
    (∀ segment ∈ p.shmem.modify i f, Genuine regions segment) ∧
      (p.shmem.modify i f).map Segment.descriptor = p.shmem.map Segment.descriptor := by
  cases hi : p.shmem[i]? with
  | none =>
    rw [List.modify_eq_self (List.getElem?_eq_none_iff.1 hi)]
    exact ⟨h.genuine, rfl⟩
  | some segment =>
    obtain ⟨pre, post, hshmem, -, hmodify⟩ := exists_split hi
    obtain ⟨hdescriptor, hid, hkey, hsize⟩ := hf segment
    have hs := h.genuine segment (List.mem_of_getElem? hi)
    rw [hmodify]
    refine ⟨fun t ht => ?_, by simp [hshmem, hdescriptor]⟩
    simp only [List.mem_append, List.mem_cons] at ht
    rcases ht with ht | rfl | ht
    · exact h.genuine t (by simp [hshmem, ht])
    · refine ⟨?_, ?_⟩
      · rw [hdescriptor, hid, hkey]
        exact hs.made
      · rw [hdescriptor, hsize]
        exact hs.size
    · exact h.genuine t (by simp [hshmem, ht])

theorem mark (h : p.Sound regions) (i : Nat) :
    Process.Sound regions { p with shmem := p.shmem.modify i fun segment => { segment with markedForDeletion := true } } := by
  obtain ⟨hgenuine, hdescriptors⟩ := h.genuine_modify i
    (f := fun segment => { segment with markedForDeletion := true }) (by simp)
  refine ⟨hgenuine, hdescriptors ▸ h.descriptors, ?_, h.call⟩
  cases hi : p.shmem[i]? with
  | none => simpa [List.modify_eq_self (List.getElem?_eq_none_iff.1 hi)] using h.mappings
  | some segment =>
    obtain ⟨pre, post, hshmem, -, hmodify⟩ := exists_split hi
    have hplace : Segment.place { segment with markedForDeletion := true } = segment.place := rfl
    have hm := h.mappings
    simp only [hshmem, List.filterMap_append, List.filterMap_cons] at hm
    simpa only [hmodify, List.filterMap_append, List.filterMap_cons, hplace] using hm

/-- A segment is attached. -/
theorem map {i addr : Nat} {segment : Segment} {writable : Bool} (h : p.Sound regions) (hi : p.shmem[i]? = some segment)
    (haddr : segment.addr = none) (hfresh : ∀ m ∈ p.mapped, m.addr ≠ addr) :
    Process.Sound regions { p with
      mapped := ⟨addr, segment.descriptor.region, segment.size, writable⟩ :: p.mapped
      shmem := p.shmem.modify i fun segment => { segment with addr := some addr } } := by
  obtain ⟨hgenuine, hdescriptors⟩ := h.genuine_modify i (f := fun segment => { segment with addr := some addr }) (by simp)
  refine ⟨hgenuine, hdescriptors ▸ h.descriptors, ?_, h.call⟩
  obtain ⟨pre, post, hshmem, -, hmodify⟩ := exists_split hi
  have hnew := h.mappings.acquire (a := ⟨addr, segment.descriptor.region, segment.size⟩) (by
    simpa [Mapping.place] using hfresh)
  simp only [hmodify, List.map_cons]
  refine hnew.congr ?_
  simp only [hshmem, List.filterMap_append, List.filterMap_cons, Segment.place, haddr, Option.map_none, Option.map_some]
  exact List.perm_middle.symm

/-- A segment is detached. -/
theorem unmap {i : Nat} {segment : Segment} {shmaddr : Option Nat} (h : p.Sound regions) (hi : p.shmem[i]? = some segment)
    (haddr : segment.addr = shmaddr) : (p.unmap i shmaddr).Sound regions := by
  obtain ⟨hgenuine, hdescriptors⟩ := h.genuine_modify i (f := fun segment => { segment with addr := none }) (by simp)
  refine ⟨hgenuine, ?_, ?_, h.call⟩
  · show Held _ p.opened ((p.shmem.modify i _).map _) p.lost
    rw [hdescriptors]
    exact h.descriptors
  · obtain ⟨pre, post, hshmem, -, hmodify⟩ := exists_split hi
    simp only [Process.unmap, hmodify]
    cases shmaddr with
    | none =>
      have hplace : Segment.place { segment with addr := none } = segment.place := by simp [Segment.place, haddr]
      have hmapped : p.mapped.eraseP (fun m => some m.addr = (none : Option Nat)) = p.mapped :=
        List.eraseP_of_forall_not (by simp)
      have hm := h.mappings
      simp only [hshmem, List.filterMap_append, List.filterMap_cons] at hm
      simpa only [hmapped, List.filterMap_append, List.filterMap_cons, hplace] using hm
    | some addr =>
      have howned : (p.shmem.filterMap Segment.place).Perm
          (⟨addr, segment.descriptor.region, segment.size⟩ :: (pre ++ post).filterMap Segment.place) := by
        simp only [hshmem, List.filterMap_append, List.filterMap_cons, Segment.place, haddr, Option.map_some]
        exact List.perm_middle
      have hclose := h.mappings.close howned
      have hplace : Segment.place { segment with addr := none } = none := rfl
      have herase : (p.mapped.eraseP fun m => some m.addr = some addr).map Mapping.place =
          (p.mapped.map Mapping.place).eraseP fun place => place.addr = addr := by
        rw [List.eraseP_map]
        congr 2
        funext m
        exact decide_eq_decide.2 (by simp [Mapping.place])
      simpa only [herase, List.filterMap_append, List.filterMap_cons, hplace] using hclose

theorem shmdt (h : p.Sound regions) (shmaddr : Option Nat) : (p.shmdt shmaddr).Sound regions := by
  have hp := h.checkPid
  unfold Process.shmdt
  dsimp only
  split
  · exact hp.finish _
  · next i hfind =>
    obtain ⟨segment, hi, haddr⟩ := exists_of_findIdx? hfind
    have hunmap := hp.unmap hi (of_decide_eq_true haddr)
    obtain ⟨pre, post, -, -, hmodify⟩ := exists_split hi
    split
    · have hi' : (p.checkPid.unmap i shmaddr).shmem[i]? = some { segment with addr := none } := by
        show (p.checkPid.shmem.modify i _)[i]? = _
        simp [hi]
      exact (hunmap.delete hi' rfl).finish _
    · exact hunmap.finish _

theorem shmctl (h : p.Sound regions) (shmid : Int) (cmd : Command) : (p.shmctl shmid cmd).Sound regions := by
  have hp := h.checkPid
  cases cmd with
  | remove =>
    show (p.checkPid.remove shmid).Sound regions
    unfold Process.remove
    split
    · exact hp.finish _
    · next i hfind =>
      obtain ⟨segment, hi, -⟩ := exists_of_findIdx? hfind
      split
      · exact (hp.mark i).finish _
      · next haddr =>
        rw [hi] at haddr
        exact (hp.delete hi (by simpa using haddr)).finish _
  | stat buf =>
    show (p.checkPid.stat shmid buf).Sound regions
    unfold Process.stat
    split
    · exact hp.finish _
    · exact hp.finish _
  | other => exact hp.finish _

end Process.Sound

/-! ## Steps of calls -/

variable {s t : State} {n : Nat}

@[simp] theorem Process.checkPid_opened (p : Process) : p.checkPid.opened = p.opened := by
  unfold Process.checkPid
  split
  · rfl
  · split <;> rfl

@[simp] theorem Process.checkPid_mapped (p : Process) : p.checkPid.mapped = p.mapped := by
  unfold Process.checkPid
  split
  · rfl
  · split <;> rfl

theorem State.startThread_opened (s : State) (n : Nat) (a : Answers) :
    ((s.startThread n a).1.processes n).opened = (s.processes n).opened := by
  unfold State.startThread
  dsimp only
  split
  · rfl
  · split
    · rfl
    · split <;> simp [State.setProcess]

/-- Every process is sound. -/
def State.Sound (s : State) : Prop := ∀ m, (s.processes m).Sound s.regions

namespace State.Sound

theorem setProcess (h : s.Sound) {q : Process} (hq : q.Sound s.regions) : (s.setProcess n q).Sound := by
  intro m
  by_cases hm : m = n
  · subst hm
    simpa [State.setProcess] using hq
  · simpa [State.setProcess, hm] using h m

theorem setCall (h : s.Sound) {call : Call} (hcall : call.Honest s.regions) : (s.setCall n call).Sound :=
  h.setProcess ((h n).congr rfl rfl rfl rfl rfl hcall)

theorem finish (h : s.Sound) (result : Result) : (s.setProcess n ((s.processes n).finish result)).Sound :=
  h.setProcess ((h n).finish result)

theorem startThread (h : s.Sound) (a : Answers) : (s.startThread n a).1.Sound := by
  unfold State.startThread
  dsimp only
  split
  · exact h
  · split
    · exact h
    · split <;> exact h.setProcess ((h n).congr rfl rfl rfl rfl rfl (h n).call)

theorem create (h : s.Sound) (key : Int) (size : Nat) (taken : Option Int)
    (hfresh : ∀ number ∈ a.descriptor, ∀ d ∈ (s.processes n).opened, d.number ≠ number) :
    (s.create n key size taken a).Sound := by
  have htake := (h n).takeId taken
  have hopened : ((s.processes n).takeId taken).1.opened = (s.processes n).opened := by cases taken <;> rfl
  unfold State.create
  dsimp only
  split
  · exact h.setProcess (htake.finish _)
  · next number hnumber =>
    intro m
    have hregion : (s.regions ++ [(⟨roundUp size s.pageSize, ((s.processes n).takeId taken).2, key⟩ : Region)])[s.regions.length]? =
        some ⟨roundUp size s.pageSize, ((s.processes n).takeId taken).2, key⟩ := by simp
    by_cases hm : m = n
    · subst hm
      simp only [State.setProcess, Function.update_self]
      refine ((htake.append _).add ⟨⟨_, hregion, rfl, rfl⟩, fun r hr _ => ?_⟩ rfl ?_).finish _
      · rw [hregion] at hr
        cases hr
        rfl
      · rw [hopened]
        exact hfresh number hnumber
    · simp only [State.setProcess, Function.update_of_ne hm]
      exact (h m).append _

theorem attach (h : s.Sound) (shmid : Int) (i : Nat) (shmflg : Int)
    (hfresh : ∀ addr ∈ a.address, addr ≠ 0 ∧ ∀ m ∈ (s.processes n).mapped, m.addr ≠ addr) :
    (s.attach n shmid i shmflg a).Sound := by
  unfold State.attach
  dsimp only
  split
  · exact h
  · next segment hi =>
    split
    · exact h.finish _
    · next haddr =>
      split
      · exact h.finish _
      · next addr hmmap =>
        have haddress : addr ∈ a.address := by
          unfold State.mmap at hmmap
          split at hmmap
          · cases hmmap
          · exact hmmap
        exact h.setProcess (((h n).map hi haddr (hfresh addr haddress).2).finish _)

theorem refuse (h : s.Sound) (shmid : Int) (purpose : Purpose) : (s.refuse n shmid purpose).Sound := by
  cases purpose with
  | get => exact h.setCall trivial
  | attach => exact h.finish _

theorem ask (h : s.Sound) (shmid : Int) (purpose : Purpose) (a : Answers) : (s.ask n shmid purpose a).Sound := by
  unfold State.ask
  split
  · exact h.refuse shmid purpose
  · exact h.setCall trivial

/-- The size that fits into an `int` is the size of the region. -/
theorem regionSize_eq {region : Nat} {r : Region} (hr : s.regions[region]? = some r) (hsize : r.size < 2 ^ 31)
    (hne : s.regionSize region a ≠ -1) : (s.regionSize region a % 2 ^ 64).toNat = r.size := by
  unfold State.regionSize at hne ⊢
  split at hne
  · next r' _ hr' =>
    rw [hr] at hr'
    cases hr'
    have hmod : Int.bmod (r.size : Int) (2 ^ 32) = r.size := by
      apply Int.bmod_eq_of_le <;> omega
    rw [hmod]
    omega
  · simp at hne

theorem receive (h : s.Sound) {shmid : Int} {reply : Reply} (purpose : Purpose) (hfresh : (s.processes n).Fresh a)
    (hreply : ∀ key region, reply = .segment key region → MadeFor s.regions region shmid key) :
    (s.receive n shmid reply purpose a).Sound := by
  unfold State.receive
  dsimp only
  split
  · next key region number hnumber =>
    have hnew := hfresh.1 number hnumber
    split
    · exact State.Sound.refuse (h.setProcess ((h n).lose hnew)) shmid purpose
    · next hsize =>
      have hne : s.regionSize region a ≠ -1 := fun h => hsize (.inr h)
      have hsegment : Genuine s.regions
          ⟨shmid, none, ⟨number, region⟩, (s.regionSize region a % 2 ^ 64).toNat, false, key⟩ :=
        ⟨hreply key region rfl, fun r hr hlt => regionSize_eq hr hlt hne⟩
      have hadd := (h n).add hsegment rfl hnew
      split
      · exact h.setProcess (hadd.finish _)
      · refine State.Sound.attach (h.setProcess hadd) shmid _ _ ?_
        simp only [State.setProcess, Function.update_self]
        exact hfresh.2
  · exact h.refuse shmid purpose

/-- The state after `ashv_check_pid` -/
theorem checkPid (h : s.Sound) : (s.setProcess n (s.processes n).checkPid).Sound := h.setProcess (h n).checkPid

theorem shmget (h : s.Sound) (key : Int) (size : Nat) (hfresh : (s.processes n).Fresh a) : (s.shmget n key size a).Sound := by
  have hthread := (h.checkPid (n := n)).startThread (n := n) a
  have hopened := State.startThread_opened (s.setProcess n (s.processes n).checkPid) n a
  unfold State.shmget
  split
  · next t heq =>
    rw [heq] at hthread
    exact hthread.finish _
  · next t heq =>
    rw [heq] at hthread hopened
    split
    · refine hthread.create key size none ?_
      rw [hopened]
      simpa [State.setProcess, Process.checkPid_opened] using hfresh.1
    · exact hthread.setCall trivial

theorem shmat (h : s.Sound) (shmid shmflg : Int) (hfresh : (s.processes n).Fresh a) : (s.shmat n shmid shmflg a).Sound := by
  have hs := h.checkPid (n := n)
  unfold State.shmat
  dsimp only
  split
  · refine hs.attach shmid _ shmflg ?_
    simpa [State.setProcess, Process.checkPid_mapped] using hfresh.2
  · split
    · exact hs.ask _ _ _
    · exact hs.finish _

theorem proceed (h : s.Sound) (hfresh : (s.processes n).Fresh a) (hs : s.proceed n a = some t) : t.Sound := by
  unfold State.proceed at hs
  split at hs
  · split at hs
    · cases hs
      exact h.setCall trivial
    · split at hs
      · cases hs
        exact h.setCall trivial
      · split at hs
        · cases hs
          exact fun m => h.finish (n := n) _ m
        · cases hs
          exact h.ask _ _ _
  · next shmid owner reply purpose hcall =>
    cases hs
    refine h.receive purpose hfresh fun key region hreply => ?_
    have hhonest := (h n).call
    rw [hcall, hreply] at hhonest
    exact hhonest
  · next key size taken hcall =>
    cases hs
    have hlinking : (s.setCall n (.linking key size taken)).Sound := h.setCall trivial
    exact hlinking
  · next key size taken hcall =>
    have htake : (s.setProcess n ((s.processes n).takeId taken).1).Sound := h.setProcess ((h n).takeId taken)
    dsimp only at hs
    split at hs
    · cases hs
      have hlinked : State.Sound { s.setProcess n ((s.processes n).takeId taken).1 with
          links := Function.update s.links key (some ((s.processes n).takeId taken).2) } := fun m => htake m
      refine hlinked.create key size _ ?_
      simp only [State.setProcess, Function.update_self]
      cases taken <;> exact hfresh.1
    · cases hs
      exact htake.setCall trivial
  · cases hs

theorem serve (h : s.Sound) {asker : Nat} {sent : Bool} (hs : s.serve n asker sent = some t) : t.Sound := by
  unfold State.serve at hs
  split at hs
  · next shmid owner purpose hcall =>
    obtain ⟨-, ht⟩ := Option.ite_none_right_eq_some.1 hs
    cases ht
    refine h.setCall ?_
    split
    · next segment hfind =>
      obtain ⟨i, hi, hsegment⟩ := Option.bind_eq_some_iff.1 hfind
      obtain ⟨segment', hi', hid⟩ := exists_of_findIdx? hi
      rw [hi'] at hsegment
      cases hsegment
      have hmade := ((h n).genuine segment (List.mem_of_getElem? hi')).made
      rw [of_decide_eq_true hid] at hmade
      split
      · exact hmade
      · trivial
    · trivial
  · cases hs

theorem hangup (h : s.Sound) (hs : s.hangup n = some t) : t.Sound := by
  unfold State.hangup at hs
  split at hs
  · obtain ⟨-, ht⟩ := Option.ite_none_left_eq_some.1 hs
    cases ht
    exact h.setCall trivial
  · cases hs

theorem interrupt (h : s.Sound) (hs : s.interrupt n = some t) : t.Sound := by
  unfold State.interrupt at hs
  split at hs
  · cases hs
    exact h.setCall trivial
  · cases hs

theorem endThread (h : s.Sound) {socketId : Nat} (hs : s.endThread socketId = some t) : t.Sound := by
  unfold State.endThread at hs
  split at hs
  · cases hs
    exact fun m => h m
  · cases hs

theorem step (h : s.Sound) {a : Action} (hs : step s a = some t) : t.Sound := by
  cases a with
  | start n pid =>
    obtain ⟨-, ht⟩ := Option.ite_none_right_eq_some.1 hs
    cases ht
    exact h.setProcess (.empty pid true)
  | fork n child pid =>
    obtain ⟨-, ht⟩ := Option.ite_none_right_eq_some.1 hs
    cases ht
    exact h.setProcess ((h n).congr rfl rfl rfl rfl rfl trivial)
  | exit n inherited =>
    obtain ⟨-, ht⟩ := Option.ite_none_right_eq_some.1 hs
    cases ht
    exact fun m => h.setProcess (n := n) (.empty _ false) m
  | unbind socketId =>
    obtain ⟨-, ht⟩ := Option.ite_none_right_eq_some.1 hs
    cases ht
    exact fun m => h m
  | shmget n key size a =>
    obtain ⟨⟨-, hfresh⟩, ht⟩ := Option.ite_none_right_eq_some.1 hs
    cases ht
    exact h.shmget key size hfresh
  | shmat n shmid shmflg a =>
    obtain ⟨⟨-, hfresh⟩, ht⟩ := Option.ite_none_right_eq_some.1 hs
    cases ht
    exact h.shmat shmid shmflg hfresh
  | shmdt n shmaddr =>
    obtain ⟨-, ht⟩ := Option.ite_none_right_eq_some.1 hs
    cases ht
    exact h.setProcess ((h n).shmdt shmaddr)
  | shmctl n shmid cmd =>
    obtain ⟨-, ht⟩ := Option.ite_none_right_eq_some.1 hs
    cases ht
    exact h.setProcess ((h n).shmctl shmid cmd)
  | proceed n a =>
    obtain ⟨⟨-, hfresh⟩, ht⟩ := Option.ite_none_right_eq_some.1 hs
    exact h.proceed hfresh ht
  | serve n asker sent => exact h.serve hs
  | hangup n => exact h.hangup hs
  | interrupt n => exact h.interrupt hs
  | endThread socketId => exact h.endThread hs

end State.Sound

/-- Every process is sound in every run. -/
theorem sound_of_reach {C : State → Action → Prop} {pageSize : Nat} (h : Reach step C (State.start pageSize) s) : s.Sound :=
  h.invariant (I := State.Sound) (fun _ => .empty 0 false) fun _ _ _ ht _ hs => ht.step hs

end Lorie.SharedMemory
