import Lorie.SharedMemory.Frame

/-!
# Identifiers of segments

The identifier of a segment is made of the name of the socket and a counter of 15 bits.

- `State.Distinct`: no two regions were made for one identifier, as long as names are bound once and the counters do not come
  round (`Orderly`); `distinct_of_reach`;
- `same_id_same_region`: processes that know one identifier have one region.
-/

namespace Lorie.SharedMemory

open Lorie.Lib

variable {s t u : State} {n : Nat} {p q : Process} {a : Answers}

/-! ## Identifiers -/

/-- The name and the counter are in the identifier. -/
theorem shmidFromCounter_inj {socketId socketId' counter counter' : Nat} (hs : socketId < 0x10000) (hc : counter < 0x8000)
    (hs' : socketId' < 0x10000) (hc' : counter' < 0x8000)
    (h : shmidFromCounter socketId counter = shmidFromCounter socketId' counter') : socketId = socketId' ∧ counter = counter' := by
  have hmod (x : Nat) (hx : x < 4294967296) : Int.bmod x 4294967296 % 4294967296 = x := by
    have hemod := @Int.bmod_emod x 4294967296
    omega
  have hleft := hmod (socketId * 0x10000 + counter) (by omega)
  have hright := hmod (socketId' * 0x10000 + counter') (by omega)
  have hsum : ((socketId * 0x10000 + counter : Nat) : Int) = (socketId' * 0x10000 + counter' : Nat) := by
    rw [← hleft, ← hright]
    exact congrArg (· % 4294967296) h
  omega

/-! ## Processes that make identifiers -/

/-- The identifier that a `shmget` took -/
def Call.taken : Call → Option Int
  | .reading _ _ taken | .unlinking _ _ taken | .linking _ _ taken | .asking _ _ _ (.get _ _ taken) => taken
  | _ => none

/-- The call is a `shmget`. -/
def Call.getting : Call → Bool
  | .reading _ _ _ | .unlinking _ _ _ | .linking _ _ _ | .asking _ _ _ (.get _ _ _) => true
  | _ => false

theorem Call.getting_of_taken {call : Call} {id : Int} (h : call.taken = some id) : call.getting = true := by
  unfold Call.taken at h
  split at h <;> simp_all [Call.getting]

namespace Process

/-- The name that the process has was bound by this process. -/
def Serves (p : Process) : Prop := p.named = true ∧ p.pidSetup = p.pid

/-- The process makes no identifier. -/
structure Keeps (p q : Process) : Prop where
  serves : q.Serves → p.Serves ∧ q.localSocketId = p.localSocketId
  counter : q.shmemCounter = p.shmemCounter
  taken : ∀ id, q.call.taken = some id → p.call.taken = some id
  getting : q.call.getting = true → p.call.getting = true ∧ (p.Serves → q.Serves)
  pid : q.pid = p.pid ∧ q.running = p.running
  unset : (p.pidSetup = 0 → p.named = false) → q.pidSetup = 0 → q.named = false
  named : (p.listening = true → p.named = true) → q.listening = true → q.named = true

theorem Keeps.refl (p : Process) : p.Keeps p :=
  ⟨fun h => ⟨h, rfl⟩, rfl, fun _ h => h, fun h => ⟨h, id⟩, ⟨rfl, rfl⟩, id, id⟩

theorem Keeps.trans {r : Process} (h : p.Keeps q) (h' : q.Keeps r) : p.Keeps r where
  serves hr := ⟨(h.serves (h'.serves hr).1).1, (h'.serves hr).2.trans (h.serves (h'.serves hr).1).2⟩
  counter := h'.counter.trans h.counter
  taken id hid := h.taken id (h'.taken id hid)
  getting hr := ⟨(h.getting (h'.getting hr).1).1, fun hp => (h'.getting hr).2 ((h.getting (h'.getting hr).1).2 hp)⟩
  pid := ⟨h'.pid.1.trans h.pid.1, h'.pid.2.trans h.pid.2⟩
  unset hp := h'.unset (h.unset hp)
  named hp := h'.named (h.named hp)

/-- Only the table, the descriptors, the mappings and the call change. -/
theorem Keeps.of_eq (hthread : q.listening = p.listening ∧ q.named = p.named) (hsetup : q.pidSetup = p.pidSetup)
    (hpid : q.pid = p.pid) (hrunning : q.running = p.running) (hlocal : q.localSocketId = p.localSocketId)
    (hcounter : q.shmemCounter = p.shmemCounter) (htaken : ∀ id, q.call.taken = some id → p.call.taken = some id)
    (hgetting : q.call.getting = true → p.call.getting = true) : p.Keeps q where
  serves h := ⟨⟨hthread.2 ▸ h.1, by rw [← hsetup, ← hpid]; exact h.2⟩, hlocal⟩
  counter := hcounter
  taken := htaken
  getting h := ⟨hgetting h, fun hp => ⟨hthread.2 ▸ hp.1, by rw [hsetup, hpid]; exact hp.2⟩⟩
  pid := ⟨hpid, hrunning⟩
  unset h h' := by rw [hthread.2]; exact h (hsetup ▸ h')
  named h h' := by rw [hthread.2]; exact h (hthread.1 ▸ h')

theorem keeps_finish (p : Process) (result : Result) : p.Keeps (p.finish result) :=
  .of_eq ⟨rfl, rfl⟩ rfl rfl rfl rfl rfl (by simp [finish, Call.taken]) (by simp [finish, Call.getting])

theorem keeps_checkPid (hcall : p.call = .idle) (hunset : p.pidSetup = 0 → p.named = false) : p.Keeps p.checkPid := by
  unfold checkPid
  split
  · next hzero =>
    refine ⟨fun h => ?_, rfl, fun _ h => h, ?_, ⟨rfl, rfl⟩, fun _ _ => hunset hzero, id⟩
    · have hnamed : p.named = true := h.1
      rw [hunset hzero] at hnamed
      cases hnamed
    · simp [hcall, Call.getting]
  · split
    · exact ⟨fun h => by simp [Serves] at h, rfl, fun _ h => h, by simp [hcall, Call.getting], ⟨rfl, rfl⟩, by simp, by simp⟩
    · exact .refl p

theorem keeps_add (p : Process) (segment : Segment) : p.Keeps (p.add segment) :=
  .of_eq ⟨rfl, rfl⟩ rfl rfl rfl rfl rfl (fun _ h => h) id

theorem keeps_lose (p : Process) (d : Descriptor) : p.Keeps (p.lose d) :=
  .of_eq ⟨rfl, rfl⟩ rfl rfl rfl rfl rfl (fun _ h => h) id

theorem keeps_delete (p : Process) (i : Nat) : p.Keeps (p.delete i) := by
  unfold delete
  split
  · exact .refl p
  · exact .of_eq ⟨rfl, rfl⟩ rfl rfl rfl rfl rfl (fun _ h => h) id

theorem keeps_unmap (p : Process) (i : Nat) (shmaddr : Option Nat) : p.Keeps (p.unmap i shmaddr) :=
  .of_eq ⟨rfl, rfl⟩ rfl rfl rfl rfl rfl (fun _ h => h) id

theorem keeps_shmdt (hcall : p.call = .idle) (hunset : p.pidSetup = 0 → p.named = false) (shmaddr : Option Nat) :
    p.Keeps (p.shmdt shmaddr) := by
  have hcheck := keeps_checkPid hcall hunset
  unfold shmdt
  dsimp only
  split
  · exact hcheck.trans (keeps_finish _ _)
  · next i hfind =>
    have hunmap := hcheck.trans (keeps_unmap p.checkPid i shmaddr)
    split
    · exact (hunmap.trans (keeps_delete _ _)).trans (keeps_finish _ _)
    · exact hunmap.trans (keeps_finish _ _)

theorem keeps_shmctl (hcall : p.call = .idle) (hunset : p.pidSetup = 0 → p.named = false) (shmid : Int) (cmd : Command) :
    p.Keeps (p.shmctl shmid cmd) := by
  refine (keeps_checkPid hcall hunset).trans ?_
  unfold shmctl
  split
  · unfold remove
    split
    · exact keeps_finish _ _
    · split
      · exact .of_eq ⟨rfl, rfl⟩ rfl rfl rfl rfl rfl (by simp [finish, Call.taken]) (by simp [finish, Call.getting])
      · exact (keeps_delete _ _).trans (keeps_finish _ _)
  · unfold stat
    split <;> exact keeps_finish _ _
  · exact keeps_finish _ _

end Process

namespace State

/-- No identifier is made. -/
structure Keeps (s t : State) : Prop where
  regions : t.regions = s.regions
  names : t.names = s.names
  processes : ∀ m, (s.processes m).Keeps (t.processes m)

theorem Keeps.trans (h : s.Keeps t) (h' : t.Keeps u) : s.Keeps u :=
  ⟨h'.regions.trans h.regions, h'.names.trans h.names, fun m => (h.processes m).trans (h'.processes m)⟩

theorem keeps_setProcess (h : (s.processes n).Keeps p) : s.Keeps (s.setProcess n p) := by
  refine ⟨rfl, rfl, fun m => ?_⟩
  by_cases hm : m = n
  · subst hm
    rw [setProcess_self]
    exact h
  · rw [setProcess_other p hm]
    exact .refl _

theorem keeps_setCall {call : Call} (htaken : ∀ id, call.taken = some id → (s.processes n).call.taken = some id)
    (hgetting : call.getting = true → (s.processes n).call.getting = true) : s.Keeps (s.setCall n call) :=
  keeps_setProcess (.of_eq ⟨rfl, rfl⟩ rfl rfl rfl rfl rfl htaken hgetting)

theorem keeps_attach (s : State) (n : Nat) (shmid : Int) (i : Nat) (shmflg : Int) (a : Answers) :
    s.Keeps (s.attach n shmid i shmflg a) := by
  unfold attach
  dsimp only
  split
  · exact ⟨rfl, rfl, fun _ => .refl _⟩
  · split
    · exact keeps_setProcess (Process.keeps_finish _ _)
    · split
      · exact keeps_setProcess (Process.keeps_finish _ _)
      · refine keeps_setProcess (.of_eq ⟨rfl, rfl⟩ rfl rfl rfl rfl rfl ?_ ?_) <;> simp [Process.finish, Call.taken, Call.getting]

/-- The purpose of a call is that of the call before. -/
def Pursues (s : State) (n : Nat) : Purpose → Prop
  | .get _ _ taken => (s.processes n).call.getting = true ∧ (s.processes n).call.taken = taken
  | .attach _ => True

theorem keeps_refuse {purpose : Purpose} (h : s.Pursues n purpose) (shmid : Int) : s.Keeps (s.refuse n shmid purpose) := by
  cases purpose with
  | get key size taken => exact keeps_setCall (fun id hid => h.2.trans hid) fun _ => h.1
  | attach => exact keeps_setProcess (Process.keeps_finish _ _)

theorem keeps_ask {purpose : Purpose} (h : s.Pursues n purpose) (shmid : Int) (a : Answers) :
    s.Keeps (s.ask n shmid purpose a) := by
  unfold ask
  split
  · exact keeps_refuse h shmid
  · cases purpose with
    | get key size taken => exact keeps_setCall (fun id hid => h.2.trans hid) fun _ => h.1
    | attach => exact keeps_setCall (by simp [Call.taken]) (by simp [Call.getting])

theorem keeps_receive {purpose : Purpose} (h : s.Pursues n purpose) (shmid : Int) (reply : Reply) (a : Answers) :
    s.Keeps (s.receive n shmid reply purpose a) := by
  unfold receive
  dsimp only
  split
  · split
    · refine (keeps_setProcess (Process.keeps_lose _ _)).trans (keeps_refuse ?_ shmid)
      cases purpose with
      | get key size taken => simpa [Pursues, Process.lose] using h
      | attach => trivial
    · split
      · exact ⟨rfl, rfl, (keeps_setProcess ((Process.keeps_add _ _).trans (Process.keeps_finish _ _))).processes⟩
      · exact (keeps_setProcess (Process.keeps_add _ _)).trans (keeps_attach _ _ _ _ _ _)
  · exact keeps_refuse h shmid

/-! ## Regions with different identifiers -/

/-- The identifiers of regions are those that processes make, each with its name and below its counter. -/
structure Distinct (s : State) : Prop where
  ids : (s.regions.map Region.id).Nodup
  made : ∀ r ∈ s.regions, ∃ socketId ∈ s.names, ∃ counter, counter < 0x8000 ∧ r.id = shmidFromCounter socketId counter
  names : ∀ socketId ∈ s.names, socketId < 0x10000
  own : ∀ n, (s.processes n).Serves → (s.processes n).localSocketId ∈ s.names
  apart : ∀ m n, (s.processes m).Serves → (s.processes n).Serves →
    (s.processes m).localSocketId = (s.processes n).localSocketId → m = n
  counter : ∀ n, (s.processes n).shmemCounter < 0x8000
  below : ∀ n, (s.processes n).Serves → ∀ r ∈ s.regions, ∀ counter, counter < 0x8000 →
    r.id = shmidFromCounter (s.processes n).localSocketId counter →
    counter ≤ (s.processes n).shmemCounter ∧ ((s.processes n).call.taken ≠ none → counter < (s.processes n).shmemCounter)
  getting : ∀ n, (s.processes n).call.getting = true → (s.processes n).Serves
  taken : ∀ n id, (s.processes n).call.taken = some id →
    id = shmidFromCounter (s.processes n).localSocketId (s.processes n).shmemCounter
  unset : ∀ n, (s.processes n).pidSetup = 0 → (s.processes n).named = false
  named : ∀ n, (s.processes n).listening = true → (s.processes n).named = true
  pid : ∀ n, (s.processes n).running = true → (s.processes n).pid ≠ 0

namespace Distinct

theorem keeps (h : s.Distinct) (hs : s.Keeps t) : t.Distinct where
  ids := hs.regions ▸ h.ids
  made := by
    rw [hs.regions, hs.names]
    exact h.made
  names := hs.names ▸ h.names
  own n hn := by
    obtain ⟨hserves, hlocal⟩ := (hs.processes n).serves hn
    rw [hs.names, hlocal]
    exact h.own n hserves
  apart m n hm hn heq := by
    obtain ⟨hm', hmlocal⟩ := (hs.processes m).serves hm
    obtain ⟨hn', hnlocal⟩ := (hs.processes n).serves hn
    exact h.apart m n hm' hn' (by rw [← hmlocal, ← hnlocal, heq])
  counter n := (hs.processes n).counter ▸ h.counter n
  below n hn r hr counter hc hid := by
    obtain ⟨hserves, hlocal⟩ := (hs.processes n).serves hn
    rw [hs.regions] at hr
    rw [hlocal] at hid
    obtain ⟨hle, hlt⟩ := h.below n hserves r hr counter hc hid
    rw [(hs.processes n).counter]
    refine ⟨hle, fun htaken => hlt fun hnone => ?_⟩
    obtain ⟨id, hid⟩ := Option.ne_none_iff_exists'.1 htaken
    rw [(hs.processes n).taken id hid] at hnone
    cases hnone
  getting n hn := ((hs.processes n).getting hn).2 (h.getting n ((hs.processes n).getting hn).1)
  taken n id hid := by
    have htaken := (hs.processes n).taken id hid
    have hserves := ((hs.processes n).getting (Call.getting_of_taken hid)).2 (h.getting n (Call.getting_of_taken htaken))
    rw [((hs.processes n).serves hserves).2, (hs.processes n).counter]
    exact h.taken n id htaken
  unset n := (hs.processes n).unset (h.unset n)
  named n := (hs.processes n).named (h.named n)
  pid n hn := by
    rw [(hs.processes n).pid.2] at hn
    rw [(hs.processes n).pid.1]
    exact h.pid n hn

/-- A process that does not serve, with no call -/
theorem idle (h : s.Distinct) (hserves : ¬p.Serves) (hcall : p.call = .idle) (hcounter : p.shmemCounter < 0x8000)
    (hunset : p.pidSetup = 0 → p.named = false) (hnamed : p.listening = true → p.named = true)
    (hpid : p.running = true → p.pid ≠ 0) : (s.setProcess n p).Distinct := by
  have hcases (P : Process → Prop) (hp : P p) (hs : ∀ m, P (s.processes m)) (m : Nat) : P ((s.setProcess n p).processes m) := by
    by_cases hm : m = n
    · rw [hm, setProcess_self]
      exact hp
    · rw [setProcess_other p hm]
      exact hs m
  have hne {m : Nat} (hm : ((s.setProcess n p).processes m).Serves) : m ≠ n := by
    rintro rfl
    rw [setProcess_self] at hm
    exact hserves hm
  refine ⟨h.ids, h.made, h.names, fun m hm => ?_, fun m k hm hk heq => ?_, ?_, fun m hm => ?_, ?_, ?_, ?_, ?_, ?_⟩
  · have hmn := hne hm
    rw [setProcess_other p hmn] at hm ⊢
    exact h.own m hm
  · have hmn := hne hm
    have hkn := hne hk
    rw [setProcess_other p hmn] at hm heq
    rw [setProcess_other p hkn] at hk heq
    exact h.apart m k hm hk heq
  · exact hcases (fun q => q.shmemCounter < 0x8000) hcounter h.counter
  · have hmn := hne hm
    rw [setProcess_other p hmn] at hm ⊢
    exact h.below m hm
  · exact hcases (fun q => q.call.getting = true → q.Serves) (by simp [hcall, Call.getting]) h.getting
  · exact hcases (fun q => ∀ id, q.call.taken = some id → id = shmidFromCounter q.localSocketId q.shmemCounter)
      (by simp [hcall, Call.taken]) h.taken
  · exact hcases (fun q => q.pidSetup = 0 → q.named = false) hunset h.unset
  · exact hcases (fun q => q.listening = true → q.named = true) hnamed h.named
  · exact hcases (fun q => q.running = true → q.pid ≠ 0) hpid h.pid

/-- No region has an identifier with a name that was not bound. -/
theorem not_made (h : s.Distinct) {socketId counter : Nat} (hlt : socketId < 0x10000) (hc : counter < 0x8000)
    (hnew : socketId ∉ s.names) {r : Region} (hr : r ∈ s.regions) : r.id ≠ shmidFromCounter socketId counter := by
  intro hid
  obtain ⟨socketId', hmem, counter', hc', hid'⟩ := h.made r hr
  obtain ⟨rfl, -⟩ := shmidFromCounter_inj hlt hc (h.names socketId' hmem) hc' (hid.symm.trans hid')
  exact hnew hmem

/-- A process binds a name of its own. -/
theorem serve (h : s.Distinct) (hserves : p.Serves) (hnew : p.localSocketId ∉ s.names) (hlt : p.localSocketId < 0x10000)
    (hcall : p.call = .idle) (hcounter : p.shmemCounter < 0x8000) (hpid : p.pid ≠ 0) :
    Distinct { s.setProcess n p with names := p.localSocketId :: s.names } := by
  have hothers {m : Nat} (hm : m ≠ n) (hserves : ((s.setProcess n p).processes m).Serves) :
      ((s.setProcess n p).processes m).localSocketId ∈ s.names := by
    rw [setProcess_other p hm] at hserves ⊢
    exact h.own m hserves
  have hcases (P : Process → Prop) (hp : P p) (hs : ∀ m, P (s.processes m)) (m : Nat) : P ((s.setProcess n p).processes m) := by
    by_cases hm : m = n
    · rw [hm, setProcess_self]
      exact hp
    · rw [setProcess_other p hm]
      exact hs m
  refine ⟨h.ids, fun r hr => ?_, fun socketId hmem => ?_, fun m hm => ?_, fun m k hm hk heq => ?_, ?_, fun m hm => ?_,
    ?_, ?_, ?_, ?_, ?_⟩
  · obtain ⟨socketId, hmem, hid⟩ := h.made r hr
    exact ⟨socketId, List.mem_cons_of_mem _ hmem, hid⟩
  · rcases List.mem_cons.1 hmem with rfl | hmem
    · exact hlt
    · exact h.names socketId hmem
  · by_cases hmn : m = n
    · subst hmn
      simp [setProcess]
    · exact List.mem_cons_of_mem _ (hothers hmn hm)
  · by_cases hmn : m = n <;> by_cases hkn : k = n
    · rw [hmn, hkn]
    · subst hmn
      have hmem := hothers hkn hk
      rw [← show _ = _ from heq, setProcess_self] at hmem
      exact absurd hmem hnew
    · subst hkn
      have hmem := hothers hmn hm
      rw [show _ = _ from heq, setProcess_self] at hmem
      exact absurd hmem hnew
    · have hm' : (s.processes m).Serves := by simpa [setProcess, hmn] using hm
      have hk' : (s.processes k).Serves := by simpa [setProcess, hkn] using hk
      exact h.apart m k hm' hk' (by simpa [setProcess, hmn, hkn] using heq)
  · exact hcases (fun q => q.shmemCounter < 0x8000) hcounter h.counter
  · by_cases hmn : m = n
    · subst hmn
      intro r hr counter hc hid
      simp only [setProcess_self] at hid
      exact absurd hid (h.not_made hlt hc hnew hr)
    · have hm' : (s.processes m).Serves := by simpa [setProcess, hmn] using hm
      simpa [setProcess, hmn] using h.below m hm'
  · exact hcases (fun q => q.call.getting = true → q.Serves) (fun _ => hserves) h.getting
  · exact hcases (fun q => ∀ id, q.call.taken = some id → id = shmidFromCounter q.localSocketId q.shmemCounter)
      (by simp [hcall, Call.taken]) h.taken
  · exact hcases (fun q => q.pidSetup = 0 → q.named = false) (fun hzero => absurd (hserves.2.symm.trans hzero) hpid) h.unset
  · exact hcases (fun q => q.listening = true → q.named = true) (fun _ => hserves.1) h.named
  · exact hcases (fun q => q.running = true → q.pid ≠ 0) (fun _ => hpid) h.pid

end Distinct

theorem bindLoop_lt {pid fuel i socketId : Nat} (h : s.bindLoop pid fuel i = some socketId) : socketId < 0x10000 := by
  induction fuel generalizing i with
  | zero => cases h
  | succ fuel ih =>
    unfold bindLoop at h
    dsimp only at h
    split at h
    · cases h
      omega
    · exact ih h

/-- The name that a process would bind was not bound before. -/
def NewName (s : State) (n : Nat) : Prop :=
  ∀ socketId, s.bindLoop (s.processes n).pid 4096 0 = some socketId → (s.processes n).listening = false → socketId ∉ s.names

theorem Distinct.startThread (h : s.Distinct) (hcall : (s.processes n).call = .idle)
    (hsetup : (s.processes n).pidSetup = (s.processes n).pid) (hpid : (s.processes n).pid ≠ 0) (hnew : s.NewName n) :
    (s.startThread n a).1.Distinct ∧ ((s.startThread n a).1.processes n).call = .idle ∧
      ((s.startThread n a).1.processes n).shmemCounter = (s.processes n).shmemCounter ∧
        ((s.startThread n a).2 = true → ((s.startThread n a).1.processes n).Serves) := by
  unfold State.startThread
  dsimp only
  split
  · next hlistening => exact ⟨h, hcall, rfl, fun _ => ⟨h.named n hlistening, hsetup⟩⟩
  · next hlistening =>
    have hsilent : (s.processes n).listening = false := by simpa using hlistening
    split
    · exact ⟨h, hcall, rfl, by simp⟩
    · split
      · refine ⟨h.idle ?_ hcall (h.counter n) (fun _ => rfl) (by simp [hsilent]) (h.pid n), by simp [hcall], by simp, by simp⟩
        simp [Process.Serves]
      · next socketId hbind =>
        have hbound : s.bindLoop (s.processes n).pid 4096 0 = some socketId := by
          split at hbind
          · exact hbind
          · cases hbind
        have hserve := h.serve (n := n)
          (p := { s.processes n with
            localSocketId := socketId, listening := a.listen && (a.thread || a.threadId), named := true })
          ⟨rfl, hsetup⟩ (hnew socketId hbound hsilent) (bindLoop_lt hbound) hcall (h.counter n) hpid
        refine ⟨hserve.keeps ⟨rfl, rfl, fun _ => .refl _⟩, ?_, ?_, fun _ => ?_⟩
        · simp [State.setProcess, hcall]
        · simp [State.setProcess]
        · simp [State.setProcess, Process.Serves, hsetup]

/-- The identifier of this process is not that of a region. -/
def Next (s : State) (n : Nat) (id : Int) : Prop :=
  id = shmidFromCounter (s.processes n).localSocketId (s.processes n).shmemCounter ∧
    ∀ r ∈ s.regions, ∀ counter, counter < 0x8000 → r.id = shmidFromCounter (s.processes n).localSocketId counter →
      counter < (s.processes n).shmemCounter

namespace Distinct

/-- A region is made. -/
theorem append (h : s.Distinct) {id : Int} (hserves : (s.processes n).Serves) (hnext : s.Next n id)
    (htaken : (s.processes n).call.taken = none) (size : Nat) (key : Int) :
    Distinct { s with regions := s.regions ++ [⟨size, id, key⟩] } := by
  obtain ⟨hnext, hbelow⟩ := hnext
  have hlt := h.names _ (h.own n hserves)
  have hnew : id ∉ s.regions.map Region.id := by
    intro hmem
    obtain ⟨r, hr, hid⟩ := List.mem_map.1 hmem
    exact absurd (hbelow r hr _ (h.counter n) (hid.trans hnext)) (Nat.lt_irrefl _)
  refine ⟨?_, fun r hr => ?_, h.names, h.own, h.apart, h.counter, fun m hm r hr counter hc hid => ?_, h.getting, h.taken,
    h.unset, h.named, h.pid⟩
  · rw [List.map_append, List.nodup_append]
    refine ⟨h.ids, by simp, fun x hx y hy => ?_⟩
    rintro rfl
    rw [List.mem_singleton.1 hy] at hx
    exact hnew hx
  · rcases List.mem_append.1 hr with hr | hr
    · exact h.made r hr
    · rw [List.mem_singleton.1 hr]
      exact ⟨_, h.own n hserves, _, h.counter n, hnext⟩
  · rcases List.mem_append.1 hr with hr | hr
    · exact h.below m hm r hr counter hc hid
    · rw [List.mem_singleton.1 hr] at hid
      obtain ⟨hsame, hcounter⟩ :=
        shmidFromCounter_inj hlt (h.counter n) (h.names _ (h.own m hm)) hc (hnext.symm.trans hid)
      have hmn := h.apart m n hm hserves hsame.symm
      subst hmn
      exact ⟨Nat.le_of_eq hcounter.symm, fun hne => absurd htaken hne⟩

/-- The counter goes on. -/
theorem count (h : s.Distinct) (hserves : (s.processes n).Serves) (htaken : (s.processes n).call.taken = none)
    (hround : (s.processes n).shmemCounter + 1 < 0x8000) :
    (s.setProcess n ((s.processes n).takeId none).1).Distinct ∧
      (s.setProcess n ((s.processes n).takeId none).1).Next n ((s.processes n).takeId none).2 := by
  have hmod : ((s.processes n).shmemCounter + 1) % 0x8000 = (s.processes n).shmemCounter + 1 := Nat.mod_eq_of_lt hround
  have hcases (P : Process → Prop) (hp : P ((s.processes n).takeId none).1) (hs : ∀ m, P (s.processes m)) (m : Nat) :
      P ((s.setProcess n ((s.processes n).takeId none).1).processes m) := by
    by_cases hm : m = n
    · rw [hm, setProcess_self]
      exact hp
    · rw [setProcess_other _ hm]
      exact hs m
  have hserves' {m : Nat} (hm : ((s.setProcess n ((s.processes n).takeId none).1).processes m).Serves) :
      (s.processes m).Serves ∧
        ((s.setProcess n ((s.processes n).takeId none).1).processes m).localSocketId = (s.processes m).localSocketId := by
    by_cases hmn : m = n
    · subst hmn
      simpa [Process.takeId, Process.Serves] using hm
    · simpa [setProcess, hmn] using hm
  refine ⟨⟨h.ids, h.made, h.names, fun m hm => ?_, fun m k hm hk heq => ?_, ?_, fun m hm r hr counter hc hid => ?_,
    ?_, ?_, ?_, ?_, ?_⟩, by simp [Process.takeId], fun r hr counter hc hid => ?_⟩
  · obtain ⟨hm', hlocal⟩ := hserves' hm
    rw [hlocal]
    exact h.own m hm'
  · obtain ⟨hm', hmlocal⟩ := hserves' hm
    obtain ⟨hk', hklocal⟩ := hserves' hk
    exact h.apart m k hm' hk' (by rw [← hmlocal, ← hklocal, heq])
  · exact hcases (fun q => q.shmemCounter < 0x8000) (Nat.mod_lt _ (by decide)) h.counter
  · obtain ⟨hm', hlocal⟩ := hserves' hm
    rw [hlocal] at hid
    have hold := h.below m hm' r hr counter hc hid
    by_cases hmn : m = n
    · subst hmn
      simp only [setProcess_self, Process.takeId, hmod, htaken]
      exact ⟨by omega, fun hne => absurd rfl hne⟩
    · rw [setProcess_other _ hmn]
      exact hold
  · exact hcases (fun q => q.call.getting = true → q.Serves) (fun _ => hserves) h.getting
  · refine hcases (fun q => ∀ id, q.call.taken = some id → id = shmidFromCounter q.localSocketId q.shmemCounter) ?_ h.taken
    intro id hid
    have hnone : (s.processes n).call.taken = some id := hid
    rw [htaken] at hnone
    cases hnone
  · exact hcases (fun q => q.pidSetup = 0 → q.named = false) (h.unset n) h.unset
  · exact hcases (fun q => q.listening = true → q.named = true) (h.named n) h.named
  · exact hcases (fun q => q.running = true → q.pid ≠ 0) (h.pid n) h.pid
  · have hold := (h.below n hserves r hr counter hc (by simpa [Process.takeId] using hid)).1
    simp only [setProcess_self, Process.takeId, hmod]
    omega

/-- `create` after the identifier was taken -/
theorem create (h : s.Distinct) (hserves : (s.processes n).Serves) {id : Int} (hnext : s.Next n id) (key : Int) (size : Nat)
    (a : Answers) : (s.create n key size (some id) a).Distinct := by
  unfold State.create
  dsimp only
  split
  · exact h.keeps (keeps_setProcess (Process.keeps_finish _ _))
  · next number hnumber =>
    have hkeeps := keeps_setProcess (s := s) (n := n) ((Process.keeps_add (s.processes n)
      ⟨id, none, ⟨number, s.regions.length⟩, roundUp size s.pageSize, false, key⟩).trans (Process.keeps_finish _ (.id id)))
    have happend := (h.keeps hkeeps).append (n := n)
      (by simpa [Process.add, Process.finish, Process.Serves] using hserves)
      (by simpa [Next, Process.add, Process.finish] using hnext) (by simp [Process.finish, Call.taken])
      (roundUp size s.pageSize) key
    exact happend.keeps ⟨rfl, rfl, fun _ => .refl _⟩

/-- `shmget` reads the link of its key. -/
theorem reading (h : s.Distinct) (hserves : (s.processes n).Serves) {taken : Option Int} (hnext : ∀ id ∈ taken, s.Next n id)
    (key : Int) (size : Nat) : (s.setCall n (.reading key size taken)).Distinct := by
  have hsame (m : Nat) : ((s.setCall n (.reading key size taken)).processes m).Serves ↔ (s.processes m).Serves := by
    by_cases hm : m = n
    · subst hm
      simp [setCall, Process.Serves]
    · simp [hm]
  have hlocal (m : Nat) : ((s.setCall n (.reading key size taken)).processes m).localSocketId = (s.processes m).localSocketId ∧
      ((s.setCall n (.reading key size taken)).processes m).shmemCounter = (s.processes m).shmemCounter := by
    by_cases hm : m = n
    · subst hm
      simp [setCall]
    · simp [hm]
  refine ⟨h.ids, h.made, h.names, fun m hm => ?_, fun m k hm hk heq => ?_, fun m => ?_, fun m hm r hr counter hc hid => ?_,
    fun m hm => ?_, fun m id hid => ?_, fun m => ?_, fun m => ?_, fun m => ?_⟩
  · rw [(hlocal m).1]
    exact h.own m ((hsame m).1 hm)
  · rw [(hlocal m).1, (hlocal k).1] at heq
    exact h.apart m k ((hsame m).1 hm) ((hsame k).1 hk) heq
  · rw [(hlocal m).2]
    exact h.counter m
  · rw [(hlocal m).1] at hid
    rw [(hlocal m).2]
    have hold := h.below m ((hsame m).1 hm) r hr counter hc hid
    by_cases hmn : m = n
    · subst hmn
      refine ⟨hold.1, fun hne => ?_⟩
      obtain ⟨id, hid'⟩ := Option.ne_none_iff_exists'.1 hne
      have htaken : taken = some id := by simpa [setCall, Call.taken] using hid'
      exact (hnext id htaken).2 r hr counter hc hid
    · simpa [hmn] using hold
  · by_cases hmn : m = n
    · subst hmn
      exact (hsame m).2 hserves
    · simp only [setCall_other _ hmn] at hm ⊢
      exact h.getting m hm
  · rw [(hlocal m).1, (hlocal m).2]
    by_cases hmn : m = n
    · subst hmn
      have htaken : taken = some id := by simpa [setCall, Call.taken] using hid
      exact (hnext id htaken).1
    · rw [setCall_other _ hmn] at hid
      exact h.taken m id hid
  · by_cases hmn : m = n
    · subst hmn
      simpa [setCall] using h.unset m
    · simpa [hmn] using h.unset m
  · by_cases hmn : m = n
    · subst hmn
      simpa [setCall] using h.named m
    · simpa [hmn] using h.named m
  · by_cases hmn : m = n
    · subst hmn
      simpa [setCall] using h.pid m
    · simpa [hmn] using h.pid m

end Distinct

/-- A region with a new identifier -/
theorem create_none (s : State) (n : Nat) (key : Int) (size : Nat) (a : Answers) :
    s.create n key size none a =
      (s.setProcess n ((s.processes n).takeId none).1).create n key size (some ((s.processes n).takeId none).2) a := by
  unfold create
  simp only [setProcess_self, Process.takeId]
  split
  · simp [setProcess]
  · simp [setProcess]

end State

/-! ## Runs -/

@[simp] theorem Process.checkPid_pid (p : Process) : p.checkPid.pid = p.pid := by
  unfold checkPid
  split
  · rfl
  · split <;> rfl

@[simp] theorem Process.checkPid_pidSetup (p : Process) : p.checkPid.pidSetup = p.pid := by
  unfold checkPid
  split
  · rfl
  · split
    · rfl
    · next h => simpa using h

@[simp] theorem Process.checkPid_call (p : Process) : p.checkPid.call = p.call := by
  unfold checkPid
  split
  · rfl
  · split <;> rfl

@[simp] theorem Process.checkPid_shmemCounter (p : Process) : p.checkPid.shmemCounter = p.shmemCounter := by
  unfold checkPid
  split
  · rfl
  · split <;> rfl

/-- Names are bound once, the counters do not come round, and a child does not get the number of the process whose state it has. -/
def Orderly (s : State) : Action → Prop
  | .shmget n _ _ _ => (s.setProcess n (s.processes n).checkPid).NewName n ∧ (s.processes n).shmemCounter + 1 < 0x8000
  | .proceed n _ => (s.processes n).shmemCounter + 1 < 0x8000
  | .fork n _ pid => pid ≠ (s.processes n).pidSetup
  | _ => True

namespace State.Distinct

theorem shmget (h : s.Distinct) (hready : (s.processes n).Ready) (hnew : (s.setProcess n (s.processes n).checkPid).NewName n)
    (hround : (s.processes n).shmemCounter + 1 < 0x8000) (key : Int) (size : Nat) (a : Answers) :
    (s.shmget n key size a).Distinct := by
  have hcheck := h.keeps (keeps_setProcess (Process.keeps_checkPid hready.2 (h.unset n)))
  obtain ⟨hthread, hidle, hcounter, hserves⟩ := hcheck.startThread (n := n) (a := a) (by simpa using hready.2) (by simp)
    (by simpa using h.pid n hready.1) hnew
  simp only [setProcess_self, Process.checkPid_shmemCounter] at hcounter
  unfold State.shmget
  split
  · next heq =>
    rw [heq] at hthread
    exact hthread.keeps (keeps_setProcess (Process.keeps_finish _ _))
  · next u heq =>
    rw [heq] at hthread hidle hcounter hserves
    split
    · rw [create_none]
      have htaken : (u.processes n).call.taken = none := by
        rw [show (u.processes n).call = .idle from hidle]
        rfl
      have hround' : (u.processes n).shmemCounter + 1 < 0x8000 := by
        rw [show (u.processes n).shmemCounter = _ from hcounter]
        exact hround
      obtain ⟨hcount, hnext⟩ := hthread.count (hserves rfl) htaken hround'
      refine hcount.create ?_ hnext key size a
      simpa [Process.takeId, Process.Serves] using hserves rfl
    · exact hthread.reading (hserves rfl) (by simp) key size

theorem shmat (h : s.Distinct) (hcall : (s.processes n).call = .idle) (shmid shmflg : Int) (a : Answers) :
    (s.shmat n shmid shmflg a).Distinct := by
  refine h.keeps ((keeps_setProcess (Process.keeps_checkPid hcall (h.unset n))).trans ?_)
  unfold State.shmat
  dsimp only
  split
  · exact keeps_attach _ _ _ _ _ _
  · split
    · exact keeps_ask (show Pursues _ n (.attach shmflg) from trivial) _ _
    · exact keeps_setProcess (Process.keeps_finish _ _)

theorem proceed (h : s.Distinct) (hround : (s.processes n).shmemCounter + 1 < 0x8000) (hs : s.proceed n a = some t) :
    t.Distinct := by
  unfold State.proceed at hs
  split at hs
  · next key size taken hcall =>
    split at hs
    · cases hs
      exact h.keeps (keeps_setCall (by simp [hcall, Call.taken]) (by simp [hcall, Call.getting]))
    · split at hs
      · cases hs
        exact h.keeps (keeps_setCall (by simp [hcall, Call.taken]) (by simp [hcall, Call.getting]))
      · split at hs
        · cases hs
          exact (h.keeps (keeps_setProcess (Process.keeps_finish _ _))).keeps ⟨rfl, rfl, fun _ => .refl _⟩
        · cases hs
          have hpursues : s.Pursues n (.get key size taken) := ⟨by simp [hcall, Call.getting], by simp [hcall, Call.taken]⟩
          exact h.keeps (keeps_ask hpursues _ _)
  · next shmid owner reply purpose hcall =>
    cases hs
    refine h.keeps (keeps_receive ?_ _ _ _)
    cases purpose with
    | get => exact ⟨by simp [hcall, Call.getting], by simp [hcall, Call.taken]⟩
    | attach => trivial
  · next key size taken hcall =>
    cases hs
    have hlinking : (s.setCall n (.linking key size taken)).Distinct :=
      h.keeps (keeps_setCall (by simp [hcall, Call.taken]) (by simp [hcall, Call.getting]))
    exact hlinking.keeps ⟨rfl, rfl, fun _ => .refl _⟩
  · next key size taken hcall =>
    have hserves := h.getting n (by simp [hcall, Call.getting])
    have htake : (s.setProcess n ((s.processes n).takeId taken).1).Distinct ∧
        (s.setProcess n ((s.processes n).takeId taken).1).Next n ((s.processes n).takeId taken).2 := by
      cases htaken : taken with
      | none => exact h.count hserves (by simp [hcall, Call.taken, htaken]) hround
      | some id =>
        have hid : (s.processes n).call.taken = some id := by simp [hcall, Call.taken, htaken]
        refine ⟨h.keeps (keeps_setProcess (.refl _)), ?_, fun r hr counter hc heq => ?_⟩
        · simpa [Process.takeId] using h.taken n id hid
        · simp only [setProcess_self, Process.takeId] at heq ⊢
          exact (h.below n hserves r hr counter hc heq).2 (by simp [hid])
    have hserves' : ((s.setProcess n ((s.processes n).takeId taken).1).processes n).Serves := by
      cases taken <;> simpa [Process.takeId, Process.Serves] using hserves
    dsimp only at hs
    split at hs
    · cases hs
      have hlinked : State.Distinct { s.setProcess n ((s.processes n).takeId taken).1 with
          links := Function.update s.links key (some ((s.processes n).takeId taken).2) } :=
        htake.1.keeps ⟨rfl, rfl, fun _ => .refl _⟩
      exact hlinked.create hserves' htake.2 key size a
    · cases hs
      exact htake.1.reading hserves' (by simpa using htake.2) key size
  · cases hs

theorem step (h : s.Distinct) {a : Action} (ha : Orderly s a) (hs : step s a = some t) : t.Distinct := by
  cases a with
  | start n pid =>
    obtain ⟨⟨-, hpid⟩, ht⟩ := Option.ite_none_right_eq_some.1 hs
    cases ht
    exact h.idle (by simp [Process.Serves]) rfl (Nat.zero_lt_succ _) (fun _ => rfl) (by simp) fun _ => hpid
  | fork n child pid =>
    obtain ⟨⟨-, -, hpid⟩, ht⟩ := Option.ite_none_right_eq_some.1 hs
    cases ht
    exact h.idle (fun hserves => ha hserves.2.symm) rfl (h.counter n) (h.unset n) (h.named n) fun _ => hpid
  | exit n inherited =>
    obtain ⟨-, ht⟩ := Option.ite_none_right_eq_some.1 hs
    cases ht
    have hidle := h.idle (n := n) (p := { pid := (s.processes n).pid }) (by simp [Process.Serves]) rfl
      (Nat.zero_lt_succ _) (fun _ => rfl) (by simp) (by simp)
    exact hidle.keeps ⟨rfl, rfl, fun _ => .refl _⟩
  | unbind socketId =>
    obtain ⟨-, ht⟩ := Option.ite_none_right_eq_some.1 hs
    cases ht
    exact h.keeps ⟨rfl, rfl, fun _ => .refl _⟩
  | shmget n key size a =>
    obtain ⟨⟨hready, -⟩, ht⟩ := Option.ite_none_right_eq_some.1 hs
    cases ht
    exact h.shmget hready ha.1 ha.2 key size a
  | shmat n shmid shmflg a =>
    obtain ⟨⟨hready, -⟩, ht⟩ := Option.ite_none_right_eq_some.1 hs
    cases ht
    exact h.shmat hready.2 shmid shmflg a
  | shmdt n shmaddr =>
    obtain ⟨⟨hready, -⟩, ht⟩ := Option.ite_none_right_eq_some.1 hs
    cases ht
    exact h.keeps (keeps_setProcess (Process.keeps_shmdt hready.2 (h.unset n) shmaddr))
  | shmctl n shmid cmd =>
    obtain ⟨hready, ht⟩ := Option.ite_none_right_eq_some.1 hs
    cases ht
    exact h.keeps (keeps_setProcess (Process.keeps_shmctl hready.2 (h.unset n) shmid cmd))
  | proceed n a =>
    obtain ⟨-, ht⟩ := Option.ite_none_right_eq_some.1 hs
    exact h.proceed ha ht
  | serve n asker sent =>
    have hs' : s.serve n asker sent = some t := hs
    unfold State.serve at hs'
    split at hs'
    · next shmid owner purpose hcall =>
      obtain ⟨-, ht⟩ := Option.ite_none_right_eq_some.1 hs'
      cases ht
      refine h.keeps (keeps_setCall ?_ ?_) <;> cases purpose <;> simp [hcall, Call.taken, Call.getting]
    · cases hs'
  | hangup n =>
    have hs' : s.hangup n = some t := hs
    unfold State.hangup at hs'
    split at hs'
    · next shmid owner purpose hcall =>
      obtain ⟨-, ht⟩ := Option.ite_none_left_eq_some.1 hs'
      cases ht
      refine h.keeps (keeps_setCall ?_ ?_) <;> cases purpose <;> simp [hcall, Call.taken, Call.getting]
    · cases hs'
  | interrupt n =>
    have hs' : s.interrupt n = some t := hs
    unfold State.interrupt at hs'
    split at hs'
    · next shmid owner purpose hcall =>
      cases hs'
      refine h.keeps (keeps_setCall ?_ ?_) <;> cases purpose <;> simp [hcall, Call.taken, Call.getting]
    · cases hs'
  | endThread socketId =>
    have hs' : s.endThread socketId = some t := hs
    unfold State.endThread at hs'
    split at hs' <;> cases hs'
    exact h.keeps ⟨rfl, rfl, fun _ => .refl _⟩

end State.Distinct

/-- **Identifiers are not used twice** in orderly runs. -/
theorem distinct_of_reach {pageSize : Nat} (h : Reach step Orderly (State.start pageSize) s) : s.Distinct := by
  refine h.invariant (I := State.Distinct) ?_ fun _ _ _ ht ha hs => ht.step ha hs
  exact ⟨by simp [State.start], by simp [State.start], by simp [State.start], by simp [State.start, Process.Serves],
    by simp [State.start, Process.Serves], by simp [State.start], by simp [State.start], by simp [State.start, Call.getting],
    by simp [State.start, Call.taken], by simp [State.start], by simp [State.start], by simp [State.start]⟩

/-- Two segments with one identifier have one region. -/
theorem eq_of_made (h : s.Distinct) {region region' : Nat} {id key key' : Int} (hr : MadeFor s.regions region id key)
    (hr' : MadeFor s.regions region' id key') : region = region' ∧ key = key' := by
  obtain ⟨r, hget, hid, rfl⟩ := hr
  obtain ⟨r', hget', hid', rfl⟩ := hr'
  have hids : (s.regions.map Region.id)[region]? = (s.regions.map Region.id)[region']? := by
    simp only [List.getElem?_map, hget, hget', Option.map_some, hid, hid']
  have hlt : region < (s.regions.map Region.id).length := by
    simpa using (List.getElem?_eq_some_iff.1 hget).1
  have hregion : region = region' := (List.getElem?_inj hlt h.ids).1 hids
  subst hregion
  rw [hget] at hget'
  cases hget'
  exact ⟨rfl, rfl⟩

/-- A segment that is attached is mapped at its address. -/
theorem exists_mapping {regions : List Region} (h : p.Sound regions) {segment : Segment} (hs : segment ∈ p.shmem) {addr : Nat}
    (haddr : segment.addr = some addr) :
    ∃ x ∈ p.mapped, x.addr = addr ∧ x.region = segment.descriptor.region ∧ x.size = segment.size := by
  have hplace : segment.place = some ⟨addr, segment.descriptor.region, segment.size⟩ := by simp [Segment.place, haddr]
  have hmem := h.mappings.mem (List.mem_filterMap.2 ⟨segment, hs, hplace⟩)
  obtain ⟨x, hx, heq⟩ := List.mem_map.1 hmem
  simp only [Mapping.place, Place.mk.injEq] at heq
  exact ⟨x, hx, heq⟩

/-- **One identifier, one memory**: in orderly runs, the segments that any processes have under one identifier stand for one
region and have one key, and processes whose `shmat` of it returned an address have this region there. -/
theorem same_id_same_region {pageSize : Nat} (h : Reach step Orderly (State.start pageSize) s) {m n : Nat} :
    (∀ x ∈ (s.processes m).shmem, ∀ y ∈ (s.processes n).shmem, x.id = y.id →
        x.descriptor.region = y.descriptor.region ∧ x.key = y.key) ∧
      ∀ shmid addr addr', (s.processes m).result = some (.address shmid (some addr)) →
        (s.processes n).result = some (.address shmid (some addr')) →
          ∃ region, (∃ x ∈ (s.processes m).mapped, x.addr = addr ∧ x.region = region) ∧
            ∃ y ∈ (s.processes n).mapped, y.addr = addr' ∧ y.region = region := by
  have hsound := sound_of_reach h
  have hdistinct := distinct_of_reach h
  have hanswered := answered_of_reach h
  have hsame : ∀ x ∈ (s.processes m).shmem, ∀ y ∈ (s.processes n).shmem, x.id = y.id →
      x.descriptor.region = y.descriptor.region ∧ x.key = y.key := by
    intro x hx y hy hid
    have hmade := ((hsound n).genuine y hy).made
    rw [← hid] at hmade
    exact eq_of_made hdistinct ((hsound m).genuine x hx).made hmade
  refine ⟨hsame, fun shmid addr addr' hm hn => ?_⟩
  obtain ⟨x, hx, hid, haddr⟩ := hanswered m shmid addr hm
  obtain ⟨y, hy, hid', haddr'⟩ := hanswered n shmid addr' hn
  obtain ⟨x', hx', hxaddr, hxregion, -⟩ := exists_mapping (hsound m) hx haddr
  obtain ⟨y', hy', hyaddr, hyregion, -⟩ := exists_mapping (hsound n) hy haddr'
  refine ⟨x.descriptor.region, ⟨x', hx', hxaddr, hxregion⟩, y', hy', hyaddr, hyregion.trans ?_⟩
  exact (hsame x hx y hy (hid.trans hid'.symm)).1.symm

/-- A client makes a segment, and the server attaches it. -/
def clientAndServer : List Action :=
  [.start 0 500, .start 1 501, .shmget 1 0 100 { descriptor := some 3 }, .shmat 1 32833537 0 { address := some 64 },
    .shmat 0 32833537 0 {}, .serve 1 0 true, .proceed 0 { descriptor := some 5, address := some 128 }]

instance (s : State) (n : Nat) : Decidable (s.NewName n) :=
  decidable_of_iff (∀ socketId ∈ s.bindLoop (s.processes n).pid 4096 0, (s.processes n).listening = false → socketId ∉ s.names)
    (by simp [State.NewName])

instance : ∀ s a, Decidable (Orderly s a)
  | _, .shmget _ _ _ _ => inferInstanceAs (Decidable (_ ∧ _))
  | _, .proceed _ _ => inferInstanceAs (Decidable (_ < _))
  | _, .fork _ _ _ => inferInstanceAs (Decidable (_ ≠ _))
  | _, .start _ _ | _, .exit _ _ | _, .unbind _ | _, .shmat _ _ _ _ | _, .shmdt _ _ | _, .shmctl _ _ _ | _, .serve _ _ _
  | _, .hangup _ | _, .interrupt _ | _, .endThread _ => inferInstanceAs (Decidable True)

theorem same_id_same_region_server : ∃ s, Reach step Orderly (State.start 4096) s ∧
    ∃ region, (∃ x ∈ (s.processes 0).mapped, x.addr = 128 ∧ x.region = region) ∧
      ∃ y ∈ (s.processes 1).mapped, y.addr = 64 ∧ y.region = region := by
  have hany : (exec (fun s a => if Orderly s a then step s a else none) (State.start 4096) clientAndServer).any
      (fun s => (s.processes 0).result = some (.address 32833537 (some 128)) &&
        (s.processes 1).result = some (.address 32833537 (some 64))) = true := by decide
  obtain ⟨s, hs, hfacts⟩ := (Option.any_eq_true _ _).1 hany
  simp only [Bool.and_eq_true, decide_eq_true_eq] at hfacts
  have hreach : Reach step Orderly (State.start 4096) s := Reach.of_exec_guarded clientAndServer hs
  exact ⟨s, hreach, (same_id_same_region hreach).2 32833537 128 64 hfacts.1 hfacts.2⟩

end Lorie.SharedMemory
