import Lorie.SharedMemory.Identity

/-!
# Segments with a key

The link of a key is made once: `symlink` fails while it is there, and a process that finds it asks the owner that it names.

- `State.Keyed`: as long as the link of a key was not removed, it names the one region of the key (`keyed_of_reach`);
- `one_segment_per_key`: then every `shmget` of the key got this segment, whatever processes raced for it.
-/

namespace Lorie.SharedMemory

open Lorie.Lib

variable {s t u : State} {n : Nat} {p : Process} {a : Answers}

/-- The key and the identifier that a `shmget` asks for -/
def Call.wanted : Call → Option (Int × Int)
  | .asking shmid _ _ (.get key _ _) => some (key, shmid)
  | _ => none

namespace State

/-- The link of this key is the first one. -/
def Lasting (s : State) (key : Int) : Prop := key ≠ 0 ∧ key ∉ s.unlinked

/-- The regions that were made for a key -/
def regionsOf (s : State) (key : Int) : List Region := s.regions.filter fun r => r.key = key

/-- Lasting links name what was made, asked for and returned for their keys; one region was made at most. -/
structure Keyed (s : State) : Prop where
  wanted : ∀ m key id, (s.processes m).call.wanted = some (key, id) → s.Lasting key → s.links key = some id
  returned : ∀ key id, (key, id) ∈ s.returned → s.Lasting key → s.links key = some id
  made : ∀ r ∈ s.regions, s.Lasting r.key → s.links r.key = some r.id
  single : ∀ key, s.Lasting key → (s.regionsOf key).length ≤ 1

/-- The links stay, and nothing is made, asked for or returned. -/
structure Aside (s t : State) : Prop where
  links : t.links = s.links
  unlinked : t.unlinked = s.unlinked
  regions : t.regions = s.regions
  returned : t.returned = s.returned
  wanted : ∀ m w, (t.processes m).call.wanted = some w → (s.processes m).call.wanted = some w

theorem Aside.refl (s : State) : s.Aside s := ⟨rfl, rfl, rfl, rfl, fun _ _ h => h⟩

theorem Aside.trans (h : s.Aside t) (h' : t.Aside u) : s.Aside u :=
  ⟨h'.links.trans h.links, h'.unlinked.trans h.unlinked, h'.regions.trans h.regions, h'.returned.trans h.returned,
    fun m w hw => h.wanted m w (h'.wanted m w hw)⟩

theorem aside_setProcess (h : ∀ w, p.call.wanted = some w → (s.processes n).call.wanted = some w) :
    s.Aside (s.setProcess n p) := by
  refine ⟨rfl, rfl, rfl, rfl, fun m w hw => ?_⟩
  by_cases hm : m = n
  · subst hm
    rw [setProcess_self] at hw
    exact h w hw
  · rwa [setProcess_other p hm] at hw

/-- A process that is not in a call -/
theorem aside_idle (h : p.call = .idle) : s.Aside (s.setProcess n p) := aside_setProcess (by simp [h, Call.wanted])

theorem aside_attach (s : State) (n : Nat) (shmid : Int) (i : Nat) (shmflg : Int) (a : Answers) :
    s.Aside (s.attach n shmid i shmflg a) := by
  unfold attach
  dsimp only
  split
  · exact .refl s
  · split
    · exact aside_idle rfl
    · split <;> exact aside_idle rfl

theorem aside_refuse (s : State) (n : Nat) (shmid : Int) (purpose : Purpose) : s.Aside (s.refuse n shmid purpose) := by
  cases purpose with
  | get => exact aside_setProcess (by simp [Call.wanted])
  | attach => exact aside_idle rfl

theorem aside_startThread (s : State) (n : Nat) (a : Answers) : s.Aside (s.startThread n a).1 := by
  unfold startThread
  dsimp only
  split
  · exact .refl s
  · split
    · exact .refl s
    · split
      · exact aside_setProcess fun _ h => h
      · next socketId _ =>
        have hp : s.Aside (s.setProcess n { s.processes n with
            localSocketId := socketId, listening := a.listen && (a.thread || a.threadId), named := true }) :=
          aside_setProcess fun _ h => h
        exact ⟨hp.links, hp.unlinked, hp.regions, hp.returned, hp.wanted⟩

namespace Keyed

theorem aside (h : s.Keyed) (hs : s.Aside t) : t.Keyed := by
  have hlasting {key : Int} (hk : t.Lasting key) : s.Lasting key := by
    unfold Lasting at hk ⊢
    rwa [hs.unlinked] at hk
  refine ⟨fun m key id hw hk => ?_, fun key id hr hk => ?_, fun r hr hk => ?_, fun key hk => ?_⟩
  · rw [hs.links]
    exact h.wanted m key id (hs.wanted m _ hw) (hlasting hk)
  · rw [hs.links]
    rw [hs.returned] at hr
    exact h.returned key id hr (hlasting hk)
  · rw [hs.links]
    rw [hs.regions] at hr
    exact h.made r hr (hlasting hk)
  · rw [regionsOf, hs.regions]
    exact h.single key (hlasting hk)

/-- A process asks for the segment that the link of its key names. -/
theorem ask (h : s.Keyed) {shmid : Int} {purpose : Purpose}
    (hlink : ∀ key size taken, purpose = .get key size taken → s.links key = some shmid) (a : Answers) :
    (s.ask n shmid purpose a).Keyed := by
  unfold State.ask
  split
  · exact h.aside (aside_refuse s n shmid purpose)
  · next owner _ =>
    refine ⟨fun m key id hw hk => ?_, h.returned, h.made, h.single⟩
    by_cases hm : m = n
    · subst hm
      cases purpose with
      | get key' size taken =>
        simp only [setCall, setProcess_self, Call.wanted, Option.some.injEq, Prod.mk.injEq] at hw
        obtain ⟨rfl, rfl⟩ := hw
        exact hlink _ size taken rfl
      | attach => simp [setCall, Call.wanted] at hw
    · rw [setCall_other _ hm] at hw
      exact h.wanted m key id hw hk

/-- A `shmget` returns the segment that the link of its key names. -/
theorem finish (h : s.Keyed) {key id : Int} (hp : p.call = .idle) (hlink : s.Lasting key → s.links key = some id) :
    Keyed { s.setProcess n p with returned := (key, id) :: s.returned } := by
  have hidle := h.aside (aside_idle (n := n) hp)
  refine ⟨hidle.wanted, fun key' id' hr hk => ?_, hidle.made, hidle.single⟩
  rcases List.mem_cons.1 hr with heq | hr
  · cases heq
    exact hlink hk
  · exact h.returned key' id' hr hk

theorem receive (h : s.Keyed) {shmid : Int} {reply : Reply} {purpose : Purpose}
    (hwanted : ∀ key size taken, purpose = .get key size taken → (s.processes n).call.wanted = some (key, shmid)) (a : Answers) :
    (s.receive n shmid reply purpose a).Keyed := by
  unfold State.receive
  dsimp only
  split
  · split
    · refine h.aside (Aside.trans ?_ (aside_refuse _ n shmid purpose))
      exact aside_setProcess fun _ h => h
    · split
      · exact h.finish rfl (h.wanted n _ _ (hwanted _ _ _ rfl))
      · refine h.aside (Aside.trans ?_ (aside_attach _ n _ _ _ a))
        exact aside_setProcess fun _ h => h
  · exact h.aside (aside_refuse s n shmid purpose)

/-- A segment is made for a key whose link names it, and for which no region was made. -/
theorem create (h : s.Keyed) {key id : Int} (hlink : s.Lasting key → s.links key = some id)
    (hfirst : s.Lasting key → s.regionsOf key = []) (size : Nat) (a : Answers) : (s.create n key size (some id) a).Keyed := by
  unfold State.create
  dsimp only
  split
  · exact h.aside (aside_idle rfl)
  · have hfinish (segment : Segment) := h.finish (n := n) (p := ((s.processes n).add segment).finish (.id id)) rfl hlink
    refine ⟨(hfinish _).wanted, (hfinish _).returned, fun r hr hk => ?_, fun key' hk => ?_⟩
    · rcases List.mem_append.1 hr with hr | hr
      · exact h.made r hr hk
      · rw [List.mem_singleton.1 hr] at hk ⊢
        exact hlink hk
    · show ((s.regions ++ [_]).filter fun r : Region => r.key = key').length ≤ 1
      rw [List.filter_append, List.length_append]
      by_cases heq : key' = key
      · subst heq
        have hnone : (s.regions.filter fun r => r.key = key') = [] := hfirst hk
        simp [hnone]
      · simpa [Ne.symm heq, State.regionsOf] using h.single key' hk

/-- The link of a key is made, where there was none. -/
theorem link (h : s.Keyed) {key : Int} (hnone : s.links key = none) (id : Int) :
    Keyed { s with links := Function.update s.links key (some id) } := by
  have hkeep {key' id' : Int} (hlink : s.links key' = some id') : Function.update s.links key (some id) key' = some id' := by
    have hne : key' ≠ key := by
      rintro rfl
      rw [hnone] at hlink
      cases hlink
    rw [Function.update_of_ne hne, hlink]
  exact ⟨fun m key' id' hw hk => hkeep (h.wanted m key' id' hw hk), fun key' id' hr hk => hkeep (h.returned key' id' hr hk),
    fun r hr hk => hkeep (h.made r hr hk), h.single⟩

/-- The link of a key is removed. -/
theorem unlink (h : s.Keyed) (key : Int) :
    Keyed { s with links := Function.update s.links key none, unlinked := key :: s.unlinked } := by
  have hkeep {key' id' : Int} (hk : key' ≠ 0 ∧ key' ∉ key :: s.unlinked) (hlink : s.Lasting key' → s.links key' = some id') :
      Function.update s.links key none key' = some id' := by
    have hmem := hk.2
    simp only [List.mem_cons, not_or] at hmem
    obtain ⟨hne, hmem⟩ := hmem
    rw [Function.update_of_ne hne]
    exact hlink ⟨hk.1, hmem⟩
  exact ⟨fun m key' id' hw hk => hkeep hk (h.wanted m key' id' hw), fun key' id' hr hk => hkeep hk (h.returned key' id' hr),
    fun r hr hk => hkeep hk (h.made r hr), fun key' hk => h.single key' ⟨hk.1, fun hmem => hk.2 (List.mem_cons_of_mem _ hmem)⟩⟩

/-- No region was made for a key that has no link. -/
theorem regionsOf_eq_nil (h : s.Keyed) {key : Int} (hnone : s.links key = none) (hk : s.Lasting key) : s.regionsOf key = [] := by
  refine List.filter_eq_nil_iff.2 fun r hr heq => ?_
  have hkey : r.key = key := of_decide_eq_true heq
  have hmade := h.made r hr (hkey ▸ hk)
  rw [hkey, hnone] at hmade
  cases hmade

theorem shmget (h : s.Keyed) (key : Int) (size : Nat) (a : Answers) (hcall : (s.processes n).call = .idle) :
    (s.shmget n key size a).Keyed := by
  have hthread := (h.aside (aside_idle (n := n) (p := (s.processes n).checkPid) (by simp [hcall]))).aside
    (aside_startThread _ n a)
  unfold State.shmget
  split
  · next heq =>
    rw [heq] at hthread
    exact hthread.aside (aside_idle rfl)
  · next u heq =>
    rw [heq] at hthread
    split
    · next hzero =>
      rw [create_none]
      have htake := hthread.aside (aside_setProcess (s := u) (n := n) (p := ((u.processes n).takeId none).1) fun _ h => h)
      exact htake.create (fun hk => absurd hzero hk.1) (fun hk => absurd hzero hk.1) size a
    · exact hthread.aside (aside_setProcess (by simp [Call.wanted]))

theorem proceed (h : s.Keyed) (hs : s.proceed n a = some t) : t.Keyed := by
  unfold State.proceed at hs
  split at hs
  · next key size taken hcall =>
    split at hs
    · cases hs
      exact h.aside (aside_setProcess (by simp [Call.wanted]))
    · next shmid hlink =>
      split at hs
      · cases hs
        exact h.aside (aside_setProcess (by simp [Call.wanted]))
      · split at hs
        · cases hs
          exact h.finish rfl fun _ => hlink
        · cases hs
          refine h.ask (fun key' _ _ heq => ?_) a
          cases heq
          exact hlink
  · next shmid owner reply purpose hcall =>
    cases hs
    refine h.receive (fun key size taken heq => ?_) a
    rw [hcall, heq]
    rfl
  · next key size taken hcall =>
    cases hs
    exact (h.aside (aside_setProcess (by simp [Call.wanted]))).unlink key
  · next key size taken hcall =>
    have htake := h.aside (aside_setProcess (s := s) (n := n) (p := ((s.processes n).takeId taken).1)
      fun _ hw => by cases taken <;> exact hw)
    dsimp only at hs
    split at hs
    · next hnone =>
      cases hs
      refine (htake.link hnone.2 _).create (fun _ => ?_) (fun hk => ?_) size a
      · exact Function.update_self ..
      · exact htake.regionsOf_eq_nil hnone.2 hk
    · cases hs
      exact htake.aside (aside_setProcess (by simp [Call.wanted]))
  · cases hs

theorem step (h : s.Keyed) {a : Action} (hs : step s a = some t) : t.Keyed := by
  cases a with
  | start n pid | fork k n pid =>
    obtain ⟨-, ht⟩ := Option.ite_none_right_eq_some.1 hs
    cases ht
    exact h.aside (aside_idle rfl)
  | exit n inherited =>
    obtain ⟨-, ht⟩ := Option.ite_none_right_eq_some.1 hs
    cases ht
    have hidle := h.aside (aside_idle (s := s) (n := n) (p := { pid := (s.processes n).pid }) rfl)
    exact hidle.aside ⟨rfl, rfl, rfl, rfl, fun _ _ h => h⟩
  | unbind socketId =>
    obtain ⟨-, ht⟩ := Option.ite_none_right_eq_some.1 hs
    cases ht
    exact h.aside ⟨rfl, rfl, rfl, rfl, fun _ _ h => h⟩
  | shmget n key size a =>
    obtain ⟨⟨hready, -⟩, ht⟩ := Option.ite_none_right_eq_some.1 hs
    cases ht
    exact h.shmget key size a hready.2
  | shmat n shmid shmflg a =>
    obtain ⟨⟨hready, -⟩, ht⟩ := Option.ite_none_right_eq_some.1 hs
    cases ht
    have hcheck := h.aside (aside_idle (n := n) (p := (s.processes n).checkPid) (by simp [hready.2]))
    unfold State.shmat
    dsimp only
    split
    · exact hcheck.aside (aside_attach _ n _ _ _ a)
    · split
      · exact hcheck.ask (fun _ _ _ heq => by cases heq) a
      · exact hcheck.aside (aside_idle rfl)
  | shmdt n shmaddr =>
    obtain ⟨-, ht⟩ := Option.ite_none_right_eq_some.1 hs
    cases ht
    refine h.aside (aside_idle ?_)
    unfold Process.shmdt
    dsimp only
    split <;> rfl
  | shmctl n shmid cmd =>
    obtain ⟨-, ht⟩ := Option.ite_none_right_eq_some.1 hs
    cases ht
    refine h.aside (aside_idle ?_)
    unfold Process.shmctl
    split
    · unfold Process.remove
      split <;> rfl
    · unfold Process.stat
      split <;> rfl
    · rfl
  | proceed n a =>
    obtain ⟨-, ht⟩ := Option.ite_none_right_eq_some.1 hs
    exact h.proceed ht
  | serve n asker sent =>
    have hs' : s.serve n asker sent = some t := hs
    unfold State.serve at hs'
    split at hs'
    · next shmid owner purpose hcall =>
      obtain ⟨-, ht⟩ := Option.ite_none_right_eq_some.1 hs'
      cases ht
      refine h.aside (aside_setProcess ?_)
      cases purpose <;> simp [hcall, Call.wanted]
    · cases hs'
  | hangup n =>
    have hs' : s.hangup n = some t := hs
    unfold State.hangup at hs'
    split at hs'
    · next shmid owner purpose hcall =>
      obtain ⟨-, ht⟩ := Option.ite_none_left_eq_some.1 hs'
      cases ht
      refine h.aside (aside_setProcess ?_)
      cases purpose <;> simp [hcall, Call.wanted]
    · cases hs'
  | interrupt n =>
    have hs' : s.interrupt n = some t := hs
    unfold State.interrupt at hs'
    split at hs'
    · next shmid owner purpose hcall =>
      cases hs'
      refine h.aside (aside_setProcess ?_)
      cases purpose <;> simp [hcall, Call.wanted]
    · cases hs'
  | endThread socketId =>
    have hs' : s.endThread socketId = some t := hs
    unfold State.endThread at hs'
    split at hs' <;> cases hs'
    exact h.aside ⟨rfl, rfl, rfl, rfl, fun _ _ h => h⟩

end Keyed

end State

theorem keyed_of_reach {C : State → Action → Prop} {pageSize : Nat} (h : Reach step C (State.start pageSize) s) : s.Keyed :=
  h.invariant (I := State.Keyed)
    ⟨by simp [State.start, Call.wanted], by simp [State.start], by simp [State.start], by simp [State.start, State.regionsOf]⟩
    fun _ _ _ ht _ hs => ht.step hs

/-- **One segment for a key**: as long as nobody removed the link of a key, all that `shmget` returned for the key, to any
processes in any order, is one identifier; at most one region was made for it, with this identifier. -/
theorem one_segment_per_key {pageSize : Nat} (h : Reach step Free (State.start pageSize) s) {key : Int} (hkey : key ≠ 0)
    (hlink : key ∉ s.unlinked) {id : Int} (hid : (key, id) ∈ s.returned) :
    s.links key = some id ∧ (∀ id', (key, id') ∈ s.returned → id' = id) ∧ (∀ r ∈ s.regions, r.key = key → r.id = id) ∧
      (s.regionsOf key).length ≤ 1 := by
  have hkeyed := keyed_of_reach h
  have hnames := hkeyed.returned key id hid ⟨hkey, hlink⟩
  refine ⟨hnames, fun id' hid' => ?_, fun r hr hk => ?_, hkeyed.single key ⟨hkey, hlink⟩⟩
  · have hnames' := hkeyed.returned key id' hid' ⟨hkey, hlink⟩
    exact Option.some.inj (hnames'.symm.trans hnames)
  · have hmade := hkeyed.made r hr (hk ▸ ⟨hkey, hlink⟩)
    rw [hk, hnames] at hmade
    exact (Option.some.inj hmade).symm

/-- Two processes find no link, and one of them makes it. -/
def race : List Action :=
  [.start 0 500, .start 1 501, .shmget 0 7 10 {}, .shmget 1 7 10 {}, .proceed 0 {}, .proceed 1 {},
    .proceed 1 { descriptor := some 3 }, .proceed 0 {}, .proceed 0 {}, .serve 1 0 true, .proceed 0 { descriptor := some 4 }]

theorem one_segment_per_key_race : ∃ s, Reach step Free (State.start 4096) s ∧ (7, 32833537) ∈ s.returned ∧
    ∀ id', (7, id') ∈ s.returned → id' = 32833537 := by
  have hany : (exec step (State.start 4096) race).any
      (fun s => s.returned = [(7, 32833537), (7, 32833537)] && s.unlinked = []) = true := by decide +kernel
  obtain ⟨s, hs, hfacts⟩ := (Option.any_eq_true _ _).1 hany
  simp only [Bool.and_eq_true, decide_eq_true_eq] at hfacts
  have hreach : Reach step Free (State.start 4096) s := Reach.of_exec race hs
  have hid : (7, 32833537) ∈ s.returned := by
    rw [hfacts.1]
    exact List.mem_cons_self
  exact ⟨s, hreach, hid, (one_segment_per_key hreach (by decide) (by rw [hfacts.2]; exact List.not_mem_nil) hid).2.1⟩

end Lorie.SharedMemory
