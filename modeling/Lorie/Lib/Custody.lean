import Lorie.Lib.Transition
import Mathlib.Data.Set.Insert
import Mathlib.Logic.Function.Basic

/-!
# Services that own selections

A service makes a window, and owns its selection with it until another owner is named. Then it gives way: it frees its window.
A window that goes owns nothing any more, and the service whose selection it owned hears of it. When a client goes, the
selections that it set lose their owner, and the services do not hear of it.

- `Custody.step`: what can happen to windows, selections and services; `Custody.Housed`: owners exist;
- `Custody.Kept`: what holds in every run: a window of a service is freed at most once, is gone then, and as long as it exists
  its service keeps it (`kept_of_reach`);
- `Custody.Owned`: as long as no client names the window of a service as its own, a window that is kept exists and owns its
  selection (`owned_of_reach`).
-/

namespace Lorie.Lib

/-- Windows, selections and services; every service has one selection. -/
@[ext]
structure Custody (ι ω : Type*) where
  /-- The windows that exist -/
  live : Set ω
  owner : ι → Option ω
  /-- The owner was set by the service. -/
  own : ι → Bool
  /-- The windows of the services -/
  kept : ι → Option ω
  /-- History: the windows that the services made, each with its service -/
  made : Set (ι × ω)
  /-- History: the windows that the services freed -/
  freed : List ω

namespace Custody

variable {ι ω : Type*} [DecidableEq ι] [DecidableEq ω]

section Operations

variable (c : Custody ι ω)

/-- A service made the window. -/
def Made (w : ω) : Prop := ∃ i, (i, w) ∈ c.made

/-- A window goes. -/
def gone (w : ω) : Custody ι ω :=
  { c with
    live := c.live \ {w}
    owner := fun i => if c.owner i = some w then none else c.owner i
    own := fun i => if c.owner i = some w then false else c.own i
    kept := fun i => if c.owner i = some w then none else c.kept i }

/-- A window loses a selection, and the service of the selection hears of it. -/
def lose (c : Custody ι ω) (w : ω) (i : ι) : Custody ι ω :=
  if c.owner i = some w then
    { c with
      owner := Function.update c.owner i none
      own := Function.update c.own i false
      kept := Function.update c.kept i none }
  else c

/-- A service makes a window and takes its selection. -/
def take (i : ι) (w : ω) : Custody ι ω :=
  { c with
    live := insert w c.live
    owner := Function.update c.owner i (some w)
    own := Function.update c.own i true
    kept := Function.update c.kept i (some w)
    made := insert (i, w) c.made }

/-- Another owner is named, before the service hears of it. -/
def setOwner (i : ι) (o : Option ω) : Custody ι ω :=
  { c with owner := Function.update c.owner i o, own := Function.update c.own i false }

/-- The service frees its window. -/
def free (i : ι) (w : ω) : Custody ι ω :=
  { c with kept := Function.update c.kept i none, freed := w :: c.freed }.gone w

/-- A client names an owner, and the service gives way. -/
def name (i : ι) (o : Option ω) : Custody ι ω :=
  match c.kept i with
  | some w => if o = some w then c.setOwner i o else (c.setOwner i o).free i w
  | none => c.setOwner i o

/-- The client goes that set the owner. -/
def leave (i : ι) : Custody ι ω := { c with owner := Function.update c.owner i none }

end Operations

/-- **A window loses its selections one after the other.** -/
theorem foldl_lose (c : Custody ι ω) (w : ω) (l : List ι) :
    l.foldl (fun c i => c.lose w i) c =
      { c with
        owner := fun i => if i ∈ l ∧ c.owner i = some w then none else c.owner i
        own := fun i => if i ∈ l ∧ c.owner i = some w then false else c.own i
        kept := fun i => if i ∈ l ∧ c.owner i = some w then none else c.kept i } := by
  induction l generalizing c with
  | nil => simp only [List.foldl_nil, List.not_mem_nil, false_and, if_false]
  | cons i l ih =>
    rw [List.foldl_cons, ih]
    unfold lose
    by_cases hi : c.owner i = some w
    · simp only [if_pos hi, Custody.mk.injEq, true_and, and_true]
      refine ⟨?_, ?_, ?_⟩ <;> funext j <;> by_cases hj : j = i
      all_goals simp [hj, hi, Function.update_of_ne]
    · simp only [if_neg hi, Custody.mk.injEq, true_and, and_true]
      refine ⟨?_, ?_, ?_⟩ <;> funext j <;> by_cases hj : j = i
      all_goals simp [hj, hi]

theorem foldl_lose_all (c : Custody ι ω) (w : ω) {l : List ι} (hl : ∀ i, i ∈ l) :
    l.foldl (fun c i => c.lose w i) { c with live := c.live \ {w} } = c.gone w := by
  rw [foldl_lose]
  simp only [hl, true_and]
  rfl

inductive Action (ι ω : Type*) where
  /-- A client makes a window. -/
  | arrive (w : ω)
  | gone (w : ω)
  | take (i : ι) (w : ω)
  | name (i : ι) (o : Option ω)
  | leave (i : ι)

open Classical in
/-- Owners exist, and the numbers of windows of the services are not used again. -/
noncomputable def step (c : Custody ι ω) : Action ι ω → Option (Custody ι ω)
  | .arrive w => if ¬c.Made w then some { c with live := insert w c.live } else none
  | .gone w => some (c.gone w)
  | .take i w => if w ∉ c.live ∧ ¬c.Made w ∧ c.kept i = none then some (c.take i w) else none
  | .name i o => if ∀ w, o = some w → w ∈ c.live then some (c.name i o) else none
  | .leave i => if c.own i = false then some (c.leave i) else none

section Steps

variable {c : Custody ι ω} {i : ι} {w : ω} {o : Option ω}

theorem step_arrive (h : ¬c.Made w) : c.step (.arrive w) = some { c with live := insert w c.live } := if_pos h

theorem step_take (hlive : w ∉ c.live) (hmade : ¬c.Made w) (hkept : c.kept i = none) :
    c.step (.take i w) = some (c.take i w) := if_pos ⟨hlive, hmade, hkept⟩

theorem step_name (h : ∀ w, o = some w → w ∈ c.live) : c.step (.name i o) = some (c.name i o) := if_pos h

theorem step_leave (h : c.own i = false) : c.step (.leave i) = some (c.leave i) := if_pos h

end Steps

/-- Only its start gives a service a window. -/
theorem kept_step {c d : Custody ι ω} {a : Action ι ω} (ha : ∀ i w, a ≠ .take i w) (hs : c.step a = some d) (i : ι) :
    d.kept i = none ∨ d.kept i = c.kept i := by
  have hgone (c : Custody ι ω) (w : ω) : (c.gone w).kept i = none ∨ (c.gone w).kept i = c.kept i := by
    simp only [gone]
    split
    · exact .inl rfl
    · exact .inr rfl
  unfold step at hs
  cases a with
  | arrive w =>
    obtain ⟨-, hd⟩ := Option.ite_none_right_eq_some.1 hs
    cases hd
    exact .inr rfl
  | gone w =>
    cases hs
    exact hgone c w
  | take j w => exact absurd rfl (ha j w)
  | name j o =>
    obtain ⟨-, hd⟩ := Option.ite_none_right_eq_some.1 hs
    cases hd
    unfold name
    split
    · next w _ =>
      split
      · exact .inr rfl
      · by_cases hi : i = j
        · subst hi
          rcases hgone { c.setOwner i o with kept := Function.update c.kept i none, freed := w :: c.freed } w with h | h
          · exact .inl h
          · exact .inl (h.trans (Function.update_self ..))
        · rcases hgone { c.setOwner j o with kept := Function.update c.kept j none, freed := w :: c.freed } w with h | h
          · exact .inl h
          · exact .inr (h.trans (Function.update_of_ne hi _ c.kept))
    · exact .inr rfl
  | leave j =>
    obtain ⟨-, hd⟩ := Option.ite_none_right_eq_some.1 hs
    cases hd
    exact .inr rfl

/-! ## Owners exist -/

/-- The owners of selections exist. -/
def Housed (c : Custody ι ω) : Prop := ∀ i w, c.owner i = some w → w ∈ c.live

namespace Housed

variable {c d : Custody ι ω}

omit [DecidableEq ι] in
theorem gone (h : Housed c) (w : ω) : Housed (c.gone w) := by
  intro i v hv
  simp only [Custody.gone] at hv
  split at hv
  · cases hv
  · next hne => exact ⟨h i v hv, fun hvw => hne (by rw [hv, hvw])⟩

omit [DecidableEq ω] in
theorem setOwner (h : Housed c) {i : ι} {o : Option ω} (ho : ∀ w, o = some w → w ∈ c.live) : Housed (c.setOwner i o) := by
  intro j v hv
  by_cases hj : j = i
  · subst hj
    simp only [Custody.setOwner, Function.update_self] at hv
    exact ho v hv
  · simp only [Custody.setOwner, Function.update_of_ne hj] at hv
    exact h j v hv

theorem step (h : Housed c) {a : Action ι ω} (hs : c.step a = some d) : Housed d := by
  unfold Custody.step at hs
  cases a with
  | arrive w =>
    obtain ⟨-, hd⟩ := Option.ite_none_right_eq_some.1 hs
    cases hd
    exact fun i v hv => .inr (h i v hv)
  | gone w =>
    cases hs
    exact h.gone w
  | take i w =>
    obtain ⟨-, hd⟩ := Option.ite_none_right_eq_some.1 hs
    cases hd
    intro j v hv
    by_cases hj : j = i
    · subst hj
      simp only [take, Function.update_self, Option.some.injEq] at hv
      exact .inl hv.symm
    · simp only [take, Function.update_of_ne hj] at hv
      exact .inr (h j v hv)
  | name i o =>
    obtain ⟨ho, hd⟩ := Option.ite_none_right_eq_some.1 hs
    cases hd
    have hset := h.setOwner (i := i) ho
    unfold name
    split
    · split
      · exact hset
      · exact gone hset _
    · exact hset
  | leave i =>
    obtain ⟨-, hd⟩ := Option.ite_none_right_eq_some.1 hs
    cases hd
    exact h.setOwner (i := i) (o := none) nofun

end Housed

omit [DecidableEq ι] in
/-- A window that does not exist can go without a change. -/
theorem gone_of_not_mem {c : Custody ι ω} (h : Housed c) {w : ω} (hw : w ∉ c.live) : c.gone w = c := by
  have hne (i : ι) : c.owner i ≠ some w := fun hi => hw (h i w hi)
  have hlive : c.live \ {w} = c.live := by
    ext v
    exact ⟨fun hv => hv.1, fun hv => ⟨hv, fun hvw => hw (hvw ▸ hv)⟩⟩
  unfold gone
  simp only [hne, if_false, hlive]

/-! ## Every run -/

/-- The windows of the services are freed at most once, and each is kept by its service as long as it exists. -/
structure Kept (c : Custody ι ω) : Prop where
  kept_made : ∀ i w, c.kept i = some w → (i, w) ∈ c.made
  injective : ∀ i j w, c.kept i = some w → c.kept j = some w → i = j
  owner_of_kept : ∀ i w, c.kept i = some w → c.owner i = some w ∨ c.owner i = none
  live_kept : ∀ i w, (i, w) ∈ c.made → w ∈ c.live → c.kept i = some w
  freed_nodup : c.freed.Nodup
  freed_made : ∀ w ∈ c.freed, c.Made w
  freed_gone : ∀ w ∈ c.freed, w ∉ c.live ∧ ∀ i, c.kept i ≠ some w

omit [DecidableEq ι] in
theorem kept_gone {c : Custody ι ω} {w v : ω} {i : ι} (h : (c.gone w).kept i = some v) :
    c.owner i ≠ some w ∧ c.kept i = some v := by
  simp only [gone] at h
  split at h
  · cases h
  · next hne => exact ⟨hne, h⟩

namespace Kept

variable {c d : Custody ι ω}

omit [DecidableEq ι] in
theorem gone (h : Kept c) (w : ω) : Kept (c.gone w) := by
  refine ⟨fun i v hv => h.kept_made i v (kept_gone hv).2,
    fun i j v hi hj => h.injective i j v (kept_gone hi).2 (kept_gone hj).2, fun i v hv => ?_, fun i v hmade hlive => ?_,
    h.freed_nodup, h.freed_made, fun v hv => ?_⟩
  · obtain ⟨hne, hv⟩ := kept_gone hv
    simp only [Custody.gone, if_neg hne]
    exact h.owner_of_kept i v hv
  · have hi := h.live_kept i v hmade hlive.1
    -- the selection of its service is not owned by the window that goes
    have hne : c.owner i ≠ some w := by
      intro howner
      rcases h.owner_of_kept i v hi with hown | hnone
      · rw [howner] at hown
        exact hlive.2 (Option.some.inj hown).symm
      · rw [howner] at hnone
        cases hnone
    simp only [Custody.gone, if_neg hne]
    exact hi
  · exact ⟨fun hlive => (h.freed_gone v hv).1 hlive.1, fun i hi => (h.freed_gone v hv).2 i (kept_gone hi).2⟩

omit [DecidableEq ω] in
theorem take (h : Kept c) {i : ι} {w : ω} (hnew : ¬c.Made w) (hnone : c.kept i = none) : Kept (c.take i w) := by
  have hkept {j : ι} {v : ω} (hv : (c.take i w).kept j = some v) : (j = i ∧ v = w) ∨ (j ≠ i ∧ c.kept j = some v) := by
    by_cases hj : j = i
    · subst hj
      simp only [Custody.take, Function.update_self, Option.some.injEq] at hv
      exact .inl ⟨rfl, hv.symm⟩
    · simp only [Custody.take, Function.update_of_ne hj] at hv
      exact .inr ⟨hj, hv⟩
  refine ⟨fun j v hv => ?_, fun j k v hj hk => ?_, fun j v hv => ?_, fun j v hmade hlive => ?_, h.freed_nodup,
    fun v hv => (h.freed_made v hv).imp fun _ => .inr, fun v hv => ⟨fun hlive => ?_, fun j hj => ?_⟩⟩
  · rcases hkept hv with ⟨rfl, rfl⟩ | ⟨-, hv⟩
    · exact .inl rfl
    · exact .inr (h.kept_made j v hv)
  · rcases hkept hj with ⟨hji, hvw⟩ | ⟨-, hold⟩
    · rcases hkept hk with ⟨hki, -⟩ | ⟨-, hk⟩
      · exact hji.trans hki.symm
      · exact absurd ⟨k, h.kept_made k v hk⟩ (hvw ▸ hnew)
    · rcases hkept hk with ⟨-, hvw⟩ | ⟨-, hk⟩
      · exact absurd ⟨j, h.kept_made j v hold⟩ (hvw ▸ hnew)
      · exact h.injective j k v hold hk
  · rcases hkept hv with ⟨rfl, rfl⟩ | ⟨hj, hv⟩
    · exact .inl (Function.update_self ..)
    · simp only [Custody.take, Function.update_of_ne hj]
      exact h.owner_of_kept j v hv
  · rcases hmade with heq | hmade
    · cases heq
      exact Function.update_self ..
    · have hvw : v ≠ w := fun hvw => hnew (hvw ▸ ⟨j, hmade⟩)
      have hj := h.live_kept j v hmade (hlive.resolve_left hvw)
      have hji : j ≠ i := by
        rintro rfl
        rw [hnone] at hj
        cases hj
      simp only [Custody.take, Function.update_of_ne hji]
      exact hj
  · rcases hlive with rfl | hlive
    · exact hnew (h.freed_made v hv)
    · exact (h.freed_gone v hv).1 hlive
  · rcases hkept hj with ⟨-, rfl⟩ | ⟨-, hj⟩
    · exact hnew (h.freed_made v hv)
    · exact (h.freed_gone v hv).2 j hj

omit [DecidableEq ω] in
/-- A selection without a service, or a new owner that does not drive its service out -/
theorem setOwner (h : Kept c) {i : ι} {o : Option ω} (ho : ∀ w, c.kept i = some w → o = some w ∨ o = none) :
    Kept (c.setOwner i o) := by
  refine ⟨h.kept_made, h.injective, fun j v hv => ?_, h.live_kept, h.freed_nodup, h.freed_made, h.freed_gone⟩
  by_cases hj : j = i
  · subst hj
    simp only [Custody.setOwner, Function.update_self]
    exact ho v hv
  · simp only [Custody.setOwner, Function.update_of_ne hj]
    exact h.owner_of_kept j v hv

/-- A service gives way to another owner. -/
theorem free (h : Kept c) {i : ι} {w : ω} {o : Option ω} (hkept : c.kept i = some w) :
    Kept ((c.setOwner i o).free i w) := by
  have hother {j : ι} {v : ω} (hv : ((c.setOwner i o).free i w).kept j = some v) :
      j ≠ i ∧ c.owner j ≠ some w ∧ c.kept j = some v := by
    obtain ⟨hne, hv⟩ := kept_gone hv
    have hj : j ≠ i := by
      rintro rfl
      simp only [Function.update_self] at hv
      cases hv
    simp only [Custody.setOwner, Function.update_of_ne hj] at hne hv
    exact ⟨hj, hne, hv⟩
  have hne {j : ι} {v : ω} (hj : j ≠ i) (hv : c.kept j = some v) : v ≠ w := by
    rintro rfl
    exact hj (h.injective j i v hv hkept)
  refine ⟨fun j v hv => h.kept_made j v (hother hv).2.2,
    fun j k v hj hk => h.injective j k v (hother hj).2.2 (hother hk).2.2, fun j v hv => ?_, fun j v hmade hlive => ?_,
    List.nodup_cons.2 ⟨fun hw => (h.freed_gone w hw).2 i hkept, h.freed_nodup⟩, fun v hv => ?_, fun v hv => ?_⟩
  · obtain ⟨hj, howner, hv⟩ := hother hv
    simp only [Custody.free, Custody.gone, Custody.setOwner, Function.update_of_ne hj, if_neg howner]
    exact h.owner_of_kept j v hv
  · have hj := h.live_kept j v hmade hlive.1
    have hji : j ≠ i := by
      rintro rfl
      rw [hkept] at hj
      exact hlive.2 (Option.some.inj hj).symm
    have howner : c.owner j ≠ some w := by
      intro hw
      rcases h.owner_of_kept j v hj with hv | hv
      · rw [hw] at hv
        exact hlive.2 (Option.some.inj hv).symm
      · rw [hw] at hv
        cases hv
    simp only [Custody.free, Custody.gone, Custody.setOwner, Function.update_of_ne hji, if_neg howner]
    exact hj
  · rcases List.mem_cons.1 hv with rfl | hv
    · exact ⟨i, h.kept_made i v hkept⟩
    · exact h.freed_made v hv
  · rcases List.mem_cons.1 hv with rfl | hv
    · exact ⟨fun hlive => hlive.2 rfl, fun j hj => hne (hother hj).1 (hother hj).2.2 rfl⟩
    · exact ⟨fun hlive => (h.freed_gone v hv).1 hlive.1, fun j hj => (h.freed_gone v hv).2 j (hother hj).2.2⟩

theorem name (h : Kept c) (i : ι) (o : Option ω) : Kept (c.name i o) := by
  unfold Custody.name
  split
  · next w hkept =>
    split
    · next ho => exact h.setOwner fun v hv => .inl (by rw [ho, ← hkept, hv])
    · exact h.free hkept
  · next hnone =>
    refine h.setOwner fun w hw => ?_
    rw [hnone] at hw
    cases hw

omit [DecidableEq ω] in
theorem leave (h : Kept c) (i : ι) : Kept (c.leave i) := by
  have := h.setOwner (i := i) (o := none) fun w _ => .inr rfl
  exact ⟨this.kept_made, this.injective, this.owner_of_kept, this.live_kept, this.freed_nodup, this.freed_made, this.freed_gone⟩

theorem step (h : Kept c) {a : Action ι ω} (hs : c.step a = some d) : Kept d := by
  unfold Custody.step at hs
  cases a with
  | arrive w =>
    obtain ⟨hnew, hd⟩ := Option.ite_none_right_eq_some.1 hs
    cases hd
    refine ⟨h.kept_made, h.injective, h.owner_of_kept, fun i v hmade hlive => ?_, h.freed_nodup, h.freed_made, fun v hv => ?_⟩
    · exact h.live_kept i v hmade (hlive.resolve_left fun hvw => hnew (hvw ▸ ⟨i, hmade⟩))
    · refine ⟨fun hlive => (h.freed_gone v hv).1 (hlive.resolve_left fun hvw => hnew (hvw ▸ h.freed_made v hv)), ?_⟩
      exact (h.freed_gone v hv).2
  | gone w =>
    cases hs
    exact h.gone w
  | take i w =>
    obtain ⟨⟨-, hnew, hnone⟩, hd⟩ := Option.ite_none_right_eq_some.1 hs
    cases hd
    exact h.take hnew hnone
  | name i o =>
    obtain ⟨-, hd⟩ := Option.ite_none_right_eq_some.1 hs
    cases hd
    exact h.name i o
  | leave i =>
    obtain ⟨-, hd⟩ := Option.ite_none_right_eq_some.1 hs
    cases hd
    exact h.leave i

end Kept

/-! ## Runs in which the windows of services are their own -/

/-- A window that is kept exists, and its service owns its selection with it. -/
def Owned (c : Custody ι ω) : Prop :=
  ∀ i w, c.kept i = some w → c.owner i = some w ∧ c.own i = true ∧ w ∈ c.live

/-- No client names the window of the service as its own. -/
def Foreign (c : Custody ι ω) : Action ι ω → Prop
  | .name i o => ∀ w, o = some w → c.kept i ≠ some w
  | _ => True

namespace Owned

variable {c d : Custody ι ω}

omit [DecidableEq ι] in
theorem gone (h : Owned c) (w : ω) : Owned (c.gone w) := by
  intro i v hv
  obtain ⟨hne, hv⟩ := kept_gone hv
  obtain ⟨howner, hown, hlive⟩ := h i v hv
  simp only [Custody.gone, if_neg hne]
  exact ⟨howner, hown, hlive, fun hvw => hne (by rw [howner, hvw])⟩

omit [DecidableEq ω] in
theorem take (h : Owned c) (i : ι) (w : ω) : Owned (c.take i w) := by
  intro j v hv
  by_cases hj : j = i
  · subst hj
    simp only [Custody.take, Function.update_self, Option.some.injEq] at hv ⊢
    exact ⟨hv, trivial, .inl hv.symm⟩
  · simp only [Custody.take, Function.update_of_ne hj] at hv ⊢
    obtain ⟨howner, hown, hlive⟩ := h j v hv
    exact ⟨howner, hown, .inr hlive⟩

/-- The service of the selection gives way, if there is one; no other service is touched. -/
theorem name (h : Owned c) {i : ι} {o : Option ω} (ho : ∀ w, o = some w → c.kept i ≠ some w) : Owned (c.name i o) := by
  have hset {d : Custody ι ω} (hnone : d.kept i = none) (hkept : ∀ j, j ≠ i → d.kept j = c.kept j)
      (howner : d.owner = (c.setOwner i o).owner) (hown : d.own = (c.setOwner i o).own) (hlive : d.live = c.live) :
      Owned d := by
    intro j v hv
    have hj : j ≠ i := by
      rintro rfl
      rw [hnone] at hv
      cases hv
    rw [hkept j hj] at hv
    rw [howner, hown, hlive]
    simp only [Custody.setOwner, Function.update_of_ne hj]
    exact h j v hv
  unfold Custody.name
  split
  · next w hkept =>
    rw [if_neg fun hw => ho w hw hkept]
    refine Owned.gone (@hset { c.setOwner i o with kept := Function.update c.kept i none, freed := w :: c.freed }
      (Function.update_self ..) (fun j hj => ?_) rfl rfl rfl) w
    exact Function.update_of_ne hj _ c.kept
  · next hnone => exact hset hnone (fun _ _ => rfl) rfl rfl rfl

omit [DecidableEq ω] in
/-- A selection that a client set has no service. -/
theorem leave (h : Owned c) {i : ι} (hi : c.own i = false) : Owned (c.leave i) := by
  intro j v hv
  obtain ⟨howner, hown, hlive⟩ := h j v hv
  have hj : j ≠ i := by
    rintro rfl
    rw [hi] at hown
    cases hown
  simp only [Custody.leave, Function.update_of_ne hj]
  exact ⟨howner, hown, hlive⟩

theorem step (h : Owned c) {a : Action ι ω} (ha : Foreign c a) (hs : c.step a = some d) : Owned d := by
  unfold Custody.step at hs
  cases a with
  | arrive w =>
    obtain ⟨-, hd⟩ := Option.ite_none_right_eq_some.1 hs
    cases hd
    intro i v hv
    obtain ⟨howner, hown, hlive⟩ := h i v hv
    exact ⟨howner, hown, .inr hlive⟩
  | gone w =>
    cases hs
    exact h.gone w
  | take i w =>
    obtain ⟨-, hd⟩ := Option.ite_none_right_eq_some.1 hs
    cases hd
    exact h.take i w
  | name i o =>
    obtain ⟨-, hd⟩ := Option.ite_none_right_eq_some.1 hs
    cases hd
    exact h.name ha
  | leave i =>
    obtain ⟨hi, hd⟩ := Option.ite_none_right_eq_some.1 hs
    cases hd
    exact h.leave hi

end Owned

/-- No services yet -/
def start (live : Set ω) (owner : ι → Option ω) : Custody ι ω where
  live := live
  owner := owner
  own _ := false
  kept _ := none
  made := ∅
  freed := []

variable {live : Set ω} {owner : ι → Option ω} {c : Custody ι ω}

/-- **Every run**: windows of services are freed at most once, and as long as they exist their services keep them. -/
theorem kept_of_reach {C : Custody ι ω → Action ι ω → Prop} (h : Reach step C (start live owner) c) : Kept c := by
  refine h.invariant ?_ fun _ _ _ hk _ hs => hk.step hs
  have hnone {i : ι} {w : ω} : (start live owner).kept i ≠ some w := fun hw => by cases hw
  have hmade {i : ι} {w : ω} : (i, w) ∉ (start live owner).made := Set.notMem_empty _
  have hfreed {w : ω} : w ∉ (start live owner).freed := List.not_mem_nil
  exact ⟨fun _ _ hw => absurd hw hnone, fun _ _ _ hw => absurd hw hnone, fun _ _ hw => absurd hw hnone,
    fun _ _ hw => absurd hw hmade, List.nodup_nil, fun _ hw => absurd hw hfreed, fun _ hw => absurd hw hfreed⟩

/-- **Runs in which the windows of services are their own**: a window that is kept owns its selection. -/
theorem owned_of_reach (h : Reach step Foreign (start live owner) c) : Owned c :=
  h.invariant (fun _ _ hw => by cases hw) fun _ _ _ ho ha hs => ho.step ha hs

end Custody

end Lorie.Lib
