import Lorie.Outputs.Registry
import Mathlib.Data.List.TakeWhile
import Mathlib.Logic.Relation

/-!
# What an operation does to the registry

Apart from keys, buttons and what is to be published, an operation does a few things to the selections: it unlinks one
and releases it, makes a new one, lets one or those of a window die, or takes a new size. `Change` lists them, together
with the history of the sizes, and every step is a sequence of them (`step_changes`). Facts about the registry are proved
for each `Change`.
-/

namespace Lorie.Outputs.Registry

open Lorie.Lib Leases

/-! ## Changes -/

/-- A selection without its keys and buttons and without what is to be published. -/
def core (x : OutputSelection) : OutputSelection :=
  { x with changed := false, resizePending := false, geometryPending := false, viewport := ⟨0, 0, 0, 0⟩, presentation := 0,
           keys := 0, buttons := 0 }

/-- Which output the selection is, and what it borrows. -/
def ident (x : OutputSelection) : Nat × Nat × Bool × Nat := (x.id, x.window, x.shell, x.parent)

def extent (x : OutputSelection) : Int × Int := (x.width, x.height)

/-- Only keys, buttons and what is to be published change. -/
structure Quiet (s t : Leases.State) : Prop where
  selections : t.selections = s.selections
  core : ∀ p, core (t.heap p) = core (s.heap p)

/-- The parent that `LORIE_OUTPUT_BIND` accepts for a dependent output. -/
structure Lends (s : Leases.State) (c : Command) (p : Nat) : Prop where
  mem : p ∈ s.selections
  id : (s.heap p).id = uint32 c.x
  alive : (s.heap p).dead = false
  own : (s.heap p).borrowed = false
  single : s.separated p = false
  selects : (s.heap p).window ≠ 0
  window : (s.heap p).window = c.window

/-- One thing that happens to the selections, with the history of their sizes; `calloc` is the memory of a new one. -/
inductive Change (calloc : Option Nat) : Leases.State × Sizes → Leases.State × Sizes → Prop
  | quiet {s t : Leases.State} {z : Sizes} : Quiet s t → Change calloc (s, z) (t, z)
  /-- A selection is unlinked and released. -/
  | drop {s : Leases.State} {z : Sizes} {before after : List Nat} {o : Nat} : s.selections = before ++ o :: after →
    Change calloc (s, z) (Leases.State.releaseSelection { s with selections := before ++ after } o, z.forget o)
  /-- A new selection. -/
  | create {s : Leases.State} {z : Sizes} {before after : List Nat} {o : Nat} {c : Command} :
    calloc = some o → s.selections = before ++ after → o ∉ s.selections → c.output ≠ 0 →
    (∀ p ∈ s.selections, (s.heap p).id ≠ c.output) → (c.detail = 2 → ∃ p, Lends s c p) →
    Change calloc (s, z)
      ({ s with heap := Function.update s.heap o (Leases.State.newSelection c), selections := before ++ o :: after }, z)
  /-- A shell selection dies. -/
  | revoke {s t : Leases.State} {z : Sizes} {o : Nat} : o ∈ s.selections → (s.heap o).shell = true →
    t.selections = s.selections → (∀ p, ident (t.heap p) = ident (s.heap p)) →
    (∀ p, extent (t.heap p) = extent (s.heap p)) → (∀ p, (t.heap p).ownsSize = (s.heap p).ownsSize) →
    (∀ p, (t.heap p).dead = ((s.heap p).dead || p = o)) → Change calloc (s, z) (t, z)
  /-- The selections of a window die. -/
  | destroyed {s t : Leases.State} {z : Sizes} {w : Nat} :
    t.selections = s.selections → (∀ p, ident (t.heap p) = ident (s.heap p)) →
    (∀ p, extent (t.heap p) = extent (s.heap p)) → (∀ p, (t.heap p).ownsSize = (s.heap p).ownsSize) →
    (∀ p ∈ s.selections, (t.heap p).dead = ((s.heap p).dead || (s.heap p).window = w)) → Change calloc (s, z) (t, z)
  /-- A selection takes a size. -/
  | resized {s t : Leases.State} {z : Sizes} {o : Nat} {x y : Int} : o ∈ s.selections → (s.heap o).dead = false →
    (s.heap o).borrowed = false → (1 ≤ x ∧ x ≤ windowSizeLimit) → (1 ≤ y ∧ y ≤ windowSizeLimit) →
    t.selections = s.selections → (∀ p, ident (t.heap p) = ident (s.heap p)) →
    (∀ p, (t.heap p).dead = (s.heap p).dead) → (∀ p, extent (t.heap p) = if p = o then (x, y) else extent (s.heap p)) →
    (∀ p ∈ s.selections, (t.heap p).ownsSize =
      if (s.heap o).window ≠ 0 ∧ (s.heap p).window = (s.heap o).window then decide (p = o) else (s.heap p).ownsSize) →
    Change calloc (s, z) (t, z.resize o (s.heap o).window)

/-- A sequence of changes -/
abbrev Changes (calloc : Option Nat) : Leases.State × Sizes → Leases.State × Sizes → Prop :=
  Relation.ReflTransGen (Change calloc)

/-! ## Quiet operations -/

namespace Quiet

variable {s t u : Leases.State}

theorem refl (s : Leases.State) : Quiet s s := ⟨rfl, fun _ => rfl⟩

theorem trans (h : Quiet s t) (h' : Quiet t u) : Quiet s u :=
  ⟨h'.selections.trans h.selections, fun p => (h'.core p).trans (h.core p)⟩

theorem modify (s : Leases.State) (o : Nat) {f : OutputSelection → OutputSelection}
    (hf : ∀ x, Registry.core (f x) = Registry.core x) : Quiet s (s.modify o f) := by
  refine ⟨rfl, fun p => ?_⟩
  by_cases hp : p = o
  · subst hp
    simp only [Leases.State.modify, Function.update_self, hf]
  · simp only [Leases.State.modify, Function.update_of_ne hp]

theorem outputInput (s : Leases.State) (o : Nat) (i : Input) (down : Bool) : Quiet s (s.outputInput o i down) := by
  have hset : Quiet s (s.modify o (·.set down i)) := modify s o fun x => by cases i <;> rfl
  unfold Leases.State.outputInput
  dsimp only
  split
  · exact refl s
  · split
    · exact hset
    · exact ⟨hset.selections, hset.core⟩

theorem queueKeys (s : Leases.State) (l : List Keyboard.KeyEvent) : Quiet s (s.queueKeys l) := ⟨rfl, fun _ => rfl⟩

theorem releaseInput (s : Leases.State) (o : Nat) : Quiet s (s.releaseInput o) := by
  unfold Leases.State.releaseInput
  generalize Leases.State.inputs = is
  induction is generalizing s with
  | nil => exact refl s
  | cons i is ih => exact (outputInput s o i false).trans (ih _)

theorem ident (h : Quiet s t) (p : Nat) : Registry.ident (t.heap p) = Registry.ident (s.heap p) := by
  have hp : Registry.ident (Registry.core (t.heap p)) = Registry.ident (Registry.core (s.heap p)) := by rw [h.core p]
  exact hp

theorem extent (h : Quiet s t) (p : Nat) : Registry.extent (t.heap p) = Registry.extent (s.heap p) := by
  have hp : Registry.extent (Registry.core (t.heap p)) = Registry.extent (Registry.core (s.heap p)) := by rw [h.core p]
  exact hp

theorem dead (h : Quiet s t) (p : Nat) : (t.heap p).dead = (s.heap p).dead := by
  have hp : (Registry.core (t.heap p)).dead = (Registry.core (s.heap p)).dead := by rw [h.core p]
  exact hp

theorem ownsSize (h : Quiet s t) (p : Nat) : (t.heap p).ownsSize = (s.heap p).ownsSize := by
  have hp : (Registry.core (t.heap p)).ownsSize = (Registry.core (s.heap p)).ownsSize := by rw [h.core p]
  exact hp

end Quiet

section Ident

variable {x y : OutputSelection}

theorem id_of_ident (h : ident x = ident y) : x.id = y.id := congrArg Prod.fst h

theorem window_of_ident (h : ident x = ident y) : x.window = y.window := congrArg (fun t => t.2.1) h

theorem shell_of_ident (h : ident x = ident y) : x.shell = y.shell := congrArg (fun t => t.2.2.1) h

theorem parent_of_ident (h : ident x = ident y) : x.parent = y.parent := congrArg (fun t => t.2.2.2) h

theorem borrowed_of_ident (h : ident x = ident y) : x.borrowed = y.borrowed := by
  unfold OutputSelection.borrowed
  rw [shell_of_ident h, parent_of_ident h]

theorem width_of_extent (h : extent x = extent y) : x.width = y.width := congrArg Prod.fst h

end Ident

/-! ## Releasing a selection -/

/-- What `releaseSelection` does -/
structure Released (s t : Leases.State) (o : Nat) : Prop where
  selections : t.selections = s.selections
  ident : ∀ p, ident (t.heap p) = ident (s.heap p)
  extent : ∀ p, extent (t.heap p) = extent (s.heap p)
  dead : ∀ p, (t.heap p).dead = ((s.heap p).dead || (decide (p ∈ s.selections) && (s.heap p).parent = (s.heap o).id))
  /-- The size passes to a selection of the window that has one, if there is any. -/
  heir : ∃ heir : Option Nat, (∀ p, (t.heap p).ownsSize = ((s.heap p).ownsSize || decide (heir = some p))) ∧
    (∀ p, heir = some p → (s.heap o).ownsSize = true ∧ p ∈ s.selections ∧ p ≠ o ∧ (t.heap p).dead = false ∧
      (s.heap p).borrowed = false ∧ (s.heap p).window = (s.heap o).window ∧ 0 < (s.heap p).width) ∧
    (heir = none → (s.heap o).ownsSize = true → ∀ p ∈ s.selections, p ≠ o → (t.heap p).dead = false →
      (s.heap p).borrowed = false → (s.heap p).window = (s.heap o).window → ¬0 < (s.heap p).width)

/-- `inheritSize` -/
theorem inheritSize_released (s : Leases.State) (o : Nat) :
    (s.inheritSize o).selections = s.selections ∧ (∀ p, ident ((s.inheritSize o).heap p) = ident (s.heap p)) ∧
      (∀ p, extent ((s.inheritSize o).heap p) = extent (s.heap p)) ∧
      (∀ p, ((s.inheritSize o).heap p).dead = (s.heap p).dead) ∧
      ∃ heir : Option Nat, (∀ p, ((s.inheritSize o).heap p).ownsSize = ((s.heap p).ownsSize || decide (heir = some p))) ∧
        (∀ p, heir = some p → (s.heap o).ownsSize = true ∧ p ∈ s.selections ∧ p ≠ o ∧ (s.heap p).dead = false ∧
          (s.heap p).borrowed = false ∧ (s.heap p).window = (s.heap o).window ∧ 0 < (s.heap p).width) ∧
        (heir = none → (s.heap o).ownsSize = true → ∀ p ∈ s.selections, p ≠ o → (s.heap p).dead = false →
          (s.heap p).borrowed = false → (s.heap p).window = (s.heap o).window → ¬0 < (s.heap p).width) := by
  have hnone : ∀ (f : Nat → Bool), (∀ p, f p = (f p || decide ((none : Option Nat) = some p))) := by simp
  unfold Leases.State.inheritSize
  by_cases howns : (s.heap o).ownsSize = true
  · rw [if_pos howns]
    cases hfind : s.selections.find? fun other =>
        other ≠ o && !(s.heap other).dead && !(s.heap other).borrowed &&
          (s.heap other).window = (s.heap o).window && 0 < (s.heap other).width with
    | none =>
      refine ⟨rfl, fun _ => rfl, fun _ => rfl, fun _ => rfl, none, hnone _, fun p hp => ?_,
        fun _ _ p hp hne hd hb hw hwidth => ?_⟩
      · cases hp
      · have := List.find?_eq_none.1 hfind p hp
        simp [hne, hd, hb, hw, hwidth] at this
    | some q =>
      have hq := List.find?_some hfind
      simp only [Bool.and_eq_true, decide_eq_true_eq, Bool.not_eq_true'] at hq
      have hmem := List.mem_of_find?_eq_some hfind
      have hheap : ∀ p, (s.modify q fun x => { x with ownsSize := true, geometryPending := true }).heap p =
          if p = q then { s.heap q with ownsSize := true, geometryPending := true } else s.heap p := by
        intro p
        by_cases hp : p = q
        · subst hp
          simp [Leases.State.modify]
        · simp [Leases.State.modify, hp]
      refine ⟨rfl, fun p => ?_, fun p => ?_, fun p => ?_, some q, fun p => ?_, fun p hp => ?_, fun h => by cases h⟩
      · dsimp only
        rw [hheap]
        split
        · rename_i h
          rw [h]
          rfl
        · rfl
      · dsimp only
        rw [hheap]
        split
        · rename_i h
          rw [h]
          rfl
        · rfl
      · dsimp only
        rw [hheap]
        split
        · rename_i h
          rw [h]
        · rfl
      · dsimp only
        rw [hheap]
        split
        · rename_i h
          simp [h]
        · rename_i h
          have hne : ¬some q = some p := fun e => h (Option.some.inj e).symm
          simp [hne]
      · cases hp
        exact ⟨howns, hmem, hq.1.1.1.1, hq.1.1.1.2, hq.1.1.2, hq.1.2, hq.2⟩
  · rw [if_neg howns]
    exact ⟨rfl, fun _ => rfl, fun _ => rfl, fun _ => rfl, none, hnone _, (fun _ h => by cases h), fun _ h => absurd h howns⟩

theorem releaseSelection_released (s : Leases.State) (o : Nat) :
    Released s (s.releaseSelection o) o := by
  obtain ⟨t, ht⟩ : ∃ t, t = s.each fun other =>
    let other := if other.id = (s.heap o).parent then { other with changed := true, geometryPending := true } else other
    if other.parent = (s.heap o).id then { other with dead := true, changed := true } else other := ⟨_, rfl⟩
  have heq : s.releaseSelection o = (t.releaseInput o).inheritSize o := by
    rw [ht]
    rfl
  have hsel : t.selections = s.selections := by
    rw [ht]
    rfl
  have hheap : ∀ p, ident (t.heap p) = ident (s.heap p) ∧ extent (t.heap p) = extent (s.heap p) ∧
      (t.heap p).ownsSize = (s.heap p).ownsSize ∧
      (t.heap p).dead = ((s.heap p).dead || (decide (p ∈ s.selections) && (s.heap p).parent = (s.heap o).id)) := by
    intro p
    rw [ht]
    simp only [Leases.State.each]
    by_cases hp : p ∈ s.selections
    · rw [if_pos hp]
      by_cases hid : (s.heap p).id = (s.heap o).parent
      · by_cases hparent : (s.heap p).parent = (s.heap o).id
        · simp [hid, hparent, hp, ident, extent]
        · simp [hid, hparent, hp, ident, extent]
      · by_cases hparent : (s.heap p).parent = (s.heap o).id
        · simp [hid, hparent, hp, ident, extent]
        · simp [hid, hparent, hp, ident, extent]
    · rw [if_neg hp]
      simp [hp]
  have hrelease := Quiet.releaseInput t o
  obtain ⟨hsel', hident', hextent', hdead', heir, howns, hsome, hnone⟩ := inheritSize_released (t.releaseInput o) o
  have hident : ∀ p, ident ((t.releaseInput o).heap p) = ident (s.heap p) := fun p => (hrelease.ident p).trans (hheap p).1
  have hextent : ∀ p, extent ((t.releaseInput o).heap p) = extent (s.heap p) :=
    fun p => (hrelease.extent p).trans (hheap p).2.1
  have hsize : ∀ p, ((t.releaseInput o).heap p).ownsSize = (s.heap p).ownsSize :=
    fun p => (hrelease.ownsSize p).trans (hheap p).2.2.1
  rw [heq]
  refine ⟨hsel'.trans (hrelease.selections.trans hsel), fun p => (hident' p).trans (hident p),
    fun p => (hextent' p).trans (hextent p), fun p => ?_, heir, fun p => ?_, fun p hp => ?_, fun hn ho' p hp hne hd hb hw => ?_⟩
  · rw [hdead', hrelease.dead, (hheap p).2.2.2]
  · rw [howns, hsize]
  · obtain ⟨h₁, h₂, h₃, h₄, h₅, h₆, h₇⟩ := hsome p hp
    rw [hsize] at h₁
    rw [hrelease.selections, hsel] at h₂
    rw [borrowed_of_ident (hident p)] at h₅
    rw [window_of_ident (hident p), window_of_ident (hident o)] at h₆
    rw [width_of_extent (hextent p)] at h₇
    refine ⟨h₁, h₂, h₃, ?_, h₅, h₆, h₇⟩
    rw [hdead']
    exact h₄
  · rw [hdead'] at hd
    have := hnone hn (by rw [hsize]; exact ho') p (by rw [hrelease.selections, hsel]; exact hp) hne hd
      (by rw [borrowed_of_ident (hident p)]; exact hb)
      (by rw [window_of_ident (hident p), window_of_ident (hident o)]; exact hw)
    rwa [width_of_extent (hextent p)] at this

/-! ## Commands -/

section Commands

variable {s : Leases.State} {z : Sizes} {c : Command} {env : Leases.Env} {before after : List Nat} {o : Nat}
  {calloc : Option Nat}

theorem changes_quiet {t : Leases.State} (h : Quiet s t) : Changes calloc (s, z) (t, z) := .single (.quiet h)

theorem create_changes (hsel : s.selections = before ++ after) (hnew : ∀ o ∈ env.calloc, o ∉ s.selections)
    (h0 : c.output ≠ 0) (hid : ∀ p ∈ s.selections, (s.heap p).id ≠ c.output) (hlends : c.detail = 2 → ∃ p, Lends s c p) :
    Changes env.calloc (s, z) (s.create c env before after, z) := by
  unfold Leases.State.create
  cases hc : env.calloc with
  | none => exact .refl
  | some o => exact .single (.create rfl hsel (hnew o hc) h0 hid hlends)

/-- `LORIE_OUTPUT_BIND`, after the selection with the same id was released -/
theorem bind_changes (hsel : s.selections = before ++ after) (hnew : ∀ o ∈ env.calloc, o ∉ s.selections)
    (h0 : c.output ≠ 0) (hid : ∀ p ∈ s.selections, (s.heap p).id ≠ c.output) :
    Changes env.calloc (s, z) (s.bind c env before after, z) := by
  unfold Leases.State.bind
  split
  · exact .refl
  split
  · split
    · exact .refl
    · rename_i hd
      exact create_changes hsel hnew h0 hid fun h => absurd h hd
  rename_i p hfind
  split
  · split
    · exact .refl
    · rename_i hlends
      simp only [Bool.or_eq_true, decide_eq_true_eq, not_or, Bool.not_eq_true, Decidable.not_not] at hlends
      obtain ⟨⟨⟨⟨hdead, hborrowed⟩, hsingle⟩, hw⟩, hwindow⟩ := hlends
      -- the parent is only marked for publication
      have hquiet : Quiet s (s.modify p fun o => { o with changed := true, geometryPending := true }) :=
        .modify s p fun _ => rfl
      have hident := hquiet.ident
      have hid' : (s.heap p).id = uint32 c.x := by
        have := List.find?_some hfind
        exact of_decide_eq_true this
      have hlends : Lends s c p :=
        { mem := List.mem_of_find?_eq_some hfind
          id := hid'
          alive := hdead
          own := hborrowed
          single := hsingle
          selects := hw
          window := hwindow }
      refine (changes_quiet hquiet).trans (create_changes hsel hnew h0 (fun q hq => ?_) fun _ => ⟨p, ?_⟩)
      · rw [id_of_ident (hident q)]
        exact hid q hq
      · refine ⟨hlends.mem, ?_, ?_, ?_, ?_, ?_, ?_⟩
        · rw [id_of_ident (hident p)]
          exact hlends.id
        · rw [hquiet.dead]
          exact hdead
        · rw [borrowed_of_ident (hident p)]
          exact hborrowed
        · rw [← hsingle]
          unfold Leases.State.separated
          simp only [hquiet.dead, parent_of_ident (hident _), id_of_ident (hident _)]
          rfl
        · rw [window_of_ident (hident p)]
          exact hw
        · rw [window_of_ident (hident p)]
          exact hwindow
  · rename_i hd
    exact create_changes hsel hnew h0 hid fun h => absurd h hd

/-- A `LORIE_OUTPUT_RESIZE` that the selection takes -/
def Takes (s : Leases.State) (c : Command) (env : Leases.Env) (o : Nat) : Prop :=
  ¬((s.heap o).shell ∧ !env.shellWindow (s.heap o).window) ∧ c.operation = .resize ∧ (s.heap o).borrowed = false ∧
    (1 ≤ c.x ∧ c.x ≤ windowSizeLimit) ∧ (1 ≤ c.y ∧ c.y ≤ windowSizeLimit)

instance : Decidable (Takes s c env o) := by
  unfold Takes
  infer_instance

theorem modify_heap (s : Leases.State) (o p : Nat) (f : OutputSelection → OutputSelection) :
    (s.modify o f).heap p = if p = o then f (s.heap o) else s.heap p := by
  by_cases hp : p = o
  · subst hp
    simp [Leases.State.modify]
  · simp [Leases.State.modify, hp]

/-- `LORIE_OUTPUT_RESIZE` -/
theorem resize_changes (ho : o ∈ s.selections) (hd : (s.heap o).dead = false) (htakes : Takes s c env o) :
    Change calloc (s, z) (s.operate c env o, z.resize o (s.heap o).window) := by
  obtain ⟨hshell, hop, hb, hx, hy⟩ := htakes
  obtain ⟨t, ht⟩ : ∃ t, t = s.modify o fun x => { x with width := c.x, height := c.y, resizePending := true } := ⟨_, rfl⟩
  have hnode : ∀ p, t.heap p =
      if p = o then { s.heap o with width := c.x, height := c.y, resizePending := true } else s.heap p := by
    intro p
    rw [ht, modify_heap]
  have hsel : t.selections = s.selections := by
    rw [ht]
    rfl
  have hoperate : s.operate c env o =
      if (s.heap o).window = 0 then t
      else (t.each fun x => if x.window = (s.heap o).window then { x with ownsSize := false } else x).modify o
        fun x => { x with ownsSize := true } := by
    have hrange : ¬((s.heap o).borrowed = true ∨ c.x < 1 ∨ c.y < 1 ∨ c.x > windowSizeLimit ∨ c.y > windowSizeLimit) := by
      rw [hb]
      simp only [Bool.false_eq_true, false_or, not_or]
      omega
    unfold Leases.State.operate
    rw [ht]
    dsimp only
    rw [if_neg hshell]
    simp only [hop, if_neg hrange]
  by_cases hw : (s.heap o).window = 0
  · rw [hoperate, if_pos hw]
    refine .resized ho hd hb hx hy hsel (fun p => ?_) (fun p => ?_) (fun p => ?_) fun p _ => ?_
    · rw [hnode]
      split
      · rename_i hp
        rw [hp]
        rfl
      · rfl
    · rw [hnode]
      split
      · rename_i hp
        rw [hp]
      · rfl
    · rw [hnode]
      split <;> rfl
    · have hroot : ¬((s.heap o).window ≠ 0 ∧ (s.heap p).window = (s.heap o).window) := fun h => h.1 hw
      rw [hnode, if_neg hroot]
      split
      · rename_i hp
        rw [hp]
      · rfl
  · rw [hoperate, if_neg hw]
    have hheap : ∀ p, ((t.each fun x => if x.window = (s.heap o).window then { x with ownsSize := false } else x).modify o
        fun x => { x with ownsSize := true }).heap p =
        if p = o then { s.heap o with width := c.x, height := c.y, resizePending := true, ownsSize := true }
        else if p ∈ s.selections ∧ (s.heap p).window = (s.heap o).window then { s.heap p with ownsSize := false }
        else s.heap p := by
      intro p
      rw [modify_heap]
      simp only [Leases.State.each, hnode, hsel, ho, ↓reduceIte]
      by_cases hp : p = o
      · simp [hp]
      · by_cases hmem : p ∈ s.selections
        · simp [hp, hmem]
        · simp [hp, hmem]
    refine .resized ho hd hb hx hy hsel (fun p => ?_) (fun p => ?_) (fun p => ?_) fun p hp => ?_
    · rw [hheap]
      split
      · rename_i h
        rw [h]
        rfl
      · split <;> rfl
    · rw [hheap]
      split
      · rename_i h
        rw [h]
      · split <;> rfl
    · rw [hheap]
      split
      · rfl
      · split <;> rfl
    · rw [hheap]
      by_cases h : p = o
      · simp [h, hw]
      · by_cases hwindow : (s.heap p).window = (s.heap o).window
        · simp [h, hwindow, hw, hp]
        · simp [h, hwindow]

theorem modify_selections (s : Leases.State) (o : Nat) (f : OutputSelection → OutputSelection) :
    (s.modify o f).selections = s.selections := rfl

/-- One selection that dies -/
theorem kill_node {r : Leases.State} (h : Quiet s r) (o p : Nat) :
    ident ((r.modify o fun x => { x with dead := true, changed := true }).heap p) = ident (s.heap p) ∧
    extent ((r.modify o fun x => { x with dead := true, changed := true }).heap p) = extent (s.heap p) ∧
    ((r.modify o fun x => { x with dead := true, changed := true }).heap p).ownsSize = (s.heap p).ownsSize ∧
    ((r.modify o fun x => { x with dead := true, changed := true }).heap p).dead = ((s.heap p).dead || p = o) := by
  rw [modify_heap]
  by_cases hp : p = o
  · subst hp
    rw [if_pos rfl]
    exact ⟨h.ident p, h.extent p, h.ownsSize p, by simp⟩
  · rw [if_neg hp]
    exact ⟨h.ident p, h.extent p, h.ownsSize p, by simp [hp, h.dead]⟩

/-- The operations on a selection, with the history of its size -/
theorem operate_changes (ho : o ∈ s.selections) (hd : (s.heap o).dead = false) :
    Changes calloc (s, z) (s.operate c env o, if Takes s c env o then z.resize o (s.heap o).window else z) := by
  by_cases htakes : Takes s c env o
  · rw [if_pos htakes]
    exact .single (resize_changes ho hd htakes)
  rw [if_neg htakes]
  by_cases hshell : (s.heap o).shell ∧ !env.shellWindow (s.heap o).window
  · have hoperate : s.operate c env o = (s.releaseInput o).modify o fun x => { x with dead := true, changed := true } := by
      unfold Leases.State.operate
      rw [if_pos hshell]
    have hquiet := Quiet.releaseInput s o
    rw [hoperate]
    exact .single (.revoke ho hshell.1 ((modify_selections _ _ _).trans hquiet.selections) (fun p => (kill_node hquiet o p).1)
      (fun p => (kill_node hquiet o p).2.1) (fun p => (kill_node hquiet o p).2.2.1) fun p => (kill_node hquiet o p).2.2.2)
  refine changes_quiet ?_
  unfold Leases.State.operate
  rw [if_neg hshell]
  dsimp only
  split
  · split
    · exact .refl s
    · exact .modify s o fun _ => rfl
  · rename_i hop
    split
    · exact .refl s
    · rename_i hrange
      refine absurd ⟨hshell, hop, ?_⟩ htakes
      simp only [not_or, Bool.not_eq_true] at hrange
      obtain ⟨hb, hx, hy, hx', hy'⟩ := hrange
      exact ⟨hb, ⟨by omega, by omega⟩, by omega, by omega⟩
  · split
    · exact .refl s
    split
    · exact .releaseInput s o
    · split
      · exact .outputInput s o _ _
      · exact .refl s
    · split
      · exact .outputInput s o _ _
      · exact .refl s
    · exact .queueKeys s _
    · exact .refl s

/-- The ids of the selections are distinct. -/
def Distinct (s : Leases.State) : Prop :=
  ∀ p ∈ s.selections, ∀ q ∈ s.selections, (s.heap p).id = (s.heap q).id → p = q

/-- The sizes after a command -/
def sizesAfter (s : Leases.State) (z : Sizes) (c : Command) (env : Leases.Env) : Sizes :=
  match s.selections.find? fun o => (s.heap o).id = c.output with
  | none => z
  | some o =>
    match c.operation with
    | .release | .bind => z.forget o
    | _ => if (s.heap o).dead = false ∧ (s.heap o).window = c.window ∧ Takes s c env o then z.resize o (s.heap o).window else z

/-- The node at `link`, and the selection of the command -/
theorem find_link (s : Leases.State) (id : Nat) :
    (s.selections.find? fun o => (s.heap o).id = id) = (s.selections.dropWhile fun o => (s.heap o).id ≠ id).head? := by
  rw [List.find?_eq_head?_dropWhile_not]
  congr 2
  funext o
  simp

/-- The list without the selection of a command has no selection with its id. -/
theorem unlinked_id (hdistinct : Distinct s) (hnodup : s.selections.Nodup) (hsel : s.selections = before ++ o :: after)
    (hid : (s.heap o).id = c.output) {p : Nat} (hp : p ∈ before ++ after) : (s.heap p).id ≠ c.output := by
  intro h
  have hmem : p ∈ s.selections := by
    rw [hsel]
    rcases List.mem_append.1 hp with h' | h'
    · exact List.mem_append_left _ h'
    · exact List.mem_append_right _ (List.mem_cons_of_mem _ h')
  have hpo : p = o := hdistinct p hmem o (by rw [hsel]; exact List.mem_append_right _ List.mem_cons_self) (h.trans hid.symm)
  rw [hsel, List.nodup_middle] at hnodup
  rw [hpo] at hp
  exact (List.nodup_cons.1 hnodup).1 hp

/-- The memory that a command takes -/
def memory (c : Command) (env : Leases.Env) : Option Nat := if c.operation = .bind then env.calloc else none

/-- A command for an id that no selection has -/
theorem command_new (hscreen : env.screen = true) (h0 : c.output ≠ 0)
    (hfound : (s.selections.dropWhile fun o => (s.heap o).id ≠ c.output) = []) :
    s.lorieOutputCommand c env = if c.operation = .bind then s.bind c env s.selections [] else s := by
  have hall : (s.selections.takeWhile fun o => (s.heap o).id ≠ c.output) = s.selections := by
    have := List.takeWhile_append_dropWhile (p := fun o => decide ((s.heap o).id ≠ c.output)) (l := s.selections)
    rwa [hfound, List.append_nil] at this
  unfold Leases.State.lorieOutputCommand
  simp only [hscreen, hfound, hall, Bool.not_true, Bool.false_eq_true, ↓reduceIte, h0]
  cases c.operation <;> rfl

/-- `LORIE_OUTPUT_RELEASE` of a selection -/
theorem command_release (hscreen : env.screen = true) (h0 : c.output ≠ 0) (hop : c.operation = .release)
    (hfound : (s.selections.dropWhile fun o => (s.heap o).id ≠ c.output) = o :: after) :
    s.lorieOutputCommand c env = Leases.State.releaseSelection
      { s with selections := (s.selections.takeWhile fun o => (s.heap o).id ≠ c.output) ++ after } o := by
  unfold Leases.State.lorieOutputCommand
  simp only [hscreen, hfound, hop, Bool.not_true, Bool.false_eq_true, ↓reduceIte, h0, List.tail_cons]

/-- `LORIE_OUTPUT_BIND` in the place of a selection -/
theorem command_bind (hscreen : env.screen = true) (h0 : c.output ≠ 0) (hop : c.operation = .bind)
    (hfound : (s.selections.dropWhile fun o => (s.heap o).id ≠ c.output) = o :: after) :
    s.lorieOutputCommand c env = (Leases.State.releaseSelection
      { s with selections := (s.selections.takeWhile fun o => (s.heap o).id ≠ c.output) ++ after } o).bind c env
        (s.selections.takeWhile fun o => (s.heap o).id ≠ c.output) after := by
  unfold Leases.State.lorieOutputCommand
  simp only [hscreen, hfound, hop, Bool.not_true, Bool.false_eq_true, ↓reduceIte, h0, List.tail_cons]

/-- An operation on a selection, or a command for something else -/
theorem command_operate (hscreen : env.screen = true) (h0 : c.output ≠ 0) (hrelease : c.operation ≠ .release)
    (hbind : c.operation ≠ .bind) (hfound : (s.selections.dropWhile fun o => (s.heap o).id ≠ c.output) = o :: after) :
    (s.lorieOutputCommand c env = s ∧ ((s.heap o).dead = true ∨ (s.heap o).window ≠ c.window ∨ c.operation ≠ .resize)) ∨
      ((s.heap o).dead = false ∧ (s.heap o).window = c.window ∧ s.lorieOutputCommand c env = s.operate c env o) := by
  have hgone : ∀ t : Leases.State,
      ((if (s.heap o).dead ∨ (s.heap o).window ≠ c.window then s else t) = s ∧
        ((s.heap o).dead = true ∨ (s.heap o).window ≠ c.window ∨ c.operation ≠ .resize)) ∨
      ((s.heap o).dead = false ∧ (s.heap o).window = c.window ∧
        (if (s.heap o).dead ∨ (s.heap o).window ≠ c.window then s else t) = t) := by
    intro t
    by_cases h : (s.heap o).dead ∨ (s.heap o).window ≠ c.window
    · left
      rw [if_pos h]
      exact ⟨rfl, h.imp_right .inl⟩
    · right
      rw [if_neg h]
      simp only [not_or, Bool.not_eq_true, Decidable.not_not] at h
      exact ⟨h.1, h.2, rfl⟩
  unfold Leases.State.lorieOutputCommand
  simp only [hscreen, hfound, Bool.not_true, Bool.false_eq_true, ↓reduceIte, h0]
  cases hop : c.operation with
  | release => exact absurd hop hrelease
  | bind => exact absurd hop hbind
  | shell | observe | inspect | dpi | colorScheme | close | fullscreenConfirm | maximizedConfirm | interactionConfirm =>
    exact .inl ⟨rfl, .inr (.inr (by decide))⟩
  | resize | pointer | key | focus | text | viewport | blur | scroll | touch | tablet | cancelContacts =>
    have := hgone (s.operate c env o)
    rw [hop] at this
    exact this

/-- Commands for a selection -/
theorem command_changes (hscreen : env.screen = true) (h0 : c.output ≠ 0) (hdistinct : Distinct s)
    (hnodup : s.selections.Nodup) (hnew : ∀ o ∈ env.calloc, o ∉ s.selections) :
    Changes (memory c env) (s, z) (s.lorieOutputCommand c env, sizesAfter s z c env) := by
  have hmemory : c.operation = .bind → memory c env = env.calloc := fun h => if_pos h
  have hfind := find_link s c.output
  unfold sizesAfter
  rw [hfind]
  cases hfound : s.selections.dropWhile fun o => (s.heap o).id ≠ c.output with
  | nil =>
    have hfresh : ∀ p ∈ s.selections, (s.heap p).id ≠ c.output := by
      intro p hp
      have := List.dropWhile_eq_nil_iff.1 hfound p hp
      exact of_decide_eq_true this
    rw [command_new hscreen h0 hfound]
    split
    · rename_i hbind
      rw [hmemory hbind]
      exact bind_changes (List.append_nil _).symm hnew h0 hfresh
    · exact .refl
  | cons o after =>
    have hsel := link_split hfound
    have ho : o ∈ s.selections := by
      rw [hsel]
      exact List.mem_append_right _ List.mem_cons_self
    have hid : (s.heap o).id = c.output := by
      rw [hfound] at hfind
      have := List.find?_some hfind
      exact of_decide_eq_true this
    have hrest : ∀ p ∈ s.selections.takeWhile (fun o => (s.heap o).id ≠ c.output) ++ after, (s.heap p).id ≠ c.output :=
      fun p hp => unlinked_id hdistinct hnodup hsel hid hp
    have hdrop := @Change.drop (memory c env) s z _ after o hsel
    simp only [List.head?_cons]
    by_cases hrelease : c.operation = .release
    · rw [command_release hscreen h0 hrelease hfound]
      simp only [hrelease]
      exact .single hdrop
    by_cases hbind : c.operation = .bind
    · rw [hmemory hbind] at hdrop ⊢
      rw [command_bind hscreen h0 hbind hfound]
      simp only [hbind]
      refine .trans (.single hdrop) ?_
      have hreleased := releaseSelection_released
        { s with selections := s.selections.takeWhile (fun o => (s.heap o).id ≠ c.output) ++ after } o
      generalize Leases.State.releaseSelection _ o = t at hreleased ⊢
      refine bind_changes hreleased.selections (fun p hp hmem => hnew p hp ?_) h0 fun p hp => ?_
      · rw [hreleased.selections] at hmem
        rw [hsel]
        rcases List.mem_append.1 hmem with h | h
        · exact List.mem_append_left _ h
        · exact List.mem_append_right _ (List.mem_cons_of_mem _ h)
      · rw [id_of_ident (hreleased.ident p)]
        rw [hreleased.selections] at hp
        exact hrest p hp
    have hsizes : ∀ z', (match c.operation with
        | .release | .bind => z.forget o
        | _ => z') = z' := by
      intro z'
      split
      · rename_i h
        exact absurd h hrelease
      · rename_i h
        exact absurd h hbind
      · rfl
    rw [hsizes]
    rcases command_operate hscreen h0 hrelease hbind hfound with ⟨heq, hskip⟩ | ⟨hd, hw, heq⟩
    · have hnot : ¬((s.heap o).dead = false ∧ (s.heap o).window = c.window ∧ Takes s c env o) := by
        rintro ⟨hd, hw, -, hresize, -⟩
        rcases hskip with h | h | h
        · rw [hd] at h
          cases h
        · exact h hw
        · exact h hresize
      rw [heq, if_neg hnot]
    · rw [heq]
      have hoperate : Changes (memory c env) (s, z)
          (s.operate c env o, if Takes s c env o then z.resize o (s.heap o).window else z) := operate_changes ho hd
      simpa only [hd, hw, true_and] using hoperate

end Commands

/-! ## Other operations -/

section Operations

variable {s : Leases.State} {z : Sizes} {calloc : Option Nat}

theorem releaseButton_quiet (s : Leases.State) (id window button : Nat) :
    Quiet s (s.lorieReleaseOutputButton id window button) := by
  unfold Leases.State.lorieReleaseOutputButton
  split
  · exact .refl s
  split
  · exact .outputInput s _ _ _
  · exact .refl s

theorem foldl_releaseInput_quiet : ∀ (os : List Nat) (s : Leases.State), Quiet s (os.foldl Leases.State.releaseInput s)
  | [], s => .refl s
  | o :: os, s => (Quiet.releaseInput s o).trans (foldl_releaseInput_quiet os _)

/-- The loop of `lorieOutputWindowDestroyed` -/
theorem destroyed_nodes (w : Nat) : ∀ (os : List Nat) (s : Leases.State),
    let t := os.foldl (fun s o =>
      if (s.heap o).window = w then (s.releaseInput o).modify o fun x => { x with dead := true, changed := true } else s) s
    t.selections = s.selections ∧ ∀ p, ident (t.heap p) = ident (s.heap p) ∧ extent (t.heap p) = extent (s.heap p) ∧
      (t.heap p).ownsSize = (s.heap p).ownsSize ∧
      (t.heap p).dead = ((s.heap p).dead || (decide (p ∈ os) && (s.heap p).window = w))
  | [], s => ⟨rfl, fun p => ⟨rfl, rfl, rfl, by simp⟩⟩
  | o :: os, s => by
    intro t
    obtain ⟨hsel, hnode⟩ := destroyed_nodes w os
      (if (s.heap o).window = w then (s.releaseInput o).modify o fun x => { x with dead := true, changed := true } else s)
    by_cases hw : (s.heap o).window = w
    · simp only [hw, ↓reduceIte] at hsel hnode
      have ht : t = os.foldl (fun s o =>
          if (s.heap o).window = w then (s.releaseInput o).modify o fun x => { x with dead := true, changed := true } else s)
          ((s.releaseInput o).modify o fun x => { x with dead := true, changed := true }) := by
        simp only [t, List.foldl_cons, hw, ↓reduceIte]
      rw [ht]
      have hquiet := Quiet.releaseInput s o
      rw [modify_selections] at hsel
      refine ⟨hsel.trans hquiet.selections, fun p => ?_⟩
      obtain ⟨h₁, h₂, h₃, h₄⟩ := hnode p
      obtain ⟨k₁, k₂, k₃, k₄⟩ := kill_node hquiet o p
      refine ⟨h₁.trans k₁, h₂.trans k₂, h₃.trans k₃, ?_⟩
      rw [h₄, k₄, window_of_ident k₁]
      by_cases hp : p = o
      · simp [hp, hw]
      · simp [hp]
    · simp only [hw, ↓reduceIte] at hsel hnode
      have ht : t = os.foldl (fun s o =>
          if (s.heap o).window = w then (s.releaseInput o).modify o fun x => { x with dead := true, changed := true } else s)
          s := by
        simp only [t, List.foldl_cons, hw, ↓reduceIte]
      rw [ht]
      refine ⟨hsel, fun p => ?_⟩
      obtain ⟨h₁, h₂, h₃, h₄⟩ := hnode p
      refine ⟨h₁, h₂, h₃, ?_⟩
      rw [h₄]
      by_cases hp : p = o
      · simp [hp, hw]
      · simp [hp]

theorem windowDestroyed_changes (w : Nat) : Changes calloc (s, z) (s.lorieOutputWindowDestroyed w, z) := by
  obtain ⟨hsel, hnode⟩ := destroyed_nodes w s.selections s
  refine .single (.destroyed (w := w) hsel (fun p => (hnode p).1) (fun p => (hnode p).2.1) (fun p => (hnode p).2.2.1)
    fun p hp => ?_)
  exact (hnode p).2.2.2.trans (by simp [hp])

/-- The loop of `lorieResetOutputs` -/
theorem reset_changes : ∀ (os : List Nat) (s : Leases.State) (z : Sizes), s.selections = os →
    Changes calloc (s, z)
      (os.foldl (fun s o => Leases.State.releaseSelection { s with selections := s.selections.tail } o) s,
        os.foldl Sizes.forget z)
  | [], s, z, _ => .refl
  | o :: os, s, z, h => by
    have hdrop := @Change.drop calloc s z [] os o h
    have htail : ({ s with selections := [] ++ os } : Leases.State) = { s with selections := s.selections.tail } := by
      rw [h]
      rfl
    rw [htail] at hdrop
    refine .head hdrop ?_
    refine reset_changes os _ _ ?_
    rw [(releaseSelection_released _ o).selections, h]
    rfl

end Operations

/-! ## Steps -/

/-- An output that is seen and not dead has its window. -/
def Seen (s : State) : Prop :=
  ∀ o ∈ s.leases.selections, (s.node o).dead = false → s.seen o = true → s.present o = true

theorem survivor_of_released {s t : Leases.State} {before after : List Nat} {o p : Nat}
    (hr : Released { s with selections := before ++ after } t o) (hsel : s.selections = before ++ o :: after)
    (hp : p ∈ t.selections) (hd : (t.heap p).dead = false) :
    p ∈ s.selections ∧ (s.heap p).dead = false ∧ ident (t.heap p) = ident (s.heap p) := by
  rw [hr.selections] at hp
  rw [hr.dead, Bool.or_eq_false_iff] at hd
  refine ⟨?_, hd.1, hr.ident p⟩
  rw [hsel]
  rcases List.mem_append.1 hp with h | h
  · exact List.mem_append_left _ h
  · exact List.mem_append_right _ (List.mem_cons_of_mem _ h)

/-- What is kept of a selection that is not dead -/
theorem Change.survivor {calloc : Option Nat} {x y : Leases.State × Sizes} (h : Change calloc x y) {p : Nat}
    (hp : p ∈ y.1.selections) (hd : (y.1.heap p).dead = false) :
    calloc = some p ∨ p ∈ x.1.selections ∧ (x.1.heap p).dead = false ∧ ident (y.1.heap p) = ident (x.1.heap p) := by
  cases h with
  | quiet h =>
    rw [h.selections] at hp
    rw [h.dead] at hd
    exact .inr ⟨hp, hd, h.ident p⟩
  | @drop s z before after o hsel =>
    exact .inr (survivor_of_released (releaseSelection_released _ o) hsel hp hd)
  | @create s z before after o c hnew hsel ho h0 hid hlends =>
    by_cases hpo : p = o
    · left
      rw [hpo]
      exact hnew
    · right
      dsimp only at hp hd ⊢
      rw [Function.update_of_ne hpo] at hd ⊢
      refine ⟨?_, hd, rfl⟩
      rw [hsel]
      rcases List.mem_append.1 hp with h | h
      · exact List.mem_append_left _ h
      · exact List.mem_append_right _ ((List.mem_cons.1 h).resolve_left hpo)
  | revoke ho hshell hsel hident hextent howns hdead =>
    dsimp only at hp hd ⊢
    rw [hsel] at hp
    rw [hdead, Bool.or_eq_false_iff] at hd
    exact .inr ⟨hp, hd.1, hident p⟩
  | destroyed hsel hident hextent howns hdead =>
    dsimp only at hp hd ⊢
    rw [hsel] at hp
    rw [hdead p hp, Bool.or_eq_false_iff] at hd
    exact .inr ⟨hp, hd.1, hident p⟩
  | resized ho hd' hb hx hy hsel hident hdead hextent howns =>
    dsimp only at hp hd ⊢
    rw [hsel] at hp
    rw [hdead] at hd
    exact .inr ⟨hp, hd, hident p⟩

theorem Changes.survivor {calloc : Option Nat} {x y : Leases.State × Sizes} (h : Changes calloc x y) {p : Nat}
    (hp : p ∈ y.1.selections) (hd : (y.1.heap p).dead = false) :
    calloc = some p ∨ p ∈ x.1.selections ∧ (x.1.heap p).dead = false ∧ ident (y.1.heap p) = ident (x.1.heap p) := by
  induction h with
  | refl => exact .inr ⟨hp, hd, rfl⟩
  | tail _ h ih =>
    rcases h.survivor hp hd with hnew | ⟨hp', hd', hident⟩
    · exact .inl hnew
    · rcases ih hp' hd' with hnew | ⟨hp, hd, hident'⟩
      · exact .inl hnew
      · exact .inr ⟨hp, hd, hident.trans hident'⟩

end Lorie.Outputs.Registry
