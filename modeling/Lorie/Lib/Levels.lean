import Mathlib.Data.List.Basic
import Mathlib.Logic.Function.Basic

/-!
# Levels and their edges

A level is driven by edges: it rises with a press and falls with a release. Keys have a level each, which events change; some
of them get another level for a while.

- `edge`: the edges between two levels; `edge_trans` joins them while the level only falls;
- `follow`: the level after a run of edges, when they alternate (`follow_append`, `follow_edge`);
- `drive`: the level after a run of edges, whether they alternate or not;
- `after`: the levels of all keys after some events;
- `Temporary`: some keys get a level and the other one afterwards (`after_change`, `after_undo`);
- `nested_iff`: when two of them, one within the other, leave all keys as they were; `change_iff`: when the first half of one
  does; `release_iff`: when some keys are released at the end.
-/

namespace Lorie.Lib

/-! ## One level -/

inductive Edge where
  | press
  | release
  deriving DecidableEq, Repr

/-- The edges from one level to another. -/
def edge (before after : Bool) : List Edge :=
  match before, after with
  | false, true => [.press]
  | true, false => [.release]
  | _, _ => []

@[simp] theorem edge_self (b : Bool) : edge b b = [] := by
  cases b <;> rfl

/-- While the level only falls, the edges of two moves are those of both together. -/
theorem edge_trans {a b c : Bool} (hab : b → a) (hbc : c → b) : edge a b ++ edge b c = edge a c := by
  cases a <;> cases b <;> cases c <;> simp_all [edge]

/-- The level after a run of edges; `none` when a press finds the level up or a release finds it down. -/
def follow : Bool → List Edge → Option Bool
  | b, [] => some b
  | false, .press :: es => follow true es
  | true, .release :: es => follow false es
  | _, _ :: _ => none

theorem follow_append {b c : Bool} {es : List Edge} (h : follow b es = some c) (fs : List Edge) :
    follow b (es ++ fs) = follow c fs := by
  induction es generalizing b with
  | nil =>
    cases h
    rfl
  | cons e es ih =>
    cases b <;> cases e
    · exact ih h
    · cases h
    · cases h
    · exact ih h

@[simp] theorem follow_edge (b c : Bool) : follow b (edge b c) = some c := by
  cases b <;> cases c <;> rfl

/-- The level that an edge leaves -/
def Edge.down : Edge → Bool
  | .press => true
  | .release => false

/-- The level after a run of edges -/
def drive (b : Bool) (es : List Edge) : Bool := es.foldl (fun _ e => e.down) b

@[simp] theorem drive_edge (b c : Bool) : drive b (edge b c) = c := by
  cases b <;> cases c <;> rfl

/-! ## Changes that are taken back -/

section Keys

variable {κ : Type*} [DecidableEq κ]

/-- The levels after some events -/
def after (levels : κ → Bool) (events : List (κ × Bool)) : κ → Bool :=
  events.foldl (fun levels e => Function.update levels e.1 e.2) levels

/-- Keys that get a level -/
structure Temporary (κ : Type*) where
  keys : List κ
  level : Bool
  deriving DecidableEq, Repr

namespace Temporary

def change (t : Temporary κ) : List (κ × Bool) := t.keys.map fun k => (k, t.level)

def undo (t : Temporary κ) : List (κ × Bool) := t.keys.map fun k => (k, !t.level)

end Temporary

theorem after_append (levels : κ → Bool) (events later : List (κ × Bool)) :
    after levels (events ++ later) = after (after levels events) later := List.foldl_append

theorem after_map (levels : κ → Bool) (keys : List κ) (b : Bool) (k : κ) :
    after levels (keys.map fun k => (k, b)) k = if k ∈ keys then b else levels k := by
  induction keys generalizing levels with
  | nil => rfl
  | cons key keys ih =>
    rw [List.map_cons, after, List.foldl_cons, ← after, ih, Function.update_apply]
    by_cases hk : k = key <;> simp [hk]

theorem after_change (levels : κ → Bool) (t : Temporary κ) (k : κ) :
    after levels t.change k = if k ∈ t.keys then t.level else levels k := after_map levels t.keys t.level k

theorem after_undo (levels : κ → Bool) (t : Temporary κ) (k : κ) :
    after levels t.undo k = if k ∈ t.keys then !t.level else levels k := after_map levels t.keys (!t.level) k

/-- A change alone does nothing when the keys have the level already. -/
theorem change_iff (levels : κ → Bool) (t : Temporary κ) :
    (∀ k, after levels t.change k = levels k) ↔ ∀ k ∈ t.keys, levels k = t.level := by
  constructor
  · intro h k hk
    rw [← h k, after_change, if_pos hk]
  · intro h k
    rw [after_change]
    split
    · exact (h k ‹_›).symm
    · rfl

/-- The last change of a key within two temporary changes, the outer of which is the last to be taken back -/
theorem after_nested (levels : κ → Bool) (t u : Temporary κ) (key : κ) (b : Bool) (k : κ) :
    after levels (t.change ++ u.change ++ (key, b) :: (u.undo ++ t.undo)) k =
      if k ∈ t.keys then !t.level else if k ∈ u.keys then !u.level else if k = key then b else levels k := by
  have houter : after levels (t.change ++ u.change ++ (key, b) :: (u.undo ++ t.undo)) =
      after (after (Function.update (after (after levels t.change) u.change) key b) u.undo) t.undo := by
    rw [after_append, after_append, after, List.foldl_cons, ← after, after_append]
  rw [houter, after_undo, after_undo, Function.update_apply, after_change, after_change]
  by_cases ht : k ∈ t.keys <;> by_cases hu : k ∈ u.keys <;> simp only [ht, hu, if_true, if_false]

/-- A key changes within two temporary changes. The other keys are as before when each of them is, with the outer change the
last to be taken back. -/
theorem nested_iff (levels : κ → Bool) (t u : Temporary κ) (key : κ) (b : Bool) :
    (∀ k, key ≠ k → after levels (t.change ++ u.change ++ (key, b) :: (u.undo ++ t.undo)) k = levels k) ↔
      (∀ k ∈ t.keys, k = key ∨ levels k = !t.level) ∧ ∀ k ∈ u.keys, k = key ∨ k ∈ t.keys ∨ levels k = !u.level := by
  constructor
  · intro h
    refine ⟨fun k hk => ?_, fun k hk => ?_⟩
    · refine or_iff_not_imp_left.2 fun hne => ?_
      rw [← h k (Ne.symm hne), after_nested, if_pos hk]
    · refine or_iff_not_imp_left.2 fun hne => or_iff_not_imp_left.2 fun ht => ?_
      rw [← h k (Ne.symm hne), after_nested, if_neg ht, if_pos hk]
  · rintro ⟨ht, hu⟩ k hne
    rw [after_nested]
    split
    · exact (((ht k ‹_›).resolve_left hne.symm)).symm
    · split
      · exact (((hu k ‹_›).resolve_left hne.symm).resolve_left ‹_›).symm
      · rw [if_neg hne.symm]

/-- Some keys are released at the end. -/
theorem after_release (levels : κ → Bool) (events : List (κ × Bool)) (released : List κ) (k : κ) :
    after levels (events ++ released.map fun k => (k, false)) k = if k ∈ released then false else after levels events k := by
  rw [after_append, after_map]

/-- All keys are as before when the released ones were up and the others are as before without the releases. -/
theorem release_iff (levels : κ → Bool) (events : List (κ × Bool)) (released : List κ) :
    (∀ k, after levels (events ++ released.map fun k => (k, false)) k = levels k) ↔
      (∀ k ∈ released, levels k = false) ∧ ∀ k, k ∉ released → after levels events k = levels k := by
  simp only [after_release]
  constructor
  · intro h
    refine ⟨fun k hk => ?_, fun k hk => ?_⟩
    · rw [← h k, if_pos hk]
    · rw [← h k, if_neg hk]
  · rintro ⟨hr, hothers⟩ k
    split
    · exact (hr k ‹_›).symm
    · exact hothers k ‹_›

/-- What becomes of one key depends on its own level. -/
theorem after_congr {levels levels' : κ → Bool} {k : κ} (h : levels k = levels' k) (events : List (κ × Bool)) :
    after levels events k = after levels' events k := by
  induction events generalizing levels levels' with
  | nil => exact h
  | cons e events ih =>
    refine ih ?_
    simp only [Function.update_apply, h]

end Keys

end Lorie.Lib
