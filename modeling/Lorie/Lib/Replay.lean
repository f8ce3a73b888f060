import Mathlib.Data.List.Basic
import Mathlib.Data.List.Induction
import Mathlib.Logic.Function.Basic

/-!
# A table told by events

One side keeps a table and tells the other side what changes in it: an event gives a key a value, or takes it away. The other
side replays the events.

- `replay`: the table that the events tell (`replay_snoc`, `replay_removals`);
- `Orderly`: a key gets a value of another kind only after it was taken away (`Orderly.snoc`, `Orderly.removals`), so between
  two such values there is a removal (`Orderly.removed`).
-/

namespace Lorie.Lib

variable {α β γ : Type*} [DecidableEq α]

/-- The table that the events tell. -/
def replay (events : List (α × Option β)) : α → Option β :=
  events.foldl (fun table e => Function.update table e.1 e.2) fun _ => none

theorem replay_snoc (events : List (α × Option β)) (e : α × Option β) (k : α) :
    replay (events ++ [e]) k = if k = e.1 then e.2 else replay events k := by
  simp only [replay, List.foldl_append, List.foldl_cons, List.foldl_nil, Function.update_apply]

/-- Some keys are taken away. -/
theorem replay_removals (events : List (α × Option β)) (keys : List α) (k : α) :
    replay (events ++ keys.map fun k => (k, none)) k = if k ∈ keys then none else replay events k := by
  induction keys generalizing events with
  | nil => simp only [List.map_nil, List.append_nil, List.not_mem_nil, if_false]
  | cons key keys ih =>
    rw [List.map_cons, ← List.singleton_append, ← List.append_assoc, ih, replay_snoc]
    by_cases hk : k = key
    · simp only [hk, if_true, ite_self, List.mem_cons_self]
    · simp only [hk, if_false, List.mem_cons, false_or]

/-! ## Values of different kinds -/

/-- A value replaces only a value of its own kind. -/
def Orderly (kind : β → γ) (events : List (α × Option β)) : Prop :=
  ∀ past key value rest, events = past ++ (key, some value) :: rest → ∀ old, replay past key = some old → kind old = kind value

namespace Orderly

variable {kind : β → γ} {events : List (α × Option β)}

theorem nil : Orderly kind ([] : List (α × Option β)) := by
  intro past key value rest h
  have hlength := congrArg List.length h
  rw [List.length_nil, List.length_append, List.length_cons] at hlength
  omega

/-- One more event. -/
theorem snoc (h : Orderly kind events) {e : α × Option β}
    (he : ∀ value old, e.2 = some value → replay events e.1 = some old → kind old = kind value) :
    Orderly kind (events ++ [e]) := by
  intro past key value rest heq old hold
  rcases List.eq_nil_or_concat rest with rfl | ⟨rest', last, rfl⟩
  · obtain ⟨hpast, hlast⟩ := List.append_inj' heq rfl
    rw [List.cons.injEq] at hlast
    rw [hlast.1, hpast] at he
    exact he value old rfl hold
  · rw [List.concat_eq_append, ← List.cons_append, ← List.append_assoc] at heq
    exact h past key value rest' (List.append_inj' heq rfl).1 old hold

theorem removals (h : Orderly kind events) (keys : List α) : Orderly kind (events ++ keys.map fun k => (k, none)) := by
  induction keys generalizing events with
  | nil =>
    rw [List.map_nil, List.append_nil]
    exact h
  | cons key keys ih =>
    rw [List.map_cons, ← List.singleton_append, ← List.append_assoc]
    exact ih (h.snoc fun value old hvalue _ => by cases hvalue)

/-- **Between values of different kinds** the key was taken away. -/
theorem removed (h : Orderly kind events) {past between rest : List (α × Option β)} {key : α} {a b : β}
    (heq : events = past ++ (key, some a) :: (between ++ (key, some b) :: rest)) (hne : kind a ≠ kind b) :
    (key, none) ∈ between := by
  by_contra hnone
  -- the values of the key keep their kind along `between`
  have hkind : ∀ done todo : List (α × Option β), between = done ++ todo →
      ∃ old, replay (past ++ (key, some a) :: done) key = some old ∧ kind old = kind a := by
    intro done
    induction done using List.reverseRecOn with
    | nil =>
      intro _ _
      exact ⟨a, by rw [replay_snoc, if_pos rfl], rfl⟩
    | append_singleton done e ih =>
      intro todo hsplit
      rw [List.append_assoc] at hsplit
      obtain ⟨old, hold, hkind⟩ := ih _ hsplit
      have hreplay : replay (past ++ (key, some a) :: (done ++ [e])) key =
          if key = e.1 then e.2 else replay (past ++ (key, some a) :: done) key := by
        rw [← List.cons_append, ← List.append_assoc, replay_snoc]
      rw [hreplay]
      obtain ⟨key', value⟩ := e
      by_cases hkey : key = key'
      · subst hkey
        rw [if_pos rfl]
        cases value with
        | none =>
          refine absurd ?_ hnone
          rw [hsplit]
          exact List.mem_append_right _ List.mem_cons_self
        | some value =>
          refine ⟨value, rfl, ?_⟩
          have hlater := h (past ++ (key, some a) :: done) key value (todo ++ (key, some b) :: rest) (by
            rw [heq, hsplit]
            simp only [List.append_assoc, List.cons_append, List.nil_append]) old hold
          exact hlater.symm.trans hkind
      · rw [if_neg hkey]
        exact ⟨old, hold, hkind⟩
  obtain ⟨old, hold, hkind⟩ := hkind between [] (List.append_nil _).symm
  have hlast := h (past ++ (key, some a) :: between) key b rest (by
    rw [heq, List.append_assoc, List.cons_append]) old hold
  exact hne (hkind.symm.trans hlast)

end Orderly

end Lorie.Lib
