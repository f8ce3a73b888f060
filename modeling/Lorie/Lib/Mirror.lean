import Lorie.Lib.Replay

/-!
# Records mirrored by events

A list of records with keys, whose changes are told as events. When a key occurs more than once, the first record counts.

- `Mirrors`: the table that the events tell is what the records say;
- `Mirrors.insert`, `Mirrors.amend`, `Mirrors.sweep`: a record is put in front, the record of a key changes, and the records
  that were not marked go.
-/

namespace Lorie.Lib

section Mirror

variable {α β ρ : Type*} [DecidableEq α] (key : ρ → α) (value : ρ → β)

/-- What the records say of a key. -/
def entry (rows : List ρ) (k : α) : Option β := (rows.find? fun r => key r = k).map value

/-- The record of a key changes. -/
def amend (k : α) (f : ρ → ρ) : List ρ → List ρ
  | [] => []
  | r :: rows => if key r = k then f r :: rows else r :: amend k f rows

/-- The events tell what the records say. -/
def Mirrors (events : List (α × Option β)) (rows : List ρ) : Prop := ∀ k, replay events k = entry key value rows k

variable {key value} {rows : List ρ} {events : List (α × Option β)} {k : α} {f : ρ → ρ} {r : ρ}

theorem entry_cons (r : ρ) (rows : List ρ) (k : α) :
    entry key value (r :: rows) k = if k = key r then some (value r) else entry key value rows k := by
  unfold entry
  rw [List.find?_cons]
  by_cases h : key r = k
  · rw [decide_eq_true h, if_pos h.symm]
    rfl
  · rw [decide_eq_false h, if_neg (Ne.symm h)]

theorem entry_eq_none (h : k ∉ rows.map key) : entry key value rows k = none := by
  unfold entry
  rw [List.find?_eq_none.2 fun r hr => by
    rw [decide_eq_true_eq]
    exact fun hk => h (List.mem_map.2 ⟨r, hr, hk⟩)]
  rfl

/-! ## The record of a key changes -/

theorem length_amend (key : ρ → α) (k : α) (f : ρ → ρ) (rows : List ρ) : (amend key k f rows).length = rows.length := by
  induction rows with
  | nil => rfl
  | cons r rows ih =>
    unfold amend
    split
    · rfl
    · rw [List.length_cons, List.length_cons, ih]

theorem map_amend (hf : ∀ r, key (f r) = key r) (k : α) (rows : List ρ) : (amend key k f rows).map key = rows.map key := by
  induction rows with
  | nil => rfl
  | cons r rows ih =>
    unfold amend
    split
    · rw [List.map_cons, List.map_cons, hf]
    · rw [List.map_cons, List.map_cons, ih]

/-- What is there: the record that changed, and the others. -/
theorem mem_amend (hnodup : (rows.map key).Nodup) (hr : rows.find? (fun r => key r = k) = some r) {r' : ρ}
    (h : r' ∈ amend key k f rows) : r' = f r ∨ r' ∈ rows ∧ key r' ≠ k := by
  induction rows with
  | nil => cases hr
  | cons r₀ rows ih =>
    rw [List.map_cons, List.nodup_cons] at hnodup
    unfold amend at h
    rw [List.find?_cons] at hr
    by_cases hk : key r₀ = k
    · rw [decide_eq_true hk] at hr
      rw [if_pos hk] at h
      cases hr
      refine (List.mem_cons.1 h).imp_right fun h => ⟨List.mem_cons_of_mem _ h, fun hk' => hnodup.1 ?_⟩
      exact List.mem_map.2 ⟨r', h, hk'.trans hk.symm⟩
    · rw [decide_eq_false hk] at hr
      rw [if_neg hk] at h
      rcases List.mem_cons.1 h with rfl | h
      · exact .inr ⟨List.mem_cons_self, hk⟩
      · exact (ih hnodup.2 hr h).imp_right fun h => ⟨List.mem_cons_of_mem _ h.1, h.2⟩

/-- The record that changed is there. -/
theorem amend_mem (hr : rows.find? (fun r => key r = k) = some r) : f r ∈ amend key k f rows := by
  induction rows with
  | nil => cases hr
  | cons r₀ rows ih =>
    unfold amend
    rw [List.find?_cons] at hr
    by_cases hk : key r₀ = k
    · rw [decide_eq_true hk] at hr
      cases hr
      rw [if_pos hk]
      exact List.mem_cons_self
    · rw [decide_eq_false hk] at hr
      rw [if_neg hk]
      exact List.mem_cons_of_mem _ (ih hr)

/-- A record is still there, unless it is the one that changed. -/
theorem mem_amend_of_mem (key : ρ → α) (k : α) (f : ρ → ρ) (h : r ∈ rows) :
    r ∈ amend key k f rows ∨ f r ∈ amend key k f rows := by
  induction rows with
  | nil => cases h
  | cons r₀ rows ih =>
    unfold amend
    by_cases hk : key r₀ = k
    · rw [if_pos hk]
      rcases List.mem_cons.1 h with rfl | h
      · exact .inr List.mem_cons_self
      · exact .inl (List.mem_cons_of_mem _ h)
    · rw [if_neg hk]
      rcases List.mem_cons.1 h with rfl | h
      · exact .inl List.mem_cons_self
      · exact (ih h).imp (List.mem_cons_of_mem _) (List.mem_cons_of_mem _)

theorem entry_amend (hf : ∀ r, key (f r) = key r) (hr : rows.find? (fun r => key r = k) = some r) (k' : α) :
    entry key value (amend key k f rows) k' = if k' = k then some (value (f r)) else entry key value rows k' := by
  induction rows with
  | nil => cases hr
  | cons r₀ rows ih =>
    unfold amend
    rw [List.find?_cons] at hr
    by_cases hk : key r₀ = k
    · rw [decide_eq_true hk] at hr
      cases hr
      rw [if_pos hk, entry_cons, entry_cons, hf, hk]
      split
      · rfl
      · rfl
    · rw [decide_eq_false hk] at hr
      rw [if_neg hk, entry_cons, entry_cons, ih hr]
      by_cases hk' : k' = key r₀
      · rw [if_pos hk', if_pos hk', if_neg fun e => hk (hk'.symm.trans e)]
      · rw [if_neg hk', if_neg hk']

/-! ## What the operations tell -/

namespace Mirrors

theorem nil : Mirrors key value ([] : List (α × Option β)) [] := fun _ => rfl

/-- **A record is put in front.** -/
theorem insert (h : Mirrors key value events rows) (r : ρ) :
    Mirrors key value (events ++ [(key r, some (value r))]) (r :: rows) := by
  intro k
  rw [replay_snoc, entry_cons, h k]

/-- **The record of a key changes**, and its value is told. -/
theorem amend (h : Mirrors key value events rows) (hf : ∀ r, key (f r) = key r)
    (hr : rows.find? (fun r => key r = k) = some r) :
    Mirrors key value (events ++ [(k, some (value (f r)))]) (amend key k f rows) := by
  intro k'
  rw [replay_snoc, entry_amend hf hr, h k']

/-- The record of a key changes, and not its value. -/
theorem amend_same (h : Mirrors key value events rows) (hf : ∀ r, key (f r) = key r)
    (hr : rows.find? (fun r => key r = k) = some r) (hv : value (f r) = value r) :
    Mirrors key value events (Lib.amend key k f rows) := by
  intro k'
  rw [entry_amend hf hr, h k']
  split
  · rename_i hk
    rw [hk, hv, entry, hr]
    rfl
  · rfl

/-- All records change, and not their keys and values. -/
theorem map_same (h : Mirrors key value events rows) (hk : ∀ r, key (f r) = key r) (hv : ∀ r, value (f r) = value r) :
    Mirrors key value events (rows.map f) := by
  intro k
  rw [h k]
  clear h
  induction rows with
  | nil => rfl
  | cons r rows ih => rw [List.map_cons, entry_cons, entry_cons, hk, hv, ih]

/-- **The records that were not marked go.** -/
theorem sweep (h : Mirrors key value events rows) (hnodup : (rows.map key).Nodup) (mark : ρ → Bool) :
    Mirrors key value (events ++ (rows.filter fun r => !mark r).map fun r => (key r, none)) (rows.filter mark) := by
  intro k
  have hkeys : ((rows.filter fun r => !mark r).map fun r => (key r, (none : Option β))) =
      ((rows.filter fun r => !mark r).map key).map fun k => (k, none) := by
    rw [List.map_map]
    rfl
  rw [hkeys, replay_removals, h k]
  clear h hkeys
  induction rows with
  | nil => rfl
  | cons r rows ih =>
    rw [List.map_cons, List.nodup_cons] at hnodup
    have ih := ih hnodup.2
    cases hmark : mark r with
    | true =>
      rw [List.filter_cons_of_neg (by rw [hmark]; exact Bool.false_ne_true), List.filter_cons_of_pos hmark, entry_cons,
        entry_cons, ← ih]
      split
      · rename_i hgone
        rw [if_neg fun hk => hnodup.1 (by
          obtain ⟨r', hr', hkey⟩ := List.mem_map.1 hgone
          exact List.mem_map.2 ⟨r', (List.mem_filter.1 hr').1, hkey.trans hk⟩)]
      · rfl
    | false =>
      rw [List.filter_cons_of_pos (by rw [hmark]; rfl), List.filter_cons_of_neg (by rw [hmark]; exact Bool.false_ne_true),
        List.map_cons, entry_cons]
      by_cases hk : k = key r
      · have hnone : entry key value (rows.filter mark) k = none := entry_eq_none fun hin => hnodup.1 (by
          obtain ⟨r', hr', hkey⟩ := List.mem_map.1 hin
          exact List.mem_map.2 ⟨r', (List.mem_filter.1 hr').1, hkey.trans hk⟩)
        rw [if_pos (List.mem_cons.2 (.inl hk)), hnone]
      · rw [if_neg hk, ← ih]
        simp only [List.mem_cons, hk, false_or]

end Mirrors

end Mirror

end Lorie.Lib
