import Mathlib.Data.List.Nodup
import Mathlib.Data.List.Perm.Basic

/-!
# Handles that a table owns

A system gives out handles, each with a number that no other handle in use has. Some of them belong to the entries of a table,
the others are lost: in use, and nobody will give them back.

- `Held`: the handles in use are those of the table and those that were lost, and their numbers differ;
- `Held.acquire`, `Held.acquireLost`: a new handle; `Held.close`: the table gives one back by its number; `Held.lose`, `Held.loseAll`;
- `exists_split`: an entry of a table, with what changing it and taking it out make of the table; `exists_of_findIdx?`.
-/

namespace Lorie.Lib

variable {η ν : Type*} [DecidableEq ν]

/-- The handles in use are those of the table and those that were lost, and their numbers differ. -/
structure Held (number : η → ν) (opened owned lost : List η) : Prop where
  perm : opened.Perm (owned ++ lost)
  nodup : (opened.map number).Nodup

omit [DecidableEq ν] in
/-- Handles with different numbers are told apart by them. -/
theorem eq_of_number {number : η → ν} {l : List η} (h : (l.map number).Nodup) {a b : η} (ha : a ∈ l) (hb : b ∈ l)
    (hab : number a = number b) : a = b :=
  List.inj_on_of_nodup_map h ha hb hab

/-- Giving back a number takes out its handle. -/
theorem eraseP_number_perm {number : η → ν} {l : List η} (h : (l.map number).Nodup) {a : η} (ha : a ∈ l) :
    (a :: l.eraseP fun b => number b = number a).Perm l := by
  induction l with
  | nil => simp at ha
  | cons b l ih =>
    by_cases hb : number b = number a
    · have hba : b = a := eq_of_number h (by simp) ha hb
      simp [hba]
    · have hmem : a ∈ l := by
        rcases List.mem_cons.1 ha with rfl | hmem
        · exact absurd rfl hb
        · exact hmem
      have hnodup : (l.map number).Nodup := by
        simp only [List.map_cons, List.nodup_cons] at h
        exact h.2
      rw [List.eraseP_cons_of_neg (by simpa using hb)]
      exact (List.Perm.swap b a _).trans ((ih hnodup hmem).cons b)

namespace Held

variable {number : η → ν} {opened owned owned' lost : List η} {a : η}

omit [DecidableEq ν] in
theorem nil : Held number ([] : List η) [] [] := ⟨.nil, by simp⟩

omit [DecidableEq ν] in
theorem mem (h : Held number opened owned lost) (ha : a ∈ owned) : a ∈ opened :=
  h.perm.mem_iff.2 (List.mem_append_left _ ha)

omit [DecidableEq ν] in
/-- Only the order of the table changes. -/
theorem congr (h : Held number opened owned lost) (ho : owned.Perm owned') : Held number opened owned' lost :=
  ⟨h.perm.trans (ho.append_right _), h.nodup⟩

omit [DecidableEq ν] in
/-- A new handle of the table -/
theorem acquire (h : Held number opened owned lost) (ha : ∀ b ∈ opened, number b ≠ number a) :
    Held number (a :: opened) (a :: owned) lost := by
  refine ⟨h.perm.cons a, ?_⟩
  simp only [List.map_cons, List.nodup_cons, List.mem_map, not_exists, not_and]
  exact ⟨ha, h.nodup⟩

omit [DecidableEq ν] in
/-- A new handle that is lost at once -/
theorem acquireLost (h : Held number opened owned lost) (ha : ∀ b ∈ opened, number b ≠ number a) :
    Held number (a :: opened) owned (a :: lost) := by
  refine ⟨(h.perm.cons a).trans List.perm_middle.symm, ?_⟩
  simp only [List.map_cons, List.nodup_cons, List.mem_map, not_exists, not_and]
  exact ⟨ha, h.nodup⟩

/-- The table gives a handle back, by its number. -/
theorem close (h : Held number opened owned lost) (ho : owned.Perm (a :: owned')) :
    Held number (opened.eraseP fun b => number b = number a) owned' lost := by
  have ha : a ∈ opened := h.mem (ho.mem_iff.2 (by simp))
  have hopened := eraseP_number_perm h.nodup ha
  refine ⟨List.Perm.cons_inv (a := a) ?_, h.nodup.sublist (List.eraseP_sublist.map _)⟩
  exact hopened.trans (h.perm.trans (ho.append_right _))

omit [DecidableEq ν] in
/-- A handle leaves the table, and is not given back. -/
theorem lose (h : Held number opened owned lost) (ho : owned.Perm (a :: owned')) : Held number opened owned' (a :: lost) :=
  ⟨(h.perm.trans (ho.append_right _)).trans List.perm_middle.symm, h.nodup⟩

omit [DecidableEq ν] in
/-- The table is dropped. -/
theorem loseAll (h : Held number opened owned lost) : Held number opened [] (owned ++ lost) := ⟨h.perm, h.nodup⟩

end Held

/-! ## Entries of a table -/

/-- An entry splits the table. -/
theorem exists_split {ε : Type*} {l : List ε} {i : Nat} {x : ε} (h : l[i]? = some x) :
    ∃ pre post, l = pre ++ x :: post ∧ l.eraseIdx i = pre ++ post ∧ ∀ f : ε → ε, l.modify i f = pre ++ f x :: post := by
  obtain ⟨hi, hx⟩ := List.getElem?_eq_some_iff.1 h
  refine ⟨l.take i, l.drop (i + 1), ?_, List.eraseIdx_eq_take_drop_succ .., fun f => ?_⟩
  · rw [← hx, List.getElem_cons_drop, List.take_append_drop]
  · rw [List.modify_eq_take_cons_drop hi, hx]

/-- What a search for the first entry finds -/
theorem exists_of_findIdx? {ε : Type*} {l : List ε} {p : ε → Bool} {i : Nat} (h : l.findIdx? p = some i) :
    ∃ x, l[i]? = some x ∧ p x = true := by
  have hspec := List.of_findIdx?_eq_some h
  cases hx : l[i]? with
  | none => simp [hx] at hspec
  | some x => exact ⟨x, rfl, by simpa [hx] using hspec⟩

end Lorie.Lib
