import Mathlib.Data.List.Basic

/-!
# Entries of a log that come in pairs

`Paired a b log`: in every beginning of the log, each `b` is preceded by an `a` of its own, and no `a` comes while one is
still without its `b`. Then at most one `a` is without its `b` (`pending`).
-/

namespace Lorie.Lib

variable {α : Type*} [DecidableEq α] {a b c : α} {log : List α}

/-- Every `b` ends the last `a`, and an `a` comes only when the one before was ended. -/
def Paired (a b : α) (log : List α) : Prop :=
  ∀ l, l <+: log → l.count b ≤ l.count a ∧ l.count a ≤ l.count b + 1

/-- An `a` was not ended yet. -/
def pending (a b : α) (log : List α) : Prop := log.count a = log.count b + 1

theorem Paired.nil : Paired a b [] := by
  intro l hl
  rw [List.prefix_nil.1 hl]
  simp

theorem Paired.not_pending (h : Paired a b log) (hp : ¬pending a b log) : log.count a = log.count b := by
  have hlog := h log List.prefix_rfl
  unfold pending at hp
  omega

/-- One more entry -/
theorem Paired.append (h : Paired a b log) (hlast : (log ++ [c]).count b ≤ (log ++ [c]).count a ∧
    (log ++ [c]).count a ≤ (log ++ [c]).count b + 1) : Paired a b (log ++ [c]) := by
  intro l hl
  rcases List.prefix_concat_iff.1 hl with rfl | hl
  · exact hlast
  · exact h l hl

section Append

theorem pending_other (ha : c ≠ a) (hb : c ≠ b) : pending a b (log ++ [c]) ↔ pending a b log := by
  unfold pending
  rw [List.count_append, List.count_append, List.count_singleton, List.count_singleton]
  simp [ha, hb]

theorem Paired.other (h : Paired a b log) (ha : c ≠ a) (hb : c ≠ b) : Paired a b (log ++ [c]) := by
  refine h.append ?_
  have hlog := h log List.prefix_rfl
  rw [List.count_append, List.count_append, List.count_singleton, List.count_singleton]
  simpa [ha, hb] using hlog

variable (hab : a ≠ b)

include hab

theorem Paired.opened (h : Paired a b log) (hp : ¬pending a b log) :
    Paired a b (log ++ [a]) ∧ pending a b (log ++ [a]) := by
  have hcount := h.not_pending hp
  have ha : (log ++ [a]).count a = log.count a + 1 := by simp
  have hb : (log ++ [a]).count b = log.count b := by simp [hab]
  exact ⟨h.append (by omega), by unfold pending; omega⟩

theorem Paired.closed (h : Paired a b log) (hp : pending a b log) :
    Paired a b (log ++ [b]) ∧ ¬pending a b (log ++ [b]) := by
  unfold pending at hp
  have ha : (log ++ [b]).count a = log.count a := by simp [hab.symm]
  have hb : (log ++ [b]).count b = log.count b + 1 := by simp
  exact ⟨h.append (by omega), by unfold pending; omega⟩

end Append

end Lorie.Lib
