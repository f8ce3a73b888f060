import Lorie.Lib.Transition

/-!
# Amounts over a run

- `total step f s as`: the sum of an amount over the steps of a run (`total_append`);
- `Meets step C s as`: every step of the run meets a condition;
- `potential`: the potential method. An amount that is paid for by the fall of a potential and by another amount, step by
  step, is paid for over the run.
-/

namespace Lorie.Lib

variable {σ α : Type*}

/-- The sum of an amount over the steps of a run. -/
def total (step : σ → α → Option σ) (f : σ → α → σ → Nat) : σ → List α → Nat
  | _, [] => 0
  | s, a :: as => match step s a with
    | some t => f s a t + total step f t as
    | none => 0

/-- Every step of the run meets a condition in the state before it. -/
def Meets (step : σ → α → Option σ) (C : σ → α → Prop) : σ → List α → Prop
  | _, [] => True
  | s, a :: as => C s a ∧ ∀ t, step s a = some t → Meets step C t as

variable {step : σ → α → Option σ} {f g : σ → α → σ → Nat} {C : σ → α → Prop}

theorem total_cons {s t : σ} {a : α} (h : step s a = some t) (as : List α) :
    total step f s (a :: as) = f s a t + total step f t as := by
  simp only [total, h]

theorem total_append {s t : σ} {as : List α} (h : exec step s as = some t) (bs : List α) :
    total step f s (as ++ bs) = total step f s as + total step f t bs := by
  induction as generalizing s with
  | nil =>
    cases h
    simp [total]
  | cons a as ih =>
    simp only [exec] at h
    obtain ⟨r, hr, h'⟩ := Option.bind_eq_some_iff.1 h
    rw [List.cons_append, total_cons hr, total_cons hr, ih h', Nat.add_assoc]

/-- A run whose steps all meet a condition is a run under it. -/
theorem Meets.reach {s t : σ} {as : List α} (hm : Meets step C s as) (h : exec step s as = some t) : Reach step C s t := by
  induction as generalizing s with
  | nil =>
    cases h
    exact .refl
  | cons a as ih =>
    simp only [exec] at h
    obtain ⟨r, hr, h'⟩ := Option.bind_eq_some_iff.1 h
    exact .head hm.1 hr (ih (hm.2 r hr) h')

/-- Every run meets the condition that excludes nothing. -/
theorem meets_free (s : σ) (as : List α) : Meets step Free s as := by
  induction as generalizing s with
  | nil => trivial
  | cons a as ih => exact ⟨trivial, fun t _ => ih t⟩

/-- **The potential method.** -/
theorem potential {p : σ → Nat} (hstep : ∀ s a t, C s a → step s a = some t → p t + f s a t ≤ p s + g s a t) {s t : σ}
    {as : List α} (hm : Meets step C s as) (h : exec step s as = some t) :
    p t + total step f s as ≤ p s + total step g s as := by
  induction as generalizing s with
  | nil =>
    cases h
    exact Nat.le_refl _
  | cons a as ih =>
    simp only [exec] at h
    obtain ⟨r, hr, h'⟩ := Option.bind_eq_some_iff.1 h
    have hfirst := hstep s a r hm.1 hr
    have hrest := ih (hm.2 r hr) h'
    rw [total_cons hr, total_cons hr]
    omega

end Lorie.Lib
