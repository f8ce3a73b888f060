import Mathlib.Data.List.Basic
import Mathlib.Logic.Relation

/-!
# Runs of a partial step function

A system is given by a step function `step : σ → α → Option σ`: the action `α` names which party moves and every
choice its environment makes, and `none` says that the action is not enabled.

- `exec` plays a list of actions (`exec_append`), and gives a run (`Reach.of_exec`, `Reach.of_exec_guarded`);
- `Reach step C s t`: `t` is reached from `s` by steps each of which meets the condition `C` in the state before it
  (`Free` is the condition that excludes nothing);
- the invariant rule (`Reach.invariant`), its relational form for facts about the past (`Reach.rel`), and the
  simulation rules (`Reach.simulate`, `Reach.simulate_runs`).
-/

namespace Lorie.Lib

variable {σ α τ β : Type*}

/-! ## Playing actions -/

/-- Play a list of actions; `none` as soon as one of them is not enabled. -/
def exec (step : σ → α → Option σ) : σ → List α → Option σ
  | s, [] => some s
  | s, a :: as => (step s a).bind fun t => exec step t as

theorem exec_append {step : σ → α → Option σ} {s t : σ} {as : List α} (h : exec step s as = some t) (bs : List α) :
    exec step s (as ++ bs) = exec step t bs := by
  induction as generalizing s with
  | nil =>
    cases h
    rfl
  | cons a as ih =>
    simp only [exec] at h
    obtain ⟨r, hr, h'⟩ := Option.bind_eq_some_iff.1 h
    simp only [List.cons_append, exec, hr, Option.bind_some]
    exact ih h'

/-- Actions that change nothing. -/
theorem exec_same {step : σ → α → Option σ} {s : σ} {as : List α} (h : ∀ a ∈ as, step s a = some s) :
    exec step s as = some s := by
  induction as with
  | nil => rfl
  | cons a as ih =>
    simp only [exec, h a List.mem_cons_self, Option.bind_some]
    exact ih fun b hb => h b (List.mem_cons_of_mem _ hb)

/-! ## Reachability under a condition on the steps -/

/-- `t` is reached from `s` by steps that all meet `C` in the state before them. -/
inductive Reach (step : σ → α → Option σ) (C : σ → α → Prop) (s : σ) : σ → Prop
  | refl : Reach step C s s
  | tail {t u : σ} {a : α} : Reach step C s t → C t a → step t a = some u → Reach step C s u

/-- The condition that excludes no step. -/
def Free (_ : σ) (_ : α) : Prop := True

namespace Reach

variable {step : σ → α → Option σ} {C D : σ → α → Prop} {s t u : σ}

theorem trans (h₁ : Reach step C s t) (h₂ : Reach step C t u) : Reach step C s u := by
  induction h₂ with
  | refl => exact h₁
  | tail _ hc hs ih => exact ih.tail hc hs

/-- One more step at the front. -/
theorem head {a : α} (hc : C s a) (hs : step s a = some t) (h : Reach step C t u) : Reach step C s u :=
  (Reach.refl.tail hc hs).trans h

/-- A weaker condition allows more runs. -/
theorem mono (hCD : ∀ s a, C s a → D s a) (h : Reach step C s t) : Reach step D s t := by
  induction h with
  | refl => exact .refl
  | tail _ hc hs ih => exact ih.tail (hCD _ _ hc) hs

/-- Played actions give a run. -/
theorem of_exec : ∀ (as : List α) {s : σ}, exec step s as = some t → Reach step Free s t
  | [], _, h => by cases h; exact .refl
  | a :: as, s, h => by
    simp only [exec] at h
    obtain ⟨r, hr, h'⟩ := Option.bind_eq_some_iff.1 h
    exact head trivial hr (of_exec as h')

/-- Played actions that meet the condition in every state give a run under it. -/
theorem of_exec_all {as : List α} (hc : ∀ a ∈ as, ∀ s, C s a) (h : exec step s as = some t) : Reach step C s t := by
  induction as generalizing s with
  | nil =>
    cases h
    exact .refl
  | cons a as ih =>
    simp only [exec] at h
    obtain ⟨r, hr, h'⟩ := Option.bind_eq_some_iff.1 h
    exact head (hc a List.mem_cons_self s) hr (ih (fun b hb => hc b (List.mem_cons_of_mem _ hb)) h')

/-- Played actions that all meet the condition give a run under it. -/
theorem of_exec_guarded [∀ s a, Decidable (C s a)] :
    ∀ (as : List α) {s : σ}, exec (fun s a => if C s a then step s a else none) s as = some t → Reach step C s t
  | [], _, h => by cases h; exact .refl
  | a :: as, s, h => by
    simp only [exec] at h
    obtain ⟨r, hr, h'⟩ := Option.bind_eq_some_iff.1 h
    split at hr
    · rename_i hc
      exact head hc hr (of_exec_guarded as h')
    · cases hr

/-- **The invariant rule**: what holds initially and is kept by every step that meets the condition holds in every
state reached. -/
theorem invariant {I : σ → Prop} (h₀ : I s) (hstep : ∀ t a u, I t → C t a → step t a = some u → I u)
    (h : Reach step C s t) : I t := by
  induction h with
  | refl => exact h₀
  | tail _ hc hs ih => exact hstep _ _ _ ih hc hs

/-- **The relational rule**: a reflexive and transitive relation between the states around every step of a run, whose
states satisfy `I`, relates the ends of the run. -/
theorem rel {R : σ → σ → Prop} (hrefl : ∀ s, R s s) (htrans : ∀ s t u, R s t → R t u → R s u) {I : σ → Prop}
    (h₀ : I s) (hI : ∀ t a u, I t → C t a → step t a = some u → I u)
    (hstep : ∀ t a u, I t → C t a → step t a = some u → R t u) (h : Reach step C s t) : R s t := by
  have hboth : I t ∧ R s t := by
    induction h with
    | refl => exact ⟨h₀, hrefl s⟩
    | tail _ hc hs ih => exact ⟨hI _ _ _ ih.1 hc hs, htrans _ _ _ ih.2 (hstep _ _ _ ih.1 hc hs)⟩
  exact hboth.2

/-- **The simulation rule**: when every step (from a state with the invariant) is an abstract step or leaves the
abstraction unchanged, runs are abstract runs. -/
theorem simulate (abs : σ → τ) {astep : τ → β → Option τ} {I : σ → Prop} (h₀ : I s)
    (hI : ∀ t a u, I t → C t a → step t a = some u → I u)
    (hsim : ∀ t a u, I t → C t a → step t a = some u → abs u = abs t ∨ ∃ b, astep (abs t) b = some (abs u))
    (h : Reach step C s t) : Reach astep Free (abs s) (abs t) := by
  have hboth : I t ∧ Reach astep Free (abs s) (abs t) := by
    induction h with
    | refl => exact ⟨h₀, .refl⟩
    | tail _ hc hs ih =>
      refine ⟨hI _ _ _ ih.1 hc hs, ?_⟩
      rcases hsim _ _ _ ih.1 hc hs with heq | ⟨b, hb⟩
      · rw [heq]; exact ih.2
      · exact ih.2.tail trivial hb
  exact hboth.2

/-- **The simulation rule for runs**: when every step (from a state with the invariant) is an abstract run, runs are abstract
runs. -/
theorem simulate_runs (abs : σ → τ) {astep : τ → β → Option τ} {E : τ → β → Prop} {I : σ → Prop} (h₀ : I s)
    (hI : ∀ t a u, I t → C t a → step t a = some u → I u)
    (hsim : ∀ t a u, I t → C t a → step t a = some u → Reach astep E (abs t) (abs u)) (h : Reach step C s t) :
    Reach astep E (abs s) (abs t) := by
  have hboth : I t ∧ Reach astep E (abs s) (abs t) := by
    induction h with
    | refl => exact ⟨h₀, .refl⟩
    | tail _ hc hs ih => exact ⟨hI _ _ _ ih.1 hc hs, ih.2.trans (hsim _ _ _ ih.1 hc hs)⟩
  exact hboth.2

end Reach

end Lorie.Lib
