import Lorie.Cursor.Model

/-!
# The output of the cursor

`Bound s id window`: some selection is the output `id` and is bound to the window.

- `command_bound`, `bound_command`: what a command does to the outputs that are bound;
- `Inside`: the output that is selected for the cursor is bound to its window;
- `Inside.afterRegistry`: every operation of the registry keeps it so.
-/

namespace Lorie.Cursor

open Outputs
open Outputs.Registry (Quiet Released ident)
open Outputs.Leases (Command OutputSelection)

def Bound (s : Leases.State) (id window : Nat) : Prop :=
  ∃ o ∈ s.selections, (s.heap o).id = id ∧ (s.heap o).window = window

/-! ## Operations on the selections -/

section Selections

variable {s t : Leases.State} {c : Command} {env : Leases.Env} {before after : List Nat} {o id window : Nat}

/-- The same selections are bound to the same windows. -/
structure Alike (s t : Leases.State) : Prop where
  selections : t.selections = s.selections
  idents : ∀ p, ident (t.heap p) = ident (s.heap p)

namespace Alike

theorem refl (s : Leases.State) : Alike s s := ⟨rfl, fun _ => rfl⟩

theorem trans {u : Leases.State} (h : Alike s t) (h' : Alike t u) : Alike s u :=
  ⟨h'.selections.trans h.selections, fun p => (h'.idents p).trans (h.idents p)⟩

theorem of_quiet (h : Quiet s t) : Alike s t := ⟨h.selections, h.ident⟩

theorem of_released (h : Released s t o) : Alike s t := ⟨h.selections, h.ident⟩

theorem modify (s : Leases.State) (o : Nat) {f : OutputSelection → OutputSelection} (hf : ∀ x, ident (f x) = ident x) :
    Alike s (s.modify o f) := by
  refine ⟨rfl, fun p => ?_⟩
  rw [Registry.modify_heap]
  split
  · next h => rw [h, hf]
  · rfl

theorem each (s : Leases.State) {f : OutputSelection → OutputSelection} (hf : ∀ x, ident (f x) = ident x) :
    Alike s (s.each f) := by
  refine ⟨rfl, fun p => ?_⟩
  simp only [Leases.State.each]
  split
  · exact hf _
  · rfl

theorem bound (h : Alike s t) : Bound t id window ↔ Bound s id window := by
  unfold Bound
  rw [h.selections]
  simp only [Registry.id_of_ident (h.idents _), Registry.window_of_ident (h.idents _)]

theorem operate (s : Leases.State) (c : Command) (env : Leases.Env) (o : Nat) : Alike s (s.operate c env o) := by
  have hrelease : Alike s (s.releaseInput o) := .of_quiet (.releaseInput s o)
  unfold Leases.State.operate
  dsimp only
  split
  · exact hrelease.trans (.modify _ o fun _ => rfl)
  split
  · split
    · exact .refl s
    · exact .modify s o fun _ => rfl
  · split
    · exact .refl s
    · have hsize : Alike s (s.modify o fun x => { x with width := c.x, height := c.y, resizePending := true }) :=
        .modify s o fun _ => rfl
      split
      · exact hsize
      · refine (hsize.trans (.each _ fun x => ?_)).trans (.modify _ o fun _ => rfl)
        split <;> rfl
  · split
    · exact .refl s
    split
    · exact hrelease
    · split
      · exact .of_quiet (.outputInput s o _ _)
      · exact .refl s
    · split
      · exact .of_quiet (.outputInput s o _ _)
      · exact .refl s
    · exact .of_quiet (.queueKeys s _)
    · exact .refl s

end Alike

/-- Without one of the selections -/
theorem Bound.of_unlinked (hsel : s.selections = before ++ o :: after)
    (h : Bound { s with selections := before ++ after } id window) : Bound s id window := by
  obtain ⟨p, hp, hid⟩ := h
  exact ⟨p, hsel ▸ Registry.mem_of_unlinked hp, hid⟩

theorem Bound.unlinked (hsel : s.selections = before ++ o :: after) (h : Bound s id window) (hid : id ≠ (s.heap o).id) :
    Bound { s with selections := before ++ after } id window := by
  obtain ⟨p, hp, hpid, hpwindow⟩ := h
  rw [hsel] at hp
  refine ⟨p, ?_, hpid, hpwindow⟩
  apply Registry.mem_unlinked hp
  rintro rfl
  exact hid hpid.symm

theorem Bound.create (h : Bound s id window) (hsel : s.selections = before ++ after)
    (hnew : ∀ o ∈ env.calloc, o ∉ s.selections) : Bound (s.create c env before after) id window := by
  obtain ⟨p, hp, hid⟩ := h
  unfold Leases.State.create
  cases hc : env.calloc with
  | none => exact ⟨p, hp, hid⟩
  | some o =>
    have hne : p ≠ o := fun he => hnew o hc (he ▸ hp)
    refine ⟨p, ?_, ?_⟩
    · rw [hsel] at hp
      dsimp only
      exact Registry.mem_of_unlinked hp
    · dsimp only
      rw [Function.update_of_ne hne]
      exact hid

theorem Bound.of_create (hsel : s.selections = before ++ after) (h : Bound (s.create c env before after) id window) :
    Bound s id window ∨ id = c.output ∧ window = c.window := by
  unfold Leases.State.create at h
  cases hc : env.calloc with
  | none =>
    rw [hc] at h
    exact .inl h
  | some o =>
    rw [hc] at h
    obtain ⟨p, hp, hid, hwindow⟩ := h
    dsimp only at hp hid hwindow
    by_cases hpo : p = o
    · rw [hpo, Function.update_self] at hid hwindow
      exact .inr ⟨hid.symm, hwindow.symm⟩
    · rw [Function.update_of_ne hpo] at hid hwindow
      exact .inl ⟨p, hsel ▸ Registry.mem_unlinked hp hpo, hid, hwindow⟩

/-- What `LORIE_OUTPUT_BIND` makes of the selections -/
theorem bind_cases (s : Leases.State) (c : Command) (env : Leases.Env) (before after : List Nat) :
    s.bind c env before after = s ∨ ∃ t, Alike s t ∧ s.bind c env before after = t.create c env before after := by
  unfold Leases.State.bind
  split
  · exact .inl rfl
  split
  · split
    · exact .inl rfl
    · exact .inr ⟨s, .refl s, rfl⟩
  · split
    · split
      · exact .inl rfl
      · refine .inr ⟨_, ?_, rfl⟩
        exact .modify s _ fun _ => rfl
    · exact .inr ⟨s, .refl s, rfl⟩

theorem Bound.bind (h : Bound s id window) (hsel : s.selections = before ++ after)
    (hnew : ∀ o ∈ env.calloc, o ∉ s.selections) : Bound (s.bind c env before after) id window := by
  rcases bind_cases s c env before after with heq | ⟨t, hsame, heq⟩
  · rwa [heq]
  · rw [heq]
    refine Bound.create (hsame.bound.2 h) (hsame.selections.trans hsel) ?_
    rwa [hsame.selections]

theorem Bound.of_bind (hsel : s.selections = before ++ after) (h : Bound (s.bind c env before after) id window) :
    Bound s id window ∨ id = c.output ∧ window = c.window := by
  rcases bind_cases s c env before after with heq | ⟨t, hsame, heq⟩
  · rw [heq] at h
    exact .inl h
  · rw [heq] at h
    exact (Bound.of_create (hsame.selections.trans hsel) h).imp_left hsame.bound.1

/-- Which outputs stay bound in a command -/
theorem command_bound (hscreen : env.screen = true) (h0 : c.output ≠ 0) (hnew : ∀ o ∈ env.calloc, o ∉ s.selections)
    (h : Bound s id window) (hid : c.operation = .release ∨ c.operation = .bind → id ≠ c.output) :
    Bound (s.lorieOutputCommand c env) id window := by
  cases hfound : s.selections.dropWhile fun o => (s.heap o).id ≠ c.output with
  | nil =>
    rw [Registry.command_new hscreen h0 hfound]
    split
    · exact h.bind (List.append_nil _).symm hnew
    · exact h
  | cons o after =>
    have hsel := Leases.link_split hfound
    have hlink := Registry.find_link s c.output
    rw [hfound] at hlink
    have ho : (s.heap o).id = c.output := by
      have := List.find?_some hlink
      exact of_decide_eq_true this
    by_cases hrelease : c.operation = .release
    · rw [Registry.command_release hscreen h0 hrelease hfound]
      exact (Alike.of_released (Registry.releaseSelection_released _ o)).bound.2 (h.unlinked hsel (ho ▸ hid (.inl hrelease)))
    by_cases hbind : c.operation = .bind
    · rw [Registry.command_bind hscreen h0 hbind hfound]
      have hreleased := Registry.releaseSelection_released
        { s with selections := s.selections.takeWhile (fun o => (s.heap o).id ≠ c.output) ++ after } o
      have hleft := (Alike.of_released hreleased).bound.2 (h.unlinked hsel (ho ▸ hid (.inr hbind)))
      refine hleft.bind hreleased.selections ?_
      intro p hp hmem
      rw [hreleased.selections] at hmem
      exact hnew p hp (hsel ▸ Registry.mem_of_unlinked hmem)
    · rcases Registry.command_operate hscreen h0 hrelease hbind hfound with ⟨heq, -⟩ | ⟨-, -, heq⟩
      · rwa [heq]
      · rw [heq]
        exact (Alike.operate s c env o).bound.2 h

/-- The outputs that are bound after a command -/
theorem bound_command (hscreen : env.screen = true) (h0 : c.output ≠ 0) (h : Bound (s.lorieOutputCommand c env) id window) :
    Bound s id window ∨ id = c.output ∧ window = c.window := by
  cases hfound : s.selections.dropWhile fun o => (s.heap o).id ≠ c.output with
  | nil =>
    rw [Registry.command_new hscreen h0 hfound] at h
    split at h
    · exact h.of_bind (List.append_nil _).symm
    · exact .inl h
  | cons o after =>
    have hsel := Leases.link_split hfound
    have hreleased := Registry.releaseSelection_released
      { s with selections := s.selections.takeWhile (fun o => (s.heap o).id ≠ c.output) ++ after } o
    by_cases hrelease : c.operation = .release
    · rw [Registry.command_release hscreen h0 hrelease hfound] at h
      exact .inl (((Alike.of_released hreleased).bound.1 h).of_unlinked hsel)
    by_cases hbind : c.operation = .bind
    · rw [Registry.command_bind hscreen h0 hbind hfound] at h
      exact (h.of_bind hreleased.selections).imp_left fun h => ((Alike.of_released hreleased).bound.1 h).of_unlinked hsel
    · rcases Registry.command_operate hscreen h0 hrelease hbind hfound with ⟨heq, -⟩ | ⟨-, -, heq⟩
      · rw [heq] at h
        exact .inl h
      · rw [heq] at h
        exact .inl ((Alike.operate s c env o).bound.1 h)

theorem reset_selections (os : List Nat) (s : Leases.State) (h : s.selections = os) :
    (os.foldl (fun s o => Leases.State.releaseSelection { s with selections := s.selections.tail } o) s).selections = [] := by
  induction os generalizing s with
  | nil => exact h
  | cons o os ih =>
    rw [List.foldl_cons]
    apply ih
    rw [(Registry.releaseSelection_released _ o).selections]
    exact congrArg List.tail h

/-- Nothing is bound after `lorieResetOutputs`. -/
theorem not_bound_reset : ¬Bound s.lorieResetOutputs id window := by
  rintro ⟨o, ho, -⟩
  unfold Leases.State.lorieResetOutputs at ho
  rw [reset_selections _ s rfl] at ho
  cases ho

end Selections

/-! ## The variables of `cursor.c` -/

/-- Only the output of the cursor changes, and a change is to be published. -/
structure Moves (v w : Variables) : Prop where
  info : w.cursorInfo = v.cursorInfo
  pixels : w.cursorPixels = v.cursorPixels
  output : w.cursorOutput = v.cursorOutput ∧ w.cursorWindow = v.cursorWindow ∧ w.cursorPending = v.cursorPending ∨
    w.cursorPending = true

namespace Moves

variable {v w u : Variables}

theorem refl (v : Variables) : Moves v v := ⟨rfl, rfl, .inl ⟨rfl, rfl, rfl⟩⟩

theorem trans (h : Moves v w) (h' : Moves w u) : Moves v u := by
  refine ⟨h'.info.trans h.info, h'.pixels.trans h.pixels, ?_⟩
  rcases h'.output with ⟨ho, hw, hp⟩ | hp
  · rcases h.output with ⟨ho', hw', hp'⟩ | hp'
    · exact .inl ⟨ho.trans ho', hw.trans hw', hp.trans hp'⟩
    · exact .inr (hp.trans hp')
  · exact .inr hp

theorem select (v : Variables) (output window : Nat) : Moves v (v.lorieCursorSelect output window) := by
  unfold Variables.lorieCursorSelect
  split
  · exact .refl v
  · exact ⟨rfl, rfl, .inr rfl⟩

theorem release (v : Variables) (output : Nat) : Moves v (v.lorieCursorRelease output) := by
  unfold Variables.lorieCursorRelease
  split
  · exact select v 0 0
  · exact .refl v

theorem releases (r : Registry.State) : ∀ (os : List Nat) (v : Variables), Moves v (v.releaseCursors r os)
  | [], v => .refl v
  | _ :: os, v => (release v _).trans (releases r os _)

theorem reset (r : Registry.State) (v : Variables) : Moves v (v.resetCursor r) := (select v 0 0).trans (releases r _ _)

end Moves

/-- A selection of an output -/
@[simp] theorem select_output (v : Variables) (output window : Nat) :
    (v.lorieCursorSelect output window).cursorOutput = output ∧ (v.lorieCursorSelect output window).cursorWindow = window := by
  unfold Variables.lorieCursorSelect
  split
  · next h => exact h
  · exact ⟨rfl, rfl⟩

/-- A released output is not selected any more, and no other is. -/
theorem release_output (v : Variables) (output : Nat) : (v.lorieCursorRelease output).cursorOutput = 0 ∨
    v.lorieCursorRelease output = v ∧ v.cursorOutput ≠ output := by
  unfold Variables.lorieCursorRelease
  split
  · exact .inl (select_output v 0 0).1
  · next h => exact .inr ⟨rfl, h⟩

theorem releases_output (r : Registry.State) : ∀ (os : List Nat) (v : Variables),
    (v.releaseCursors r os).cursorOutput = 0 ∨ v.releaseCursors r os = v
  | [], v => .inr rfl
  | o :: os, v => by
    have hstep : v.releaseCursors r (o :: os) = (v.lorieCursorRelease (r.node o).id).releaseCursors r os := rfl
    rw [hstep]
    rcases releases_output r os (v.lorieCursorRelease (r.node o).id) with h | h
    · exact .inl h
    · rw [h]
      exact (release_output v _).imp_right And.left

/-! ## Operations of the registry -/

section Operations

variable {r t : Registry.State} {v : Variables} {c : Command} {env : Registry.Env} {id window : Nat}

/-- The output that is selected for the cursor is bound to its window. -/
def Inside (r : Registry.State) (v : Variables) : Prop :=
  v.cursorOutput ≠ 0 → Bound r.leases v.cursorOutput v.cursorWindow

theorem Inside.of_zero (h : v.cursorOutput = 0) : Inside r v := fun hne => absurd h hne

/-- The operations that look at a point move the cursor there, or leave it. -/
theorem operateCursor_cases (r : Registry.State) (c : Command) (env : Registry.Env) (output : OutputSelection)
    (v : Variables) : v.operateCursor r c env output = v ∨
      v.operateCursor r c env output = v.lorieCursorSelect output.id output.window := by
  unfold Variables.operateCursor
  split
  · exact .inl rfl
  split
  · exact .inl rfl
  split
  · exact (em _).elim (fun h => .inr (if_pos h)) fun h => .inl (if_neg h)
  · exact (em _).elim (fun h => .inr (if_pos h)) fun h => .inl (if_neg h)
  · exact (em _).elim (fun h => .inr (if_pos h)) fun h => .inl (if_neg h)
  · exact (em _).elim (fun h => .inr (if_pos h)) fun h => .inl (if_neg h)
  · exact .inl rfl

/-- A command for a selection -/
theorem selects_some (h : Registry.State.Command.selects c env = true) : env.screen = true ∧ c.output ≠ 0 := by
  unfold Registry.State.Command.selects at h
  split at h
  all_goals first | cases h | simpa using h

theorem command_leases (h : Registry.State.Command.selects c env = true) (e : Outputs.DirectInput.Command) :
    (r.lorieOutputCommand c e env).leases = r.leases.lorieOutputCommand c (r.leasesEnv env) := by
  unfold Registry.State.lorieOutputCommand
  rw [if_pos h]

theorem command_skip (h : ¬Registry.State.Command.selects c env = true) (e : Outputs.DirectInput.Command) :
    r.lorieOutputCommand c e env = r := by
  unfold Registry.State.lorieOutputCommand
  rw [if_neg h]

/-- The outputs that are bound after a command were bound, or the command is for them. -/
theorem bound_of_command {e : Outputs.DirectInput.Command} (h : Bound (r.lorieOutputCommand c e env).leases id window) :
    Bound r.leases id window ∨ id = c.output ∧ window = c.window := by
  by_cases hselects : Registry.State.Command.selects c env = true
  · obtain ⟨hscreen, h0⟩ := selects_some hselects
    rw [command_leases hselects] at h
    have hscreen : (r.leasesEnv env).screen = true := hscreen
    exact bound_command hscreen h0 h
  · rw [command_skip hselects] at h
    exact .inl h

/-- A command moves the cursor to an output that stays bound. -/
theorem Inside.command (h : Inside r v) (e : Outputs.DirectInput.Command)
    (hnew : ∀ o ∈ env.calloc, o ∉ r.leases.selections) : Inside (r.lorieOutputCommand c e env) (v.commandCursor r c env) := by
  unfold Variables.commandCursor
  by_cases hselects : Registry.State.Command.selects c env = true
  · obtain ⟨hscreen, h0⟩ := selects_some hselects
    have hkept {id window : Nat} (hb : Bound r.leases id window)
        (hid : c.operation = .release ∨ c.operation = .bind → id ≠ c.output) :
        Bound (r.lorieOutputCommand c e env).leases id window := by
      rw [command_leases hselects]
      exact command_bound hscreen h0 hnew hb hid
    rw [if_pos hselects]
    cases hfound : r.found? c.output with
    | none =>
      intro hne
      refine hkept (h hne) fun _ hid => ?_
      obtain ⟨o, ho, hoid, -⟩ := h hne
      have := List.find?_eq_none.1 hfound o ho
      exact this (decide_eq_true (hoid.trans hid))
    | some o =>
      have hmem : o ∈ r.leases.selections := List.mem_of_find?_eq_some hfound
      have hoid : (r.node o).id = c.output := by
        have := List.find?_some hfound
        exact of_decide_eq_true this
      have hrelease : Inside (r.lorieOutputCommand c e env) (v.lorieCursorRelease (r.node o).id) := by
        rcases release_output v (r.node o).id with hzero | ⟨heq, hne⟩
        · exact .of_zero hzero
        · rw [heq]
          exact fun hne' => hkept (h hne') fun _ => hoid ▸ hne
      dsimp only
      split
      · exact hrelease
      · exact hrelease
      · next hnrelease hnbind =>
        have hop : ¬(c.operation = .release ∨ c.operation = .bind) := fun hop => hop.elim hnrelease hnbind
        have hstay : Inside (r.lorieOutputCommand c e env) v := fun hne => hkept (h hne) fun hop' => absurd hop' hop
        split
        · exact hstay
        · rcases operateCursor_cases r c env (r.node o) v with heq | heq
          · rwa [heq]
          · rw [heq]
            intro _
            rw [(select_output ..).1, (select_output ..).2]
            exact hkept ⟨o, hmem, rfl, rfl⟩ fun hop' => absurd hop' hop
  · rw [if_neg hselects, command_skip hselects]
    exact h

/-- The end of an export -/
theorem endExport_alike (r : Registry.State) (exported : Option (Nat × Nat)) : Alike r.leases (r.endExport exported).leases :=
  .of_quiet (Registry.endExport_quiet r exported).1

theorem resetCursor_output (r : Registry.State) (v : Variables) : (v.resetCursor r).cursorOutput = 0 := by
  unfold Variables.resetCursor
  rcases releases_output r r.leases.selections (v.lorieCursorSelect 0 0) with hzero | heq
  · exact hzero
  · rw [heq]
    exact (select_output v 0 0).1

@[simp] theorem command_work (r : Registry.State) (c : Command) (e : Outputs.DirectInput.Command) (env : Registry.Env) :
    (r.lorieOutputCommand c e env).work = r.work := by
  unfold Registry.State.lorieOutputCommand
  split <;> rfl

@[simp] theorem command_connected (r : Registry.State) (c : Command) (e : Outputs.DirectInput.Command) (env : Registry.Env) :
    (r.lorieOutputCommand c e env).connected = r.connected := by
  unfold Registry.State.lorieOutputCommand
  split <;> rfl

@[simp] theorem endExport_work (r : Registry.State) (exported : Option (Nat × Nat)) : (r.endExport exported).work = r.work := by
  cases exported <;> rfl

@[simp] theorem endExport_connected (r : Registry.State) (exported : Option (Nat × Nat)) :
    (r.endExport exported).connected = r.connected := by
  cases exported <;> rfl

/-- What an operation does to the outputs that are bound, to the queued commands, to the connection and to the cursor -/
inductive Operated (r t : Registry.State) : Registry.Action → Prop
  | alike (a : Registry.Action) : Alike r.leases t.leases → (∀ c e, .command c e ∈ t.work → .command c e ∈ r.work) →
    (t.connected = true → r.connected = true) →
    (∀ v : Variables, (v.afterRegistry r a).cursorOutput = 0 ∨ v.afterRegistry r a = v) → Operated r t a
  | receive (c : Command) (e : Outputs.DirectInput.Command) : t = { r with work := r.work ++ [.command c e] } →
    Operated r t (.receive c e)
  | command (c : Command) (e : Outputs.DirectInput.Command) (env : Registry.Env) (exported : Option (Nat × Nat))
    (ws : List Registry.Work) : r.work = .command c e :: ws → (∀ o ∈ env.calloc, o ∉ r.leases.selections) →
    t = ({ r with work := ws } : Registry.State).lorieOutputCommand c e env → Operated r t (.work env exported)
  | connect (env : Registry.Env) (exported : Option (Nat × Nat)) (ws : List Registry.Work) : r.work = .connect :: ws →
    t.work = ws → (∀ id window, ¬Bound t.leases id window) → Operated r t (.work env exported)
  | close : t = r.lorieResetOutputs → Operated r t .closeScreen

theorem operated {a : Registry.Action} (hs : Registry.step r a = some t) : Operated r t a := by
  cases a with
  | createWindow w =>
    simp only [Registry.step] at hs
    split at hs
    · cases hs
      exact .alike _ (.refl _) (fun _ _ h => h) id fun _ => .inr rfl
    · cases hs
  | destroyWindow w =>
    simp only [Registry.step] at hs
    split at hs
    · cases hs
      obtain ⟨hsel, hnode⟩ := Registry.destroyed_nodes w r.leases.selections r.leases
      exact .alike _ ⟨hsel, fun p => (hnode p).1⟩ (fun _ _ h => h) id (releases_output r _)
    · cases hs
  | serverConnect =>
    cases hs
    exact .alike _ (.refl _) (fun c e h => by simpa using h) id fun _ => .inr rfl
  | receive c e =>
    simp only [Registry.step] at hs
    split at hs
    · exact .receive c e (Option.some.inj hs).symm
    · cases hs
  | error =>
    simp only [Registry.step] at hs
    split at hs
    · cases hs
      exact .alike _ (.refl _) (fun c e h => by simpa using h) (fun h => by cases h) fun _ => .inr rfl
    · cases hs
  | work env exported =>
    simp only [Registry.step] at hs
    split at hs
    · cases hs
    · next w ws hwork =>
      split at hs
      · next hnew =>
        cases hs
        cases w with
        | command c e => exact .command c e env exported ws hwork hnew rfl
        | lost generation =>
          have htail : ∀ c e, Registry.Work.command c e ∈ ws → .command c e ∈ r.work := fun c e h => by
            rw [hwork]
            exact List.mem_cons_of_mem _ h
          have hcursor (v : Variables) : v.afterRegistry r (.work env exported) = v := by
            simp only [Variables.afterRegistry, hwork]
          simp only [Registry.State.perform]
          split
          · exact .alike _ (endExport_alike { r with work := ws } exported) (fun c e h => htail c e (by simpa using h))
              (fun h => by simpa using h) fun v => .inr (hcursor v)
          · exact .alike _ (.refl _) htail id fun v => .inr (hcursor v)
        | connect =>
          refine .connect env exported ws hwork ?_ fun id window => ?_
          · simp [Registry.State.perform, Registry.State.lorieResetOutputs]
          · simp only [Registry.State.perform, Registry.State.lorieResetOutputs]
            exact not_bound_reset
      · cases hs
  | releaseButton id window button =>
    cases hs
    exact .alike _ (.of_quiet (Registry.releaseButton_quiet ..)) (fun _ _ h => h) (fun h => h) fun _ => .inr rfl
  | publish =>
    cases hs
    refine .alike _ ⟨rfl, fun p => ?_⟩ (fun _ _ h => h) (fun h => h) fun _ => .inr rfl
    simp only [Registry.State.loriePublishOutputs]
    split
    · rfl
    · rfl
  | closeInput =>
    cases hs
    exact .alike _ (.of_quiet (Registry.foldl_releaseInput_quiet _ _)) (fun _ _ h => h) (fun h => h) fun _ => .inr rfl
  | closeScreen => exact .close (Option.some.inj hs).symm

/-- **Every operation** of the registry leaves the output of the cursor bound. -/
theorem Inside.afterRegistry {a : Registry.Action} (h : Inside r v) (hs : Registry.step r a = some t) :
    Inside t (v.afterRegistry r a) := by
  cases operated hs with
  | alike _ hsame _ _ hcursor =>
    rcases hcursor v with hzero | heq
    · exact .of_zero hzero
    · rw [heq]
      exact fun hne => hsame.bound.2 (h hne)
  | receive c e ht =>
    rw [ht]
    exact h
  | command c e env exported ws hwork hnew ht =>
    rw [ht]
    simp only [Variables.afterRegistry, hwork]
    exact Inside.command (r := { r with work := ws }) h e hnew
  | connect env exported ws hwork _ _ =>
    simp only [Variables.afterRegistry, hwork]
    exact .of_zero (resetCursor_output r v)
  | close ht => exact .of_zero (resetCursor_output r v)

/-- What an operation of the registry does to the variables -/
theorem Moves.afterRegistry (r : Registry.State) (a : Registry.Action) (v : Variables) : Moves v (v.afterRegistry r a) := by
  cases a with
  | destroyWindow w => exact .releases r _ v
  | closeScreen => exact .reset r v
  | work env exported =>
    unfold Variables.afterRegistry
    dsimp only
    split
    · unfold Variables.commandCursor
      split
      · split
        · exact .refl v
        · split
          · exact .release v _
          · exact .release v _
          · split
            · exact .refl v
            · rcases operateCursor_cases _ _ _ _ v with heq | heq
              · rw [heq]
                exact .refl v
              · rw [heq]
                exact .select v _ _
      · exact .refl v
    · exact .reset r v
    · exact .refl v
  | _ => exact .refl v

end Operations

end Lorie.Cursor
