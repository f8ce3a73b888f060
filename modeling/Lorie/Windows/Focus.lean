import Lorie.Lib.Folds
import Lorie.Windows.Family
import Mathlib.Data.List.Perm.Basic

/-!
# Activating a family

`lorieWindowFocus` collects the members of a family, raises the windows at the top of each, and sets the focus
(`window_family.h`, `window_model.c`). A raise puts a child of the root above the others.

- `Forest.tops`: the children of the root from bottom to top; `Forest.raise`: one of them moves to the top;
- `activation_eq`: what is collected; `raiseAll_tops`: the stacking order after the raises;
- `activation_restacks`: both, for `lorieWindowFocus`.
-/

namespace Lorie.Windows

open Lib (moveLast foldl_moveLast eq_filter_of_sublist)

/-! ## Raising a child of the root -/

namespace Forest

/-- The windows at the top, back to front -/
def tops : Forest → List Nat
  | nil => []
  | node window _ prevSib => window :: prevSib.tops

/-- What is below a window at the top -/
def children (w : Nat) : Forest → Option Forest
  | nil => none
  | node window lastChild prevSib => if window = w then some lastChild else prevSib.children w

/-- A window at the top is taken out. -/
def without (w : Nat) : Forest → Forest
  | nil => nil
  | node window lastChild prevSib => if window = w then prevSib else node window lastChild (prevSib.without w)

/-- A window is put above the others. -/
def push : Forest → Nat → Forest → Forest
  | nil, w, children => node w children nil
  | node window lastChild prevSib, w, children => node window lastChild (prevSib.push w children)

/-- `ConfigureWindow` of a window at the top with the mode `Above` -/
def raise (w : Nat) (f : Forest) : Forest :=
  match f.children w with
  | some children => (f.without w).push w children
  | none => f

variable {w : Nat} {f c : Forest}

theorem tops_push (w : Nat) (c f : Forest) : (f.push w c).tops = f.tops ++ [w] := by
  induction f with
  | nil => rfl
  | node window lastChild prevSib _ ih => exact congrArg (window :: ·) ih

theorem tops_without (w : Nat) (f : Forest) : (f.without w).tops = f.tops.erase w := by
  induction f with
  | nil => rfl
  | node window lastChild prevSib _ ih =>
    by_cases h : window = w
    · rw [without, if_pos h, tops, h, List.erase_cons_head]
    · rw [without, if_neg h, tops, tops, List.erase_cons_tail (by simpa using h), ih]

theorem children_isSome (h : w ∈ f.tops) : ∃ c, f.children w = some c := by
  induction f with
  | nil => cases h
  | node window lastChild prevSib _ ih =>
    unfold children
    by_cases hw : window = w
    · exact ⟨lastChild, if_pos hw⟩
    · rw [if_neg hw]
      exact ih ((List.mem_cons.1 h).resolve_left (Ne.symm hw))

theorem tops_raise (h : w ∈ f.tops) : (f.raise w).tops = moveLast f.tops w := by
  obtain ⟨c, hc⟩ := children_isSome h
  unfold raise
  rw [hc]
  exact (tops_push w c _).trans (by rw [tops_without, moveLast])

theorem windows_push (w : Nat) (c f : Forest) : (f.push w c).windows = f.windows ++ w :: c.windows := by
  induction f with
  | nil => simp [push, windows]
  | node window lastChild prevSib _ ih => simp [push, windows, ih]

theorem windows_without (h : f.children w = some c) : f.windows.Perm (w :: c.windows ++ (f.without w).windows) := by
  induction f with
  | nil => cases h
  | node window lastChild prevSib _ ih =>
    unfold children at h
    unfold without
    by_cases hw : window = w
    · rw [if_pos hw] at h ⊢
      cases h
      rw [hw]
      exact .refl _
    · rw [if_neg hw] at h ⊢
      have hrest := (ih h).append_left (window :: lastChild.windows)
      refine hrest.trans ?_
      rw [← List.append_assoc]
      exact (List.Perm.append_right _ List.perm_append_comm).trans (.of_eq (List.append_assoc _ _ _))

theorem windows_raise (w : Nat) (f : Forest) : (f.raise w).windows.Perm f.windows := by
  unfold raise
  cases hc : f.children w with
  | none => exact .refl _
  | some c =>
    refine .trans (.of_eq (windows_push w c _)) (List.perm_append_comm.trans ?_)
    exact (windows_without hc).symm

theorem linked_push {parent : Nat → Nat} {node : Nat} (hw : parent w = node) (hc : c.Linked parent w)
    (hf : f.Linked parent node) : (f.push w c).Linked parent node := by
  induction f with
  | nil => exact ⟨hw, hc, trivial⟩
  | node window lastChild prevSib _ ih => exact ⟨hf.1, hf.2.1, ih hf.2.2⟩

theorem linked_without {parent : Nat → Nat} {node : Nat} (hf : f.Linked parent node) (h : f.children w = some c) :
    (f.without w).Linked parent node ∧ parent w = node ∧ c.Linked parent w := by
  induction f with
  | nil => cases h
  | node window lastChild prevSib _ ih =>
    unfold children at h
    unfold without
    by_cases hw : window = w
    · rw [if_pos hw] at h ⊢
      cases h
      obtain ⟨h₁, h₂, h₃⟩ := hf
      exact ⟨h₃, hw ▸ h₁, hw ▸ h₂⟩
    · rw [if_neg hw] at h ⊢
      obtain ⟨hrest, hparent, hchildren⟩ := ih hf.2.2 h
      exact ⟨⟨hf.1, hf.2.1, hrest⟩, hparent, hchildren⟩

theorem linked_raise {parent : Nat → Nat} {node : Nat} (hf : f.Linked parent node) (w : Nat) :
    (f.raise w).Linked parent node := by
  unfold raise
  cases hc : f.children w with
  | none => exact hf
  | some c =>
    obtain ⟨hrest, hparent, hchildren⟩ := linked_without hf hc
    exact linked_push hparent hchildren hrest

theorem tops_sublist (f : Forest) : f.tops.Sublist f.windows := by
  induction f with
  | nil => exact .slnil
  | node window lastChild prevSib _ ih => exact .cons_cons _ (ih.trans (List.sublist_append_right _ _))

end Forest

namespace Desktop

/-! ## Raises on the desktop -/

/-- `raiseWindow`: `ConfigureWindow` of a child of the root -/
def raise (d : Desktop) (window : Nat) : Desktop :=
  { d with
    lastChild := d.lastChild.raise window
    linked := Forest.linked_raise d.linked window
    nodup := ((Forest.windows_raise window d.lastChild).cons d.root).nodup_iff.2 d.nodup
    nonzero := fun h => d.nonzero (((Forest.windows_raise window d.lastChild).cons d.root).mem_iff.1 h) }

/-- The children of the root, back to front -/
def tops (d : Desktop) : List Nat := d.lastChild.tops

variable {d : Desktop}

theorem tops_nodup : d.tops.Nodup := (List.nodup_cons.1 d.nodup).2.sublist (Forest.tops_sublist _)

theorem topLevel_raise (w m : Nat) : (d.raise w).topLevel m = d.topLevel m := by
  have hclimb : ∀ n m, (d.raise w).climb n m = d.climb n m := by
    intro n
    induction n with
    | zero => exact fun m => rfl
    | succ n ih =>
      intro m
      unfold climb
      rw [show (d.raise w).parent m = d.parent m from rfl, show (d.raise w).root = d.root from rfl]
      split
      · exact ih _
      · rfl
  unfold topLevel
  rw [hclimb, show (d.raise w).lastChild = d.lastChild.raise w from rfl, (Forest.windows_raise w d.lastChild).length_eq]

/-- The way up from a window below some children of the root ends at one of them. -/
theorem climb_tops {f : Forest} (hl : f.Linked (fun w => (d.heap w).parent) d.root) (hf : f.windows ⊆ d.lastChild.windows)
    {n : Nat} (hn : f.windows.length ≤ n) {v : Nat} (hv : v ∈ f.windows) : d.climb n v ∈ f.tops := by
  induction f with
  | nil => cases hv
  | node window lastChild prevSib ihc ihs =>
    have hlength : (Forest.node window lastChild prevSib).windows.length =
        lastChild.windows.length + prevSib.windows.length + 1 := by
      simp [Forest.windows]
    rcases List.mem_append.1 (show v ∈ (window :: lastChild.windows) ++ prevSib.windows from hv) with hv | hv
    · rw [climb_first hl hf (by omega) hv]
      exact List.mem_cons_self
    · refine List.mem_cons_of_mem _ (ihs hl.2.2 (fun v hv => hf ?_) (by omega) hv)
      exact List.mem_cons_of_mem _ (List.mem_append_right _ hv)

theorem topLevel_mem {w : Nat} (hw : w ∈ d.lastChild.windows) : d.topLevel w ∈ d.tops :=
  climb_tops d.linked (List.Subset.refl _) (Nat.le_refl _) hw

/-- The walk comes to the children of the root in their order, so members at different ones are in that order. -/
theorem visits_tops (owner : Nat) (q : Nat → Bool) {f : Forest} (hl : f.Linked (fun w => (d.heap w).parent) d.root)
    (hf : f.windows ⊆ d.lastChild.windows) {n : Nat} (hn : f.windows.length ≤ n)
    (hnodup : (((d.visits owner f).filter q).map (d.climb n)).Nodup) :
    (((d.visits owner f).filter q).map (d.climb n)).Sublist f.tops := by
  induction f with
  | nil => exact .slnil
  | node child lastChild prevSib ihc ihs =>
    have hlength : (Forest.node child lastChild prevSib).windows.length =
        lastChild.windows.length + prevSib.windows.length + 1 := by
      simp [Forest.windows]
    have hrest : prevSib.windows ⊆ d.lastChild.windows := fun v hv =>
      hf (List.mem_cons_of_mem _ (List.mem_append_right _ hv))
    obtain ⟨l, hvisits, hmem⟩ : ∃ l, d.visits owner (.node child lastChild prevSib) = l ++ d.visits owner prevSib ∧
        l ⊆ child :: lastChild.windows := by
      refine ⟨_, rfl, fun v hv => ?_⟩
      split at hv
      · rcases List.mem_append.1 hv with hv | hv
        · split at hv
          · exact List.mem_cons.2 (.inl (List.mem_singleton.1 hv))
          · cases hv
        · split at hv
          · exact List.mem_cons_of_mem _ (d.visits_subset owner lastChild hv)
          · cases hv
      · cases hv
    rw [hvisits, List.filter_append, List.map_append] at hnodup ⊢
    obtain ⟨hfirst, hlater, -⟩ := List.nodup_append'.1 hnodup
    -- all that is in one child of the root has it as its top, so at most one member is there
    have hsame : ∀ top ∈ (l.filter q).map (d.climb n), top = child := by
      intro top htop
      obtain ⟨v, hv, rfl⟩ := List.mem_map.1 htop
      exact climb_first hl hf (by omega) (hmem (List.mem_of_mem_filter hv))
    have hone : ((l.filter q).map (d.climb n)).Sublist [child] := by
      rw [List.eq_replicate_of_mem hsame] at hfirst ⊢
      exact List.replicate_sublist_replicate child |>.2 (List.nodup_replicate.1 hfirst)
    exact hone.append (ihs hl.2.2 hrest (by omega) hlater)

/-- Raises of the tops of some windows -/
theorem raiseAll_tops {members : List Nat} (h : members ⊆ d.lastChild.windows) :
    (members.foldl (fun d member => d.raise (d.topLevel member)) d).tops =
      (members.map d.topLevel).foldl moveLast d.tops := by
  induction members generalizing d with
  | nil => rfl
  | cons m members ih =>
    have hperm := Forest.windows_raise (d.topLevel m) d.lastChild
    have htops : members.map (d.raise (d.topLevel m)).topLevel = members.map d.topLevel :=
      List.map_congr_left fun v _ => topLevel_raise _ v
    rw [List.foldl_cons, List.map_cons, List.foldl_cons,
      ih fun v hv => hperm.mem_iff.2 (h (List.mem_cons_of_mem _ hv)), htops]
    congr 1
    exact Forest.tops_raise (topLevel_mem (h List.mem_cons_self))

end Desktop

/-! ## The activation -/

/-- `LorieWindowActivation` -/
structure LorieWindowActivation where
  members : List Nat
  focus : Nat
  truncated : Bool
  deriving DecidableEq, Repr

/-- `lorieWindowActivationAdd` -/
def lorieWindowActivationAdd (activation : LorieWindowActivation) (window : Nat) (modal : Bool) : LorieWindowActivation :=
  if activation.members.head? = some window then activation
  else if activation.members.length = 256 then { activation with truncated := true }
  else
    { activation with
      members := activation.members ++ [window]
      focus := if modal then window else activation.focus }

/-- What is collected from windows in their order, the owner first -/
theorem collect_eq (modal : Nat → Bool) (window : Nat) (l : List Nat) :
    l.foldl (fun activation w => lorieWindowActivationAdd activation w (modal w)) ⟨[window], window, false⟩ =
      ⟨window :: (l.filter (· ≠ window)).take 255, (((l.filter (· ≠ window)).take 255).filter modal).getLast?.getD window,
        decide (255 < (l.filter (· ≠ window)).length)⟩ := by
  induction l using List.reverseRecOn with
  | nil => rfl
  | append_singleton l w ih =>
    rw [List.foldl_append, ih, List.foldl_cons, List.foldl_nil, List.filter_append]
    generalize l.filter (· ≠ window) = others
    unfold lorieWindowActivationAdd
    by_cases hw : w = window
    · rw [if_pos (by rw [hw]; rfl), List.filter_cons_of_neg (by simpa using hw), List.filter_nil, List.append_nil]
    · rw [if_neg (by simpa using Ne.symm hw), List.filter_cons_of_pos (by simpa using hw), List.filter_nil]
      by_cases hfull : 255 ≤ others.length
      · rw [if_pos (by simp; omega), List.take_append_of_le_length hfull]
        congr 1
        simp
        omega
      · have htake : (others ++ [w]).take 255 = others ++ [w] := List.take_of_length_le (by simp; omega)
        rw [if_neg (by simp; omega), htake, List.take_of_length_le (by omega)]
        cases hm : modal w <;> simp [hm]
        all_goals omega

namespace Desktop

/-- `lorieWindowActivationApply` -/
def lorieWindowActivationApply (d : Desktop) (activation : LorieWindowActivation) : Desktop × Option Nat :=
  if activation.truncated then (d, none)
  else (activation.members.foldl (fun d member => d.raise (d.topLevel member)) d, some activation.focus)

variable (d : Desktop)

def modal (w : Nat) : Bool := d.hasAtom w .netWmState .modal

/-- `collectActivation` -/
def collectActivation (activation : LorieWindowActivation) (window : Nat) : LorieWindowActivation :=
  lorieWindowActivationAdd activation window (d.modal window)

/-- The activation of a window, collected. -/
def activation (window : Nat) : LorieWindowActivation :=
  lorieWindowFamily (fun _ => d) window d.collectActivation ⟨[window], window, false⟩

/-- The members of the family that are collected: the owner, and the others back to front. -/
def members (window : Nat) : List Nat := window :: (d.family window).filter (· ≠ window)

theorem activation_eq (window : Nat) :
    d.activation window = ⟨(d.members window).take 256, (((d.members window).take 256).filter d.modal).getLast?.getD window,
      decide (256 < (d.members window).length)⟩ := by
  unfold activation
  rw [visitFamily_eq fun _ _ => Moved.refl d]
  refine (collect_eq d.modal window (d.family window)).trans ?_
  unfold members
  rw [List.take_succ_cons, List.filter_cons]
  congr 1
  · cases hm : d.modal window with
    | false => rfl
    | true =>
      rw [if_pos rfl, List.getLast?_cons]
      cases (((d.family window).filter (· ≠ window)).take 255 |>.filter d.modal).getLast? <;> rfl
  · rw [List.length_cons]
    exact decide_eq_decide.2 (by omega)

/-- What a call leaves: `SetInputFocus`, the message `WM_TAKE_FOCUS` and `lorieShellGeometryChanged`. -/
structure Focused where
  desktop : Desktop
  /-- The window that is to have the focus. -/
  target : Option Nat
  inputFocus : Option Nat
  takeFocus : Option Nat
  geometryChanged : Bool

/-- The input hint of `WM_HINTS` -/
def accepts (window : Nat) : Bool :=
  match property (d.heap window).toWindow .wmHints with
  | none => true
  | some hints =>
    hints.format ≠ 32 || hints.size < 2 || !(hints.data.getD 0 0).testBit 0 || hints.data.getD 1 0 ≠ 0

/-- The guards of `lorieWindowFocus`; `grabbed`: a keyboard has a grab. -/
def activates (window : Nat) (grabbed : Bool) : Bool :=
  (d.heap window).realized && !grabbed &&
    match d.focus with
    | some focus => !d.lorieWindowBelongsTo focus window
    | none => true

/-- `lorieWindowFocus`; `takesFocus`: the window has the protocol `WM_TAKE_FOCUS`. -/
def lorieWindowFocus (takesFocus : Nat → Bool) (window : Nat) (grabbed : Bool) : Focused :=
  if d.activates window grabbed then
    match d.lorieWindowActivationApply (d.activation window) with
    | (e, some target) =>
      { desktop := e
        target := some target
        inputFocus := if e.accepts target then some target else none
        takeFocus := if takesFocus target then some target else none
        geometryChanged := true }
    | (e, none) => ⟨e, none, none, none, false⟩
  else ⟨d, none, none, none, false⟩

/-- The tops of the members are in the stacking order, behind the owner's. -/
theorem members_restack {window : Nat} (hw : window ∈ d.lastChild.windows) (hnodup : ((d.members window).map d.topLevel).Nodup) :
    ((d.members window).foldl (fun d member => d.raise (d.topLevel member)) d).tops =
      d.tops.filter (· ∉ (d.members window).map d.topLevel) ++ d.topLevel window ::
        d.tops.filter (· ∈ (d.members window).tail.map d.topLevel) := by
  have hmem : d.members window ⊆ d.lastChild.windows := by
    intro v hv
    rcases List.mem_cons.1 hv with rfl | hv
    · exact hw
    · exact d.family_subset window (List.mem_of_mem_filter hv)
  have htops : (d.members window).map d.topLevel ⊆ d.tops := by
    intro top htop
    obtain ⟨v, hv, rfl⟩ := List.mem_map.1 htop
    exact topLevel_mem (hmem hv)
  have hothers : ((d.members window).tail.map d.topLevel).Sublist d.tops :=
    visits_tops window _ d.linked (List.Subset.refl _) (Nat.le_refl _) (List.nodup_cons.1 hnodup).2
  rw [raiseAll_tops hmem, foldl_moveLast tops_nodup hnodup htops]
  congr 1
  exact congrArg (d.topLevel window :: ·) (eq_filter_of_sublist hothers tops_nodup)

/-- **A family is restacked as a block.** The tops of a family that is activated are above all others: the owner's, then
those of the other members in their order; the last modal member gets the focus, or the owner. A family of more than 256
members stays as it is. -/
theorem activation_restacks (takesFocus : Nat → Bool) {window : Nat} {grabbed : Bool} (hw : window ∈ d.lastChild.windows)
    (h : d.activates window grabbed) :
    ((d.members window).length ≤ 256 → ((d.members window).map d.topLevel).Nodup →
      (d.lorieWindowFocus takesFocus window grabbed).desktop.tops =
          d.tops.filter (· ∉ (d.members window).map d.topLevel) ++ d.topLevel window ::
            d.tops.filter (· ∈ (d.members window).tail.map d.topLevel) ∧
        (d.lorieWindowFocus takesFocus window grabbed).target =
          some (((d.members window).filter d.modal).getLast?.getD window)) ∧
      (256 < (d.members window).length → d.lorieWindowFocus takesFocus window grabbed = ⟨d, none, none, none, false⟩) := by
  unfold lorieWindowFocus lorieWindowActivationApply
  rw [if_pos h, activation_eq]
  dsimp only
  constructor
  · intro hlength hnodup
    rw [List.take_of_length_le hlength, if_neg (by simpa using hlength)]
    exact ⟨d.members_restack hw hnodup, rfl⟩
  · intro hlength
    rw [if_pos (by simpa using hlength)]

/-- From back to front: the frame 31 of the dialog 32, a window 41 of another client, the owner 21 and a window 42 -/
def buriedDesktop : Desktop where
  atom := Name.ctorIdx
  managerWindow := some 2
  focus := some 42
  root := 1
  lastChild := .node 31 (.node 32 .nil .nil) (.node 41 .nil (.node 21 .nil (.node 42 .nil .nil)))
  heap := fun w =>
    { id := w
      parent := if w = 32 then 31 else if w = 1 then 0 else 1
      inputOutput := true
      overrideRedirect := false
      realized := true
      x := 3
      y := 5
      width := 70
      height := 90
      properties := fun
        | .wmTransientFor => if w = 32 then some ⟨Name.ctorIdx .window, 32, [21]⟩ else none
        | .netWmState => if w = 32 then some ⟨Name.ctorIdx .atom, 32, [Name.ctorIdx .modal]⟩ else none
        | _ => none
      number := w
      wasRealized := true
      originX := 0
      originY := 0
      borderWidth := 0
      considered := false }
  linked := ⟨rfl, ⟨rfl, trivial, trivial⟩, rfl, trivial, rfl, trivial, rfl, trivial, trivial⟩
  nodup := by decide
  nonzero := by decide
  parent_root := rfl

theorem activation_restacks_buried :
    (buriedDesktop.lorieWindowFocus (fun _ => false) 21 false).desktop.tops = [41, 42, 21, 31] ∧
      (buriedDesktop.lorieWindowFocus (fun _ => false) 21 false).target = some 32 := by
  have h := @activation_restacks buriedDesktop (fun _ => false) 21 false (by decide) (by decide)
  obtain ⟨htops, htarget⟩ := h.1 (by decide) (by decide)
  exact ⟨htops.trans (by decide), htarget.trans (by decide)⟩

end Desktop

end Lorie.Windows
