import Lorie.Windows.Family
import Mathlib.Data.List.Pairwise

/-!
# What is composed for a window

The windows that `lorieWindowFamily` visits: each member that is shown on its own once, from the lowest to the highest. What
is inside a member is in its pixmap already.

- `mem_visits`: the visited windows by what is true of them and of the windows around them;
- `visits_lower`: they come from back to front;
- `family_composed`: both for the whole tree, and for every visitor that does no more than move windows.
-/

namespace Lorie.Windows

namespace Forest

/-- In the lower of two subtrees of siblings. -/
def Lower (v w : Nat) : Forest → Prop
  | nil => False
  | node window lastChild prevSib =>
    (v ∈ window :: lastChild.windows ∧ w ∈ prevSib.windows) ∨ lastChild.Lower v w ∨ prevSib.Lower v w

section Node

variable {window : Nat} {lastChild prevSib : Forest} (h : (node window lastChild prevSib).windows.Nodup)

include h

/-- Where a window is: at the node, below it, or next to it. -/
theorem nodup_node : lastChild.windows.Nodup ∧ prevSib.windows.Nodup ∧ window ∉ lastChild.windows ∧
    window ∉ prevSib.windows ∧ lastChild.windows.Disjoint prevSib.windows := by
  obtain ⟨hwindow, hrest⟩ := List.nodup_cons.1 h
  obtain ⟨hlast, hprev, hdisjoint⟩ := List.nodup_append'.1 hrest
  exact ⟨hlast, hprev, fun hw => hwindow (List.mem_append_left _ hw), fun hw => hwindow (List.mem_append_right _ hw),
    hdisjoint⟩

theorem mem_subtree_node (a : Nat) : window ∈ (node window lastChild prevSib).subtree a ↔ a = window := by
  obtain ⟨-, -, hlast, hprev, -⟩ := nodup_node h
  unfold subtree
  split
  · rename_i ha
    exact iff_of_true List.mem_cons_self ha.symm
  · rename_i ha
    refine iff_of_false (fun hmem => ?_) fun e => ha e.symm
    rcases List.mem_append.1 hmem with hmem | hmem
    · exact hlast (subtree_subset _ _ hmem)
    · exact hprev (subtree_subset _ _ hmem)

theorem mem_subtree_child {w : Nat} (hw : w ∈ lastChild.windows) (a : Nat) :
    w ∈ (node window lastChild prevSib).subtree a ↔ a = window ∨ w ∈ lastChild.subtree a := by
  obtain ⟨-, -, -, -, hdisjoint⟩ := nodup_node h
  by_cases ha : window = a
  · rw [subtree, if_pos ha]
    exact iff_of_true (List.mem_cons_of_mem _ hw) (.inl ha.symm)
  · rw [subtree, if_neg ha, or_iff_right fun e => ha e.symm, List.mem_append, or_iff_left]
    exact fun hmem => hdisjoint hw (subtree_subset _ _ hmem)

theorem mem_subtree_next {w : Nat} (hw : w ∈ prevSib.windows) (a : Nat) :
    w ∈ (node window lastChild prevSib).subtree a ↔ w ∈ prevSib.subtree a := by
  obtain ⟨-, -, -, hprev, hdisjoint⟩ := nodup_node h
  by_cases ha : window = a
  · subst ha
    rw [subtree, if_pos rfl, subtree_eq_nil hprev]
    refine iff_of_false (fun hmem => ?_) List.not_mem_nil
    rcases List.mem_cons.1 hmem with rfl | hmem
    · exact hprev hw
    · exact hdisjoint hmem hw
  · rw [subtree, if_neg ha, List.mem_append, or_iff_right]
    exact fun hmem => hdisjoint (subtree_subset _ _ hmem) hw

end Node

theorem mem_subtree_self {f : Forest} (hf : f.windows.Nodup) {w : Nat} (hw : w ∈ f.windows) : w ∈ f.subtree w := by
  induction f with
  | nil => cases hw
  | node window lastChild prevSib ihc ihs =>
    obtain ⟨hlast, hprev, -⟩ := nodup_node hf
    rcases List.mem_cons.1 hw with rfl | hw
    · exact (mem_subtree_node hf w).2 rfl
    · rcases List.mem_append.1 hw with hw | hw
      · exact (mem_subtree_child hf hw w).2 (.inr (ihc hlast hw))
      · exact (mem_subtree_next hf hw w).2 (ihs hprev hw)

end Forest

namespace Desktop

variable {d : Desktop} {owner : Nat}

/-- The window is the owner, or a member of its family. -/
def Belongs (d : Desktop) (owner w : Nat) : Prop := w = owner ∨ d.familyMember w owner = true

/-- A window that is visited among some windows and what is below them. -/
structure Separate (d : Desktop) (owner : Nat) (f : Forest) (w : Nat) : Prop where
  mem : w ∈ f.windows
  realized : ∀ a, w ∈ f.subtree a → (d.heap a).realized = true
  inputOutput : (d.heap w).inputOutput = true
  member : d.familyMember w owner = true
  /-- Nothing around it belongs to the family. -/
  outermost : ∀ a, a ≠ w → w ∈ f.subtree a → ¬d.Belongs owner a

/-- The visits follow the order of the tree. -/
theorem visits_sublist (d : Desktop) (owner : Nat) (f : Forest) : (d.visits owner f).Sublist f.windows := by
  induction f with
  | nil => exact List.Sublist.refl _
  | node window lastChild prevSib ihc ihs =>
    unfold visits
    rw [show (Forest.node window lastChild prevSib).windows = ([window] ++ lastChild.windows) ++ prevSib.windows from rfl]
    refine List.Sublist.append ?_ ihs
    split
    · refine List.Sublist.append ?_ ?_
      · split
        · exact List.Sublist.refl _
        · exact List.nil_sublist _
      · split
        · exact ihc
        · exact List.nil_sublist _
    · exact List.nil_sublist _

section Separate

variable {window w : Nat} {lastChild prevSib : Forest} (h : (Forest.node window lastChild prevSib).windows.Nodup)

include h

theorem separate_node : Separate d owner (.node window lastChild prevSib) window ↔
    (d.heap window).realized = true ∧ (d.heap window).inputOutput = true ∧ d.familyMember window owner = true := by
  constructor
  · exact fun hs => ⟨hs.realized window ((Forest.mem_subtree_node h window).2 rfl), hs.inputOutput, hs.member⟩
  · rintro ⟨hrealized, hio, hmember⟩
    refine ⟨List.mem_cons_self, fun a ha => ?_, hio, hmember, fun a hne ha => ?_⟩
    · rw [(Forest.mem_subtree_node h a).1 ha]
      exact hrealized
    · exact absurd ((Forest.mem_subtree_node h a).1 ha) hne

theorem separate_child (hw : w ∈ lastChild.windows) : Separate d owner (.node window lastChild prevSib) w ↔
    (d.heap window).realized = true ∧ ¬d.Belongs owner window ∧ Separate d owner lastChild w := by
  have hsub := Forest.mem_subtree_child h hw
  have hne : window ≠ w := fun e => (Forest.nodup_node h).2.2.1 (e ▸ hw)
  constructor
  · intro hs
    refine ⟨hs.realized window ((hsub window).2 (.inl rfl)), hs.outermost window hne ((hsub window).2 (.inl rfl)), hw, ?_,
      hs.inputOutput, hs.member, ?_⟩
    · exact fun a ha => hs.realized a ((hsub a).2 (.inr ha))
    · exact fun a hne ha => hs.outermost a hne ((hsub a).2 (.inr ha))
  · rintro ⟨hrealized, hbelongs, hs⟩
    refine ⟨List.mem_cons_of_mem _ (List.mem_append_left _ hw), fun a ha => ?_, hs.inputOutput, hs.member, fun a hne ha => ?_⟩
    · rcases (hsub a).1 ha with rfl | ha
      · exact hrealized
      · exact hs.realized a ha
    · rcases (hsub a).1 ha with rfl | ha
      · exact hbelongs
      · exact hs.outermost a hne ha

theorem separate_next (hw : w ∈ prevSib.windows) :
    Separate d owner (.node window lastChild prevSib) w ↔ Separate d owner prevSib w := by
  have hsub := Forest.mem_subtree_next h hw
  constructor
  · intro hs
    exact ⟨hw, fun a ha => hs.realized a ((hsub a).2 ha), hs.inputOutput, hs.member,
      fun a hne ha => hs.outermost a hne ((hsub a).2 ha)⟩
  · intro hs
    exact ⟨List.mem_cons_of_mem _ (List.mem_append_right _ hw), fun a ha => hs.realized a ((hsub a).1 ha), hs.inputOutput,
      hs.member, fun a hne ha => hs.outermost a hne ((hsub a).1 ha)⟩

end Separate

theorem mem_visits_node {window : Nat} {lastChild prevSib : Forest} (w : Nat) :
    w ∈ d.visits owner (.node window lastChild prevSib) ↔
      ((d.heap window).realized = true ∧
        ((w = window ∧ (d.heap window).inputOutput = true ∧ d.familyMember window owner = true) ∨
          (¬d.Belongs owner window ∧ w ∈ d.visits owner lastChild))) ∨ w ∈ d.visits owner prevSib := by
  unfold Belongs
  rw [visits, List.mem_append]
  refine or_congr_left ?_
  cases (d.heap window).realized with
  | false => simp
  | true =>
    cases (d.heap window).inputOutput <;> cases d.familyMember window owner <;> by_cases ho : window = owner <;> simp [ho]

/-- **The visited windows**: the realized members with pixels that are in no other member and not in the owner. -/
theorem mem_visits {f : Forest} (hf : f.windows.Nodup) (w : Nat) : w ∈ d.visits owner f ↔ Separate d owner f w := by
  induction f with
  | nil => exact iff_of_false List.not_mem_nil fun h => List.not_mem_nil h.mem
  | node window lastChild prevSib ihc ihs =>
    obtain ⟨hlast, hprev, hwl, hwp, hdisjoint⟩ := Forest.nodup_node hf
    rw [mem_visits_node, ihc hlast, ihs hprev]
    constructor
    · rintro (⟨hrealized, ⟨rfl, hio, hmember⟩ | ⟨hbelongs, hs⟩⟩ | hs)
      · exact (separate_node hf).2 ⟨hrealized, hio, hmember⟩
      · exact (separate_child hf hs.mem).2 ⟨hrealized, hbelongs, hs⟩
      · exact (separate_next hf hs.mem).2 hs
    · intro hs
      rcases List.mem_cons.1 hs.mem with rfl | hw
      · obtain ⟨hrealized, hio, hmember⟩ := (separate_node hf).1 hs
        exact .inl ⟨hrealized, .inl ⟨rfl, hio, hmember⟩⟩
      · rcases List.mem_append.1 hw with hw | hw
        · obtain ⟨hrealized, hbelongs, hs⟩ := (separate_child hf hw).1 hs
          exact .inl ⟨hrealized, .inr ⟨hbelongs, hs⟩⟩
        · exact .inr ((separate_next hf hw).1 hs)

/-- **The visits go from back to front.** -/
theorem visits_lower (d : Desktop) (owner : Nat) (f : Forest) : (d.visits owner f).Pairwise (f.Lower · ·) := by
  induction f with
  | nil => exact List.Pairwise.nil
  | node window lastChild prevSib ihc ihs =>
    have hlast : (d.visits owner lastChild).Pairwise ((Forest.node window lastChild prevSib).Lower · ·) :=
      ihc.imp fun h => .inr (.inl h)
    have hprev : (d.visits owner prevSib).Pairwise ((Forest.node window lastChild prevSib).Lower · ·) :=
      ihs.imp fun h => .inr (.inr h)
    have hnext : ∀ v, v ∈ window :: lastChild.windows → ∀ w ∈ d.visits owner prevSib,
        (Forest.node window lastChild prevSib).Lower v w :=
      fun v hv w hw => .inl ⟨hv, d.visits_subset owner prevSib hw⟩
    -- the window or what is below it, never both
    have hhead : ∀ l : List Nat, (l = [] ∨ l = [window] ∨ l = d.visits owner lastChild) →
        (l ++ d.visits owner prevSib).Pairwise ((Forest.node window lastChild prevSib).Lower · ·) := by
      rintro l (rfl | rfl | rfl)
      · exact hprev
      · refine List.pairwise_cons.2 ⟨hnext window List.mem_cons_self, hprev⟩
      · refine List.pairwise_append.2 ⟨hlast, hprev, fun v hv => ?_⟩
        exact hnext v (List.mem_cons_of_mem _ (d.visits_subset owner lastChild hv))
    rw [visits]
    refine hhead _ ?_
    cases (d.heap window).realized with
    | false => exact .inl rfl
    | true =>
      cases (d.heap window).inputOutput <;> cases d.familyMember window owner <;> by_cases ho : window = owner <;> simp [ho]

/-! ## The whole tree -/

/-- A window below another. -/
def Inside (d : Desktop) (w a : Nat) : Prop := a ≠ w ∧ w ∈ d.lastChild.subtree a

/-- A window is realized in a realized parent only, as the server keeps it. -/
def Shown (d : Desktop) : Prop :=
  ∀ w ∈ d.lastChild.windows, (d.heap w).realized = true → (d.heap w).parent ≠ d.root →
    (d.heap (d.heap w).parent).realized = true

/-- What contains a realized window is realized. -/
theorem Shown.realized_parent (h : d.Shown) {f : Forest} {node : Nat} (hl : f.Linked (fun w => (d.heap w).parent) node)
    (hnode : node ≠ d.root) (hf : f.windows ⊆ d.lastChild.windows) {w : Nat} (hw : w ∈ f.windows)
    (hr : (d.heap w).realized = true) : (d.heap node).realized = true := by
  induction f generalizing node with
  | nil => cases hw
  | node window lastChild prevSib ihc ihs =>
    obtain ⟨hp, hc, hs⟩ := hl
    dsimp only at hp
    have hmem : window ∈ d.lastChild.windows := hf List.mem_cons_self
    have hstep : (d.heap window).realized = true → (d.heap node).realized = true := by
      intro hwindow
      rw [← hp]
      exact h window hmem hwindow (hp ▸ hnode)
    rcases List.mem_cons.1 hw with rfl | hw
    · exact hstep hr
    · rcases List.mem_append.1 hw with hw | hw
      · refine hstep (ihc hc (fun e => (List.nodup_cons.1 d.nodup).1 (e ▸ hmem)) (fun v hv => ?_) hw)
        exact hf (List.mem_cons_of_mem _ (List.mem_append_left _ hv))
      · exact ihs hs hnode (fun v hv => hf (List.mem_cons_of_mem _ (List.mem_append_right _ hv))) hw

theorem Shown.realized_subtree (h : d.Shown) {f : Forest} {node : Nat} (hl : f.Linked (fun w => (d.heap w).parent) node)
    (hnodup : f.windows.Nodup) (hf : f.windows ⊆ d.lastChild.windows) {w a : Nat} (hr : (d.heap w).realized = true)
    (hw : w ∈ f.subtree a) : (d.heap a).realized = true := by
  induction f generalizing node with
  | nil => cases hw
  | node window lastChild prevSib ihc ihs =>
    obtain ⟨-, hc, hs⟩ := hl
    obtain ⟨hlast, hprev, -⟩ := Forest.nodup_node hnodup
    have hmem : window ∈ d.lastChild.windows := hf List.mem_cons_self
    have hfc : lastChild.windows ⊆ d.lastChild.windows := fun v hv =>
      hf (List.mem_cons_of_mem _ (List.mem_append_left _ hv))
    have hfs : prevSib.windows ⊆ d.lastChild.windows := fun v hv =>
      hf (List.mem_cons_of_mem _ (List.mem_append_right _ hv))
    rcases List.mem_cons.1 (Forest.subtree_subset a _ hw) with rfl | hin
    · rw [(Forest.mem_subtree_node hnodup a).1 hw]
      exact hr
    · rcases List.mem_append.1 hin with hin | hin
      · rcases (Forest.mem_subtree_child hnodup hin a).1 hw with rfl | hw
        · exact h.realized_parent hc (fun e => (List.nodup_cons.1 d.nodup).1 (e ▸ hmem)) hfc hin hr
        · exact ihc hc hlast hfc hw
      · exact ihs hs hprev hfs ((Forest.mem_subtree_next hnodup hin a).1 hw)

/-- **What is composed for the owner**: each member that is inside no other member and not inside the owner, once, from back
to front, by every visitor that leaves the tree as it is. -/
theorem family_composed (d : Desktop) (owner : Nat) (h : d.Shown) :
    (∀ {σ : Type} (desktop : σ → Desktop) (visit : σ → Nat → σ),
      (∀ s w, Moved (desktop s) (desktop (visit s w))) → ∀ s, desktop s = d →
        lorieWindowFamily desktop owner visit s = (d.family owner).foldl visit s) ∧
    (d.family owner).Nodup ∧
    (∀ w, w ∈ d.family owner ↔ w ∈ d.lastChild.windows ∧ (d.heap w).realized = true ∧ (d.heap w).inputOutput = true ∧
      d.familyMember w owner = true ∧ ∀ a, d.Inside w a → ¬(a = owner ∨ d.familyMember a owner = true)) ∧
    (d.family owner).Pairwise (d.lastChild.Lower · ·) ∧
    ∀ v ∈ d.family owner, ∀ w ∈ d.family owner, ¬d.Inside v w := by
  have hnodup : d.lastChild.windows.Nodup := (List.nodup_cons.1 d.nodup).2
  have hmem : ∀ w, w ∈ d.family owner ↔ Separate d owner d.lastChild w := fun w => mem_visits hnodup w
  refine ⟨fun desktop visit hmoved s hs => ?_, (d.visits_sublist owner d.lastChild).nodup hnodup, fun w => ?_,
    d.visits_lower owner d.lastChild, fun v hv w hw hin => ?_⟩
  · rw [visitFamily_eq hmoved, hs]
  · rw [hmem]
    constructor
    · intro hs
      have hself : w ∈ d.lastChild.subtree w := Forest.mem_subtree_self hnodup hs.mem
      exact ⟨hs.mem, hs.realized w hself, hs.inputOutput, hs.member, fun a ha => hs.outermost a ha.1 ha.2⟩
    · rintro ⟨hw, hrealized, hio, hmember, hout⟩
      exact ⟨hw, fun a ha => h.realized_subtree d.linked hnodup (List.Subset.refl _) hrealized ha, hio, hmember,
        fun a hne ha => hout a ⟨hne, ha⟩⟩
  · exact ((hmem v).1 hv).outermost w hin.1 hin.2 (.inr ((hmem w).1 hw).member)

/-! ## A window with a dialog -/

/-- The root 1, the client 11 in the frame 10, and its dialog 20 with a child -/
def transientDesktop : Desktop where
  atom := Name.ctorIdx
  managerWindow := none
  focus := none
  root := 1
  lastChild := .node 10 (.node 11 .nil .nil) (.node 20 (.node 21 .nil .nil) .nil)
  heap := fun w =>
    { id := w
      parent := if w = 10 ∨ w = 20 then 1 else if w = 11 then 10 else if w = 21 then 20 else 0
      inputOutput := true
      overrideRedirect := false
      realized := true
      x := 0
      y := 0
      width := 100
      height := 80
      properties := fun
        | .wmTransientFor => if w = 20 then some ⟨Name.ctorIdx .window, 32, [11]⟩ else none
        | _ => none
      number := 0
      wasRealized := true
      originX := 0
      originY := 0
      borderWidth := 0
      considered := false }
  linked := ⟨rfl, ⟨rfl, trivial, trivial⟩, rfl, ⟨rfl, trivial, trivial⟩, trivial⟩
  nodup := by decide
  nonzero := by decide
  parent_root := rfl

/-- The child of the dialog is a member too, and is drawn with the dialog. -/
theorem family_composed_transient :
    (transientDesktop.family 11).Nodup ∧ transientDesktop.family 11 = [11, 20] ∧
      transientDesktop.familyMember 21 11 = true :=
  ⟨(family_composed transientDesktop 11 fun _ _ _ _ => rfl).2.1, by decide, by decide⟩

end Desktop

end Lorie.Windows
