import Lorie.Windows.Properties
import Mathlib.Data.List.Nodup

/-!
# The family of a window

The windows of a screen as a tree, and the family of one of them: the windows that belong to it through their ancestors and
the transient links of these, and the group transients and popups of its client while it has the focus
(`window_family.h`, `window_model.c`). The walk over the tree visits the members that are shown on their own.

- `lorieWindowFamilyContains`, `familyMember`, `lorieWindowFamily`: the functions of the source;
- `visitFamily_eq`: a walk that only moves windows is a fold over `family`, the windows that it visits;
- `topLevel`: the child of the root above a window, and `mem_subtree_topLevel`: what moves with it.
-/

namespace Lorie.Windows

/-! ## The tree -/

/-- The children of a window from `lastChild` along `prevSib`, each with its own children. -/
inductive Forest where
  | nil
  | node (window : Nat) (lastChild prevSib : Forest)
  deriving DecidableEq, Repr

namespace Forest

def windows : Forest → List Nat
  | nil => []
  | node window lastChild prevSib => window :: (lastChild.windows ++ prevSib.windows)

/-- A window and what is below it. -/
def subtree (a : Nat) : Forest → List Nat
  | nil => []
  | node window lastChild prevSib =>
    if window = a then window :: lastChild.windows else lastChild.subtree a ++ prevSib.subtree a

/-- Each window has its parent. -/
def Linked (parent : Nat → Nat) (node : Nat) : Forest → Prop
  | nil => True
  | .node window lastChild prevSib =>
    parent window = node ∧ lastChild.Linked parent window ∧ prevSib.Linked parent node

theorem subtree_subset (a : Nat) (f : Forest) : f.subtree a ⊆ f.windows := by
  induction f with
  | nil => exact List.Subset.refl _
  | node window lastChild prevSib ihc ihs =>
    intro w hw
    unfold subtree at hw
    unfold windows
    split at hw
    · rcases List.mem_cons.1 hw with hw | hw
      · exact List.mem_cons.2 (.inl hw)
      · exact List.mem_cons_of_mem _ (List.mem_append_left _ hw)
    · rcases List.mem_append.1 hw with hw | hw
      · exact List.mem_cons_of_mem _ (List.mem_append_left _ (ihc hw))
      · exact List.mem_cons_of_mem _ (List.mem_append_right _ (ihs hw))

theorem subtree_eq_nil {a : Nat} {f : Forest} (h : a ∉ f.windows) : f.subtree a = [] := by
  induction f with
  | nil => rfl
  | node window lastChild prevSib ihc ihs =>
    unfold windows at h
    rw [List.mem_cons, List.mem_append] at h
    unfold subtree
    rw [if_neg fun e => h (.inl e.symm), ihc fun hc => h (.inr (.inl hc)), ihs fun hs => h (.inr (.inr hs))]
    rfl

end Forest

/-- A `WindowRec` with its place in its parent and `initialPlacementKey`. -/
structure Surface extends Window where
  originX : Int
  originY : Int
  borderWidth : Int
  considered : Bool

/-- What changes when windows are moved, resized and placed. -/
structure Place where
  x : Int
  y : Int
  width : Int
  height : Int
  originX : Int
  originY : Int
  considered : Bool
  deriving DecidableEq, Repr

namespace Surface

def place (w : Surface) : Place := ⟨w.x, w.y, w.width, w.height, w.originX, w.originY, w.considered⟩

def put (w : Surface) (p : Place) : Surface :=
  { w with
    x := p.x
    y := p.y
    width := p.width
    height := p.height
    originX := p.originX
    originY := p.originY
    considered := p.considered }

end Surface

/-- The windows of a screen. A window is named by its number, and 0 is no window. -/
structure Desktop where
  /-- `MakeAtom` -/
  atom : Name → Nat
  managerWindow : Option Nat
  /-- The window with the focus of the keyboard, if there is one. -/
  focus : Option Nat
  /-- `pScreenPtr->root` -/
  root : Nat
  /-- The children of the root. -/
  lastChild : Forest
  heap : Nat → Surface
  linked : lastChild.Linked (fun w => (heap w).parent) root
  nodup : (root :: lastChild.windows).Nodup
  nonzero : 0 ∉ root :: lastChild.windows
  parent_root : (heap root).parent = 0

/-! ## The walk over ancestors and transient links -/

section Walk

variable {W : Type} [DecidableEq W] (parent transientFor : W → Option W) (owner root : W)

/-- `window && window != root` -/
def below (window : Option W) : Option W := window.filter (· ≠ root)

/-- The two loops of `lorieWindowFamilyContains`, at an ancestor, with the transient that was found. -/
def familyWalk : Nat → W → Option W → Bool
  | 0, _, _ => false
  | remaining + 1, ancestor, transient =>
    if ancestor = owner then true
    else
      let transient := transient <|> transientFor ancestor
      match below root (parent ancestor) with
      | some next => familyWalk remaining next transient
      | none =>
        match below root transient with
        | some window => familyWalk remaining window none
        | none => false

/-- `lorieWindowFamilyContains` -/
def lorieWindowFamilyContains (window : W) : Bool :=
  match below root (some window) with
  | some window => familyWalk parent transientFor owner root 64 window none
  | none => false

/-- Nothing belongs to the root. -/
theorem familyWalk_root (remaining : Nat) {ancestor : W} (transient : Option W) (h : ancestor ≠ root) :
    familyWalk parent transientFor root root remaining ancestor transient = false := by
  have hbelow : ∀ {w : Option W} {v : W}, below root w = some v → v ≠ root := by
    intro w v hv
    exact of_decide_eq_true (Option.filter_eq_some_iff.1 hv).2
  induction remaining generalizing ancestor transient with
  | zero => rfl
  | succ remaining ih =>
    unfold familyWalk
    rw [if_neg h]
    dsimp only
    split
    · rename_i next hnext
      exact ih _ (hbelow hnext)
    · split
      · rename_i window hwindow
        exact ih _ (hbelow hwindow)
      · rfl

theorem familyContains_root (window : W) : lorieWindowFamilyContains parent transientFor root root window = false := by
  unfold lorieWindowFamilyContains
  split
  · rename_i w hw
    exact familyWalk_root parent transientFor root 64 none (of_decide_eq_true (Option.filter_eq_some_iff.1 hw).2)
  · rfl

end Walk

namespace Desktop

variable (d : Desktop)

/-! ## Members -/

/-- All windows of the screen -/
def windows : List Nat := d.root :: d.lastChild.windows

/-- The pointer `parent` of a window. -/
def parent (w : Nat) : Option Nat := if (d.heap w).parent = 0 then none else some (d.heap w).parent

/-- `lookup` -/
def lookup (id : Nat) : Option Nat := if id ≠ 0 ∧ id ∈ d.windows then some id else none

def reference (w : Nat) (name : Name) : Nat := Windows.reference d.atom (d.heap w).toWindow name

def hasAtom (w : Nat) (name item : Name) : Bool := Windows.hasAtom d.atom (d.heap w).toWindow name item

/-- `transientFor` -/
def transientFor (w : Nat) : Option Nat := d.lookup (d.reference w .wmTransientFor)

/-- `lorieWindowBelongsTo` -/
def lorieWindowBelongsTo (w owner : Nat) : Bool :=
  lorieWindowFamilyContains d.parent d.transientFor owner d.root w

/-- `familyMember` -/
def familyMember (w owner : Nat) : Bool :=
  if d.lorieWindowBelongsTo w owner then true
  else
    -- Group transients and unparented popups follow the focused member, never all windows of a process.
    let transient := d.reference w .wmTransientFor
    if transient ≠ 0 ∧ transient ≠ d.root then false
    else if !(d.heap w).overrideRedirect ∧ !d.hasAtom w .netWmState .modal then false
    else
      let group := d.reference w .wmClientLeader
      if group = 0 ∨ group ≠ d.reference owner .wmClientLeader then false
      else
        match d.focus with
        | some focus => d.lorieWindowBelongsTo focus owner
        | none => false

theorem familyMember_root (w : Nat) : d.familyMember w d.root = false := by
  have hbelongs : ∀ w, d.lorieWindowBelongsTo w d.root = false := fun w => familyContains_root _ _ _ _
  unfold familyMember
  rw [hbelongs]
  dsimp only
  rw [if_neg Bool.false_ne_true]
  split
  · rfl
  · split
    · rfl
    · split
      · rfl
      · split
        · exact hbelongs _
        · rfl

/-! ## The walk over the tree -/

section Visit

variable {σ : Type} (desktop : σ → Desktop) (owner : Nat) (visit : σ → Nat → σ)

/-- `visitFamily` over the children of a node -/
def visitFamily : Forest → σ → σ
  | .nil, s => s
  | .node child lastChild prevSib, s =>
    let s :=
      if !((desktop s).heap child).realized then s
      else
        let s := if ((desktop s).heap child).inputOutput ∧ (desktop s).familyMember child owner then visit s child else s
        -- Children are already in their parent's pixmap.
        if child ≠ owner ∧ !(desktop s).familyMember child owner then visitFamily lastChild s else s
    visitFamily prevSib s

/-- `lorieWindowFamily` -/
def lorieWindowFamily (s : σ) : σ := visitFamily desktop owner visit (desktop s).lastChild s

end Visit

/-- The windows that the walk visits, in its order. -/
def visits (owner : Nat) : Forest → List Nat
  | .nil => []
  | .node child lastChild prevSib =>
    (if (d.heap child).realized then
      (if (d.heap child).inputOutput ∧ d.familyMember child owner then [child] else []) ++
        (if child ≠ owner ∧ !d.familyMember child owner then visits owner lastChild else [])
    else []) ++ visits owner prevSib

/-- The members of the family that are shown on their own, back to front. -/
def family (owner : Nat) : List Nat := d.visits owner d.lastChild

theorem visits_subset (owner : Nat) (f : Forest) : d.visits owner f ⊆ f.windows := by
  induction f with
  | nil => exact List.Subset.refl _
  | node child lastChild prevSib ihc ihs =>
    intro w hw
    unfold visits at hw
    unfold Forest.windows
    rcases List.mem_append.1 hw with hw | hw
    · split at hw
      · rcases List.mem_append.1 hw with hw | hw
        · split at hw
          · exact List.mem_cons.2 (.inl (List.mem_singleton.1 hw))
          · cases hw
        · split at hw
          · exact List.mem_cons_of_mem _ (List.mem_append_left _ (ihc hw))
          · cases hw
      · cases hw
    · exact List.mem_cons_of_mem _ (List.mem_append_right _ (ihs hw))

theorem family_subset (owner : Nat) : d.family owner ⊆ d.lastChild.windows := d.visits_subset owner d.lastChild

/-- The root has no family. -/
theorem visits_root (f : Forest) : d.visits d.root f = [] := by
  induction f with
  | nil => rfl
  | node child lastChild prevSib ihc ihs =>
    unfold visits
    rw [ihc, ihs, d.familyMember_root]
    simp

/-! ## Windows that move -/

/-- The windows get other places. -/
def put (p : Nat → Place) : Desktop :=
  { d with heap := fun w => (d.heap w).put (p w), linked := d.linked, parent_root := d.parent_root }

@[simp] theorem put_place (p : Nat → Place) (w : Nat) : ((d.put p).heap w).place = p w := rfl

/-- The desktop with the windows at other places. -/
def Moved (d e : Desktop) : Prop := ∃ p, e = d.put p

theorem Moved.refl (d : Desktop) : Moved d d := ⟨fun w => (d.heap w).place, rfl⟩

theorem Moved.trans {d e f : Desktop} (h : Moved d e) (h' : Moved e f) : Moved d f := by
  obtain ⟨p, rfl⟩ := h
  obtain ⟨q, rfl⟩ := h'
  exact ⟨q, rfl⟩

section Moved

variable {d e : Desktop}

theorem Moved.root (h : Moved d e) : e.root = d.root := by
  obtain ⟨p, rfl⟩ := h
  rfl

theorem Moved.lastChild (h : Moved d e) : e.lastChild = d.lastChild := by
  obtain ⟨p, rfl⟩ := h
  rfl

theorem Moved.windows (h : Moved d e) : e.windows = d.windows := by
  obtain ⟨p, rfl⟩ := h
  rfl

theorem Moved.constraints (h : Moved d e) (w : Nat) :
    lorieWindowConstraints e.atom (e.heap w).toWindow = lorieWindowConstraints d.atom (d.heap w).toWindow := by
  obtain ⟨p, rfl⟩ := h
  rfl

theorem Moved.familyMember (h : Moved d e) (w owner : Nat) : e.familyMember w owner = d.familyMember w owner := by
  obtain ⟨p, rfl⟩ := h
  rfl

theorem Moved.visits (h : Moved d e) (owner : Nat) (f : Forest) : e.visits owner f = d.visits owner f := by
  obtain ⟨p, rfl⟩ := h
  induction f with
  | nil => rfl
  | node child lastChild prevSib ihc ihs =>
    unfold Desktop.visits
    rw [ihc, ihs]
    rfl

theorem Moved.family (h : Moved d e) (owner : Nat) : e.family owner = d.family owner := by
  unfold Desktop.family
  rw [h.lastChild, h.visits]

end Moved

section Visit

variable {σ : Type} {desktop : σ → Desktop} {visit : σ → Nat → σ}

/-- Visits that move windows. -/
theorem foldl_moved (h : ∀ s w, Moved (desktop s) (desktop (visit s w))) (l : List Nat) (s : σ) :
    Moved (desktop s) (desktop (l.foldl visit s)) := by
  induction l generalizing s with
  | nil => exact .refl _
  | cons w l ih => exact (h s w).trans (ih (visit s w))

theorem visitFamily_visits (h : ∀ s w, Moved (desktop s) (desktop (visit s w))) (owner : Nat) (f : Forest) :
    ∀ s, visitFamily desktop owner visit f s = ((desktop s).visits owner f).foldl visit s := by
  induction f with
  | nil => exact fun s => rfl
  | node child lastChild prevSib ihc ihs =>
    intro s
    -- what is left to visit is found on the desktop that the visits before have left
    have hrest : ∀ l : List Nat, visitFamily desktop owner visit prevSib (l.foldl visit s) =
        (l ++ (desktop s).visits owner prevSib).foldl visit s := by
      intro l
      rw [ihs, (foldl_moved h l s).visits, List.foldl_append]
    have hchildren : ∀ l : List Nat,
        (if child ≠ owner ∧ !(desktop (l.foldl visit s)).familyMember child owner then
            visitFamily desktop owner visit lastChild (l.foldl visit s)
          else l.foldl visit s) =
          (l ++ if child ≠ owner ∧ !(desktop s).familyMember child owner then (desktop s).visits owner lastChild
            else []).foldl visit s := by
      intro l
      rw [(foldl_moved h l s).familyMember, List.foldl_append]
      split
      · rw [ihc, (foldl_moved h l s).visits]
      · rfl
    unfold visitFamily visits
    dsimp only
    cases hr : ((desktop s).heap child).realized with
    | false => exact hrest []
    | true =>
      rw [if_neg (by decide : ¬ (!true) = true), if_pos rfl]
      split
      · exact (congrArg (visitFamily desktop owner visit prevSib) (hchildren [child])).trans (hrest _)
      · exact (congrArg (visitFamily desktop owner visit prevSib) (hchildren [])).trans (hrest _)

/-- A walk that only moves windows visits the family that it finds. -/
theorem visitFamily_eq (h : ∀ s w, Moved (desktop s) (desktop (visit s w))) (owner : Nat) (s : σ) :
    lorieWindowFamily desktop owner visit s = ((desktop s).family owner).foldl visit s :=
  visitFamily_visits h owner _ s

end Visit

/-! ## The window at the top -/

/-- `while (top->parent && top->parent != root) top = top->parent;` over so many windows. -/
def climb : Nat → Nat → Nat
  | 0, top => top
  | n + 1, top =>
    match below d.root (d.parent top) with
    | some parent => climb n parent
    | none => top

/-- The child of the root that contains a window. -/
def topLevel (w : Nat) : Nat := d.climb d.lastChild.windows.length w

/-- The windows that move with a window. -/
def subtree (w : Nat) : List Nat := if w = d.root then d.windows else d.lastChild.subtree w

theorem Moved.topLevel {d e : Desktop} (h : Moved d e) (w : Nat) : e.topLevel w = d.topLevel w := by
  obtain ⟨p, rfl⟩ := h
  unfold Desktop.topLevel
  have hclimb : ∀ n w, (d.put p).climb n w = d.climb n w := by
    intro n
    induction n with
    | zero => exact fun w => rfl
    | succ n ih =>
      intro w
      unfold climb
      rw [show (d.put p).parent w = d.parent w from rfl, show (d.put p).root = d.root from rfl]
      split
      · exact ih _
      · rfl
  exact hclimb _ w

section TopLevel

variable {d}

theorem climb_root (n : Nat) : d.climb n d.root = d.root := by
  cases n with
  | zero => rfl
  | succ n =>
    unfold climb
    rw [show d.parent d.root = none from if_pos d.parent_root]
    rfl

/-- A child of the root is at the top. -/
theorem climb_child (n : Nat) {t : Nat} (h : (d.heap t).parent = d.root) : d.climb n t = t := by
  cases n with
  | zero => rfl
  | succ n =>
    have hbelow : below d.root (d.parent t) = none := by
      unfold parent below
      rw [h]
      split
      · rfl
      · exact Option.filter_some_neg (by simp)
    unfold climb
    rw [hbelow]

/-- The way up from a window below another. -/
theorem climb_inside {f : Forest} {node : Nat} (hl : f.Linked (fun w => (d.heap w).parent) node) (hroot : node ≠ d.root)
    (hzero : node ≠ 0) (hf : f.windows ⊆ d.lastChild.windows) {w : Nat} (hw : w ∈ f.windows) :
    ∃ k, k ≤ f.windows.length ∧ ∀ n, d.climb (k + n) w = d.climb n node := by
  induction f generalizing node with
  | nil => cases hw
  | node window lastChild prevSib ihc ihs =>
    obtain ⟨hp, hc, hs⟩ := hl
    dsimp only at hp
    have hmem : window ∈ d.lastChild.windows := hf List.mem_cons_self
    have hstep : ∀ n, d.climb (n + 1) window = d.climb n node := by
      intro n
      have hbelow : below d.root (d.parent window) = some node := by
        unfold parent below
        rw [hp, if_neg hzero]
        exact Option.filter_some_pos (by simpa using hroot)
      rw [climb, hbelow]
    have hlength : (Forest.node window lastChild prevSib).windows.length =
        lastChild.windows.length + prevSib.windows.length + 1 := by
      simp [Forest.windows]
    rcases List.mem_cons.1 hw with rfl | hw
    · exact ⟨1, by omega, fun n => by rw [Nat.add_comm, hstep]⟩
    · rcases List.mem_append.1 hw with hw | hw
      · obtain ⟨k, hk, hclimb⟩ := ihc hc (fun e => (List.nodup_cons.1 d.nodup).1 (e ▸ hmem))
          (fun e => d.nonzero (List.mem_cons_of_mem _ (e ▸ hmem)))
          (fun v hv => hf (List.mem_cons_of_mem _ (List.mem_append_left _ hv))) hw
        exact ⟨k + 1, by omega, fun n => by rw [Nat.add_assoc, Nat.add_comm 1 n, hclimb, hstep]⟩
      · obtain ⟨k, hk, hclimb⟩ := ihs hs hroot hzero
          (fun v hv => hf (List.mem_cons_of_mem _ (List.mem_append_right _ hv))) hw
        exact ⟨k, by omega, hclimb⟩

section Siblings

variable {window : Nat} {lastChild prevSib : Forest}
  (hl : (Forest.node window lastChild prevSib).Linked (fun w => (d.heap w).parent) d.root)
  (hf : (Forest.node window lastChild prevSib).windows ⊆ d.lastChild.windows)

include hl hf

/-- The top of what is in the first of some children of the root. -/
theorem climb_first {n : Nat} (hn : lastChild.windows.length ≤ n) {v : Nat} (hv : v ∈ window :: lastChild.windows) :
    d.climb n v = window := by
  obtain ⟨hp, hc, -⟩ := hl
  have hmem : window ∈ d.lastChild.windows := hf List.mem_cons_self
  rcases List.mem_cons.1 hv with rfl | hv
  · exact climb_child n hp
  · obtain ⟨k, hk, hclimb⟩ := climb_inside hc (fun e => (List.nodup_cons.1 d.nodup).1 (e ▸ hmem))
      (fun e => d.nonzero (List.mem_cons_of_mem _ (e ▸ hmem)))
      (fun v hv => hf (List.mem_cons_of_mem _ (List.mem_append_left _ hv))) hv
    have hsum : k + (n - k) = n := by omega
    rw [← hsum, hclimb]
    exact climb_child _ hp

end Siblings

theorem climb_mem {f : Forest} (hl : f.Linked (fun w => (d.heap w).parent) d.root) (hf : f.windows ⊆ d.lastChild.windows)
    {n : Nat} (hn : f.windows.length ≤ n) {v : Nat} (hv : v ∈ f.windows) : d.climb n v ∈ f.windows := by
  induction f with
  | nil => cases hv
  | node window lastChild prevSib ihc ihs =>
    have hlength : (Forest.node window lastChild prevSib).windows.length =
        lastChild.windows.length + prevSib.windows.length + 1 := by
      simp [Forest.windows]
    have hrest : prevSib.windows ⊆ (Forest.node window lastChild prevSib).windows := fun v hv =>
      List.mem_cons_of_mem _ (List.mem_append_right _ hv)
    rcases List.mem_append.1 (show v ∈ (window :: lastChild.windows) ++ prevSib.windows from hv) with hv | hv
    · rw [climb_first hl hf (by omega) hv]
      exact List.mem_cons_self
    · exact hrest (ihs hl.2.2 (fun v hv => hf (hrest hv)) (by omega) hv)

/-- What is in the same child of the root, among some of them. -/
theorem mem_subtree_climb {f : Forest} (hl : f.Linked (fun w => (d.heap w).parent) d.root) (hnodup : f.windows.Nodup)
    (hf : f.windows ⊆ d.lastChild.windows) {n : Nat} (hn : f.windows.length ≤ n) {v w : Nat} (hv : v ∈ f.windows)
    (hw : w ∈ f.windows) : w ∈ f.subtree (d.climb n v) ↔ d.climb n w = d.climb n v := by
  induction f with
  | nil => cases hv
  | node window lastChild prevSib ihc ihs =>
    have hlength : (Forest.node window lastChild prevSib).windows.length =
        lastChild.windows.length + prevSib.windows.length + 1 := by
      simp [Forest.windows]
    have hrest : prevSib.windows ⊆ d.lastChild.windows := fun v hv =>
      hf (List.mem_cons_of_mem _ (List.mem_append_right _ hv))
    have hsplit : ((window :: lastChild.windows) ++ prevSib.windows).Nodup := hnodup
    obtain ⟨-, hprev, hdisjoint⟩ := List.nodup_append'.1 hsplit
    have hfirst : ∀ {v}, v ∈ window :: lastChild.windows → d.climb n v = window := climb_first hl hf (by omega)
    have hlater : ∀ {v}, v ∈ prevSib.windows → d.climb n v ∈ prevSib.windows := climb_mem hl.2.2 hrest (by omega)
    have htop : (Forest.node window lastChild prevSib).subtree window = window :: lastChild.windows := if_pos rfl
    rcases List.mem_append.1 (show v ∈ (window :: lastChild.windows) ++ prevSib.windows from hv) with hv | hv
    · rw [hfirst hv, htop]
      rcases List.mem_append.1 (show w ∈ (window :: lastChild.windows) ++ prevSib.windows from hw) with hw | hw
      · exact iff_of_true hw (hfirst hw)
      · refine iff_of_false (fun h => hdisjoint h hw) fun e => ?_
        exact hdisjoint (e ▸ List.mem_cons_self) (hlater hw)
    · have hsub : (Forest.node window lastChild prevSib).subtree (d.climb n v) = prevSib.subtree (d.climb n v) := by
        have hne : window ≠ d.climb n v := fun e => hdisjoint (e ▸ List.mem_cons_self) (hlater hv)
        have hnot : d.climb n v ∉ lastChild.windows := fun h => hdisjoint (List.mem_cons_of_mem _ h) (hlater hv)
        rw [Forest.subtree, if_neg hne, Forest.subtree_eq_nil hnot, List.nil_append]
      rw [hsub]
      rcases List.mem_append.1 (show w ∈ (window :: lastChild.windows) ++ prevSib.windows from hw) with hw | hw
      · rw [hfirst hw]
        refine iff_of_false (fun h => hdisjoint hw (Forest.subtree_subset _ _ h)) fun e => ?_
        exact hdisjoint (e ▸ List.mem_cons_self) (hlater hv)
      · exact ihs hl.2.2 hprev hrest (by omega) hv hw

theorem topLevel_ne_root {w : Nat} (hw : w ∈ d.lastChild.windows) : d.topLevel w ≠ d.root := by
  have hmem : d.topLevel w ∈ d.lastChild.windows := climb_mem d.linked (List.Subset.refl _) (Nat.le_refl _) hw
  exact fun e => (List.nodup_cons.1 d.nodup).1 (e ▸ hmem)

/-- The windows that move with the top of a window have the same top. -/
theorem mem_subtree_topLevel {v w : Nat} (hv : v ∈ d.lastChild.windows) (hw : w ∈ d.windows) :
    w ∈ d.subtree (d.topLevel v) ↔ d.topLevel w = d.topLevel v := by
  have hnodup := List.nodup_cons.1 d.nodup
  have hne : d.topLevel v ≠ d.root := topLevel_ne_root hv
  unfold subtree
  rw [if_neg hne]
  rcases List.mem_cons.1 hw with rfl | hw
  · rw [show d.topLevel d.root = d.root from climb_root _]
    exact iff_of_false (fun h => hnodup.1 (Forest.subtree_subset _ _ h)) hne.symm
  · exact mem_subtree_climb d.linked hnodup.2 (List.Subset.refl _) (Nat.le_refl _) hv hw

/-- A window moves with its top. -/
theorem mem_subtree_self {w : Nat} (hw : w ∈ d.windows) : w ∈ d.subtree (d.topLevel w) := by
  rcases List.mem_cons.1 hw with rfl | h
  · rw [show d.topLevel d.root = d.root from climb_root _]
    unfold subtree
    rw [if_pos rfl]
    exact hw
  · exact (mem_subtree_topLevel h hw).2 rfl

end TopLevel

end Desktop

end Lorie.Windows
