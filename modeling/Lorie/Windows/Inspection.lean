import Lorie.Windows.Family

/-!
# The inspection of a family

The loop of `lorieInspectFamily` goes over the windows of a screen by their pointers `lastChild`, `prevSib` and `parent`
(`window_inspection_walk.h`). The owner comes first, then the other windows that belong to it, with what is below them.

- `scan`: the loop, with the windows that it emits;
- `walk_follows`: the pointers lead through the windows of the tree, each child before its siblings;
- `inspectFamily_exact`: what is emitted and counted, and when the walk stops early.
-/

namespace Lorie.Windows

/-! ## The walk -/

/-- The pointers of the windows. -/
structure Pointers where
  parent : Nat → Option Nat
  lastChild : Nat → Option Nat
  prevSib : Nat → Option Nat

/-- `LorieInspectionWalk` -/
structure LorieInspectionWalk where
  count : Nat
  truncated : Bool
  deriving DecidableEq, Repr

/-- The result of the walk with the calls of `emit`. -/
structure Inspection extends LorieInspectionWalk where
  emitted : List Nat
  deriving DecidableEq, Repr

section Walk

variable (p : Pointers) (root owner limit : Nat) (member : Nat → Nat → Bool)

/-- The loop of `lorieInspectMember`, so many windows up. -/
def inspectMember : Nat → Option Nat → Bool
  | 0, _ => false
  | depth + 1, window =>
    match below root window with
    | some window => if member window owner then true else inspectMember depth (p.parent window)
    | none => false

/-- `lorieInspectMember` -/
def lorieInspectMember (window : Nat) : Bool := inspectMember p root owner member 64 (some window)

/-- `while (window != root && !window->prevSib) window = window->parent;`, if it ends within so many windows. -/
def climb : Nat → Nat → Option Nat
  | 0, _ => none
  | n + 1, window =>
    if window = root then some window
    else
      match p.prevSib window with
      | some _ => some window
      | none =>
        match p.parent window with
        | some parent => climb n parent
        | none => none

/-- The window after a window and what is below it: none behind the last one. -/
def after (n window : Nat) : Option (Option Nat) :=
  match climb p root n window with
  | some window => if window = root then some none else some (p.prevSib window)
  | none => none

/-- The window after a window. -/
def walk (n window : Nat) : Option (Option Nat) :=
  match p.lastChild window with
  | some child => some (some child)
  | none => after p root n window

/-- The loop of `lorieInspectFamily`, if it ends within so many windows and climbs no more than `n` at a time. -/
def scan (n : Nat) : Nat → Nat → Option Nat → Inspection → Option Inspection
  | _, _, none, result => some result
  | 0, _, some _, _ => none
  | fuel + 1, scanned, some window, result =>
    let scanned := scanned + 1
    if scanned > 8192 then some { result with truncated := true }
    else
      let accepted := window ≠ owner ∧ lorieInspectMember p root owner member window
      if accepted ∧ result.count = limit then some { result with truncated := true }
      else
        let result :=
          if accepted then { result with count := result.count + 1, emitted := result.emitted ++ [window] } else result
        match walk p root n window with
        | some next => scan n fuel scanned next result
        | none => none

/-- `lorieInspectFamily`, within so many steps -/
def lorieInspectFamily (root owner : Option Nat) (fuel : Nat) : Option Inspection :=
  match root, owner with
  | some root, some owner =>
    if limit = 0 then some ⟨⟨0, false⟩, []⟩
    else scan p root owner limit member fuel fuel 0 (p.lastChild root) ⟨⟨1, false⟩, [owner]⟩
  | _, _ => some ⟨⟨0, false⟩, []⟩

end Walk

/-! ## The tree -/

namespace Forest

def first : Forest → Option Nat
  | nil => none
  | node window _ _ => some window

theorem head_windows (f : Forest) : f.windows.head? = f.first := by
  cases f <;> rfl

/-- The pointers are those of the tree. -/
def Tied (p : Pointers) (node : Nat) : Forest → Prop
  | nil => True
  | .node window lastChild prevSib =>
    p.parent window = some node ∧ p.lastChild window = lastChild.first ∧ p.prevSib window = prevSib.first ∧
      lastChild.Tied p window ∧ prevSib.Tied p node

end Forest

/-- The windows of a screen with consistent pointers. -/
structure WindowTree extends Pointers where
  root : Nat
  /-- The children of the root. -/
  children : Forest
  first : lastChild root = children.first
  tied : children.Tied toPointers root
  nodup : (root :: children.windows).Nodup

/-! ## The order -/

/-- Each window is followed by the next one, and the last by `rest`. -/
def Follows (next : Nat → Option (Option Nat)) (rest : Option Nat) : List Nat → Prop
  | [] => True
  | w :: l => next w = some (l.head?.or rest) ∧ Follows next rest l

theorem follows_append {next : Nat → Option (Option Nat)} {rest : Option Nat} {l m : List Nat}
    (hl : Follows next (m.head?.or rest) l) (hm : Follows next rest m) : Follows next rest (l ++ m) := by
  induction l with
  | nil => exact hm
  | cons w l ih =>
    obtain ⟨hw, hl⟩ := hl
    refine ⟨?_, ih hl⟩
    rw [hw]
    cases l <;> rfl

section Order

variable {p : Pointers} {root : Nat}

/-- Behind a window and what is below it: its next sibling, or what comes behind its parent. -/
theorem after_sibling {window node : Nat} {sibling rest : Option Nat} {n m : Nat} (hroot : window ≠ root)
    (hparent : p.parent window = some node) (hsib : p.prevSib window = sibling)
    (hafter : ∀ k, m ≤ k → after p root k node = some rest) (hn : m + 1 ≤ n) :
    after p root n window = some (sibling.or rest) := by
  obtain ⟨n, rfl⟩ : ∃ k, n = k + 1 := ⟨n - 1, by omega⟩
  subst hsib
  unfold after climb
  rw [if_neg hroot]
  cases hs : p.prevSib window with
  | some s =>
    dsimp only
    rw [if_neg hroot, hs]
    rfl
  | none =>
    rw [hparent]
    exact hafter n (by omega)

/-- **The pointers lead through the windows**, each child before its siblings. -/
theorem walk_follows {f : Forest} {node m n : Nat} {rest : Option Nat} (ht : f.Tied p node) (hroot : root ∉ f.windows)
    (hafter : ∀ k, m ≤ k → after p root k node = some rest) (hn : m + f.windows.length ≤ n) :
    Follows (walk p root n) rest f.windows := by
  induction f generalizing node m rest with
  | nil => trivial
  | node window lastChild prevSib ihc ihs =>
    obtain ⟨hparent, hlast, hprev, htc, hts⟩ := ht
    have hlength : (Forest.node window lastChild prevSib).windows.length =
        lastChild.windows.length + prevSib.windows.length + 1 := by
      simp [Forest.windows]
    have hwindow : window ≠ root := fun e => hroot (e ▸ List.mem_cons_self)
    have hbehind : ∀ k, m + 1 ≤ k → after p root k window = some (prevSib.windows.head?.or rest) := by
      intro k hk
      rw [prevSib.head_windows]
      exact after_sibling hwindow hparent hprev hafter hk
    have hchildren := ihc htc (fun h => hroot (List.mem_cons_of_mem _ (List.mem_append_left _ h))) hbehind (by omega)
    have hsiblings := ihs hts (fun h => hroot (List.mem_cons_of_mem _ (List.mem_append_right _ h))) hafter (by omega)
    refine ⟨?_, follows_append hchildren hsiblings⟩
    unfold walk
    rw [hlast]
    cases lastChild with
    | node child _ _ => rfl
    | nil => exact hbehind n (by omega)

end Order

/-! ## What is emitted -/

section Scan

variable {p : Pointers} {root owner limit : Nat} {member : Nat → Nat → Bool}

/-- The windows of a list that are emitted behind the owner, if no limit is reached. -/
def accepted (p : Pointers) (root owner : Nat) (member : Nat → Nat → Bool) (l : List Nat) : List Nat :=
  l.filter fun window => window ≠ owner ∧ lorieInspectMember p root owner member window

/-- What the loop adds to a result over the windows that are left. -/
structure Scanned (limit : Nat) (hits : List Nat) (more : Prop) (result final : Inspection) : Prop where
  emitted : final.emitted = result.emitted ++ hits.take (limit - result.count)
  count : final.count = result.count + (hits.take (limit - result.count)).length
  truncated : final.truncated = true ↔ limit - result.count < hits.length ∨ more

theorem scan_scanned {n : Nat} {l : List Nat} (fuel scanned : Nat) (result : Inspection)
    (hl : Follows (walk p root n) none l) (hfuel : l.length < fuel) (hcount : result.count ≤ limit) (hscanned : scanned ≤ 8192)
    (hr : result.truncated = false) :
    ∃ final, scan p root owner limit member n fuel scanned l.head? result = some final ∧
      Scanned limit (accepted p root owner member (l.take (8192 - scanned))) (8192 - scanned < l.length) result final := by
  induction l generalizing fuel scanned result with
  | nil =>
    refine ⟨result, by cases fuel <;> rfl, ?_, ?_, ?_⟩
    · simp [accepted]
    · simp [accepted]
    · simp [accepted, hr]
  | cons w l ih =>
    obtain ⟨hw, hl⟩ := hl
    obtain ⟨fuel, rfl⟩ : ∃ k, fuel = k + 1 := ⟨fuel - 1, by omega⟩
    rw [show (w :: l).head? = some w from rfl, scan]
    by_cases hend : scanned + 1 > 8192
    · -- the tree is too large
      have hzero : 8192 - scanned = 0 := by omega
      rw [if_pos hend, hzero]
      exact ⟨_, rfl, by simp [accepted], by simp [accepted], iff_of_true rfl (.inr (Nat.succ_pos _))⟩
    · obtain ⟨left, hleft⟩ : ∃ k, 8192 - scanned = k + 1 := ⟨8191 - scanned, by omega⟩
      have hmore : left < l.length ↔ 8192 - scanned < (w :: l).length := by
        rw [hleft, List.length_cons]
        omega
      rw [if_neg hend, hleft, List.take_succ_cons, ← hleft]
      dsimp only
      rw [hw, Option.or_none]
      have hrest : 8192 - (scanned + 1) = left := by omega
      by_cases ha : w ≠ owner ∧ lorieInspectMember p root owner member w = true
      · have hhits : ∀ m, accepted p root owner member (w :: m) = w :: accepted p root owner member m :=
          fun m => List.filter_cons_of_pos (decide_eq_true ha)
        rw [hhits]
        by_cases hfull : result.count = limit
        · have hroom : limit - result.count = 0 := by omega
          rw [if_pos ⟨ha, hfull⟩]
          exact ⟨_, rfl, by simp [hroom], by simp [hroom], iff_of_true rfl (.inl (by simp [hroom]))⟩
        · rw [if_neg fun h => hfull h.2, if_pos ha]
          obtain ⟨room, hroom⟩ : ∃ k, limit - result.count = k + 1 := ⟨limit - result.count - 1, by omega⟩
          have hroom' : limit - (result.count + 1) = room := by omega
          obtain ⟨final, hfinal, hemitted, hcounted, htruncated⟩ :=
            ih fuel (scanned + 1) { result with count := result.count + 1, emitted := result.emitted ++ [w] } hl
              (Nat.lt_of_succ_lt_succ hfuel) (by dsimp only; omega) (by omega) hr
          dsimp only at hemitted hcounted htruncated
          rw [hrest, hroom'] at hemitted hcounted htruncated
          refine ⟨final, hfinal, ?_, ?_, ?_⟩
          · rw [hemitted, hroom, List.take_succ_cons, List.append_assoc]
            rfl
          · rw [hcounted, hroom, List.take_succ_cons, List.length_cons]
            omega
          · rw [htruncated, hroom, List.length_cons, Nat.add_lt_add_iff_right, hmore]
      · have hhits : ∀ m, accepted p root owner member (w :: m) = accepted p root owner member m :=
          fun m => List.filter_cons_of_neg (by simpa using ha)
        rw [if_neg fun h => ha h.1, if_neg ha, hhits]
        obtain ⟨final, hfinal, hemitted, hcounted, htruncated⟩ :=
          ih fuel (scanned + 1) result hl (Nat.lt_of_succ_lt_succ hfuel) hcount (by omega) hr
        rw [hrest] at hemitted hcounted htruncated
        exact ⟨final, hfinal, hemitted, hcounted, by rw [htruncated, hmore]⟩

end Scan

namespace WindowTree

variable (t : WindowTree) (owner : Nat) (member : Nat → Nat → Bool)

/-- The windows that are emitted behind the owner, if no limit is reached. -/
def members : List Nat := accepted t.toPointers t.root owner member (t.children.windows.take 8192)

theorem walk_follows {n : Nat} (hn : t.children.windows.length < n) :
    Follows (walk t.toPointers t.root n) none t.children.windows := by
  refine Windows.walk_follows t.tied (List.nodup_cons.1 t.nodup).1 (m := 1) (fun k hk => ?_) (by omega)
  obtain ⟨k, rfl⟩ : ∃ j, k = j + 1 := ⟨k - 1, by omega⟩
  unfold after climb
  rw [if_pos rfl]
  exact if_pos rfl

/-- **The walk finds the windows of the family**: it ends, with the owner first and then the members in the order of the tree,
up to the limit, and it is truncated exactly if there are more of them or more than 8192 windows. -/
theorem inspectFamily_exact (limit : Nat) (hlimit : 1 ≤ limit) (fuel : Nat) (hfuel : t.children.windows.length < fuel) :
    ∃ final, lorieInspectFamily t.toPointers limit member (some t.root) (some owner) fuel = some final ∧
      final.emitted = owner :: (t.members owner member).take (limit - 1) ∧
      final.emitted.Nodup ∧
      final.count = final.emitted.length ∧ final.count ≤ limit ∧
      (final.truncated = true ↔ limit < 1 + (t.members owner member).length ∨ 8192 < t.children.windows.length) := by
  obtain ⟨final, hfinal, hemitted, hcount, htruncated⟩ :=
    scan_scanned fuel 0 ⟨⟨1, false⟩, [owner]⟩ (t.walk_follows hfuel) hfuel hlimit (Nat.zero_le _) rfl
  dsimp only [Nat.sub_zero] at hemitted hcount htruncated
  rw [show accepted _ _ owner member _ = t.members owner member from rfl] at hemitted hcount htruncated
  refine ⟨final, ?_, hemitted, ?_, ?_, ?_, ?_⟩
  · unfold lorieInspectFamily
    dsimp only
    rw [if_neg (by omega), t.first, ← Forest.head_windows]
    exact hfinal
  · rw [hemitted]
    refine List.nodup_cons.2 ⟨fun h => ?_, ?_⟩
    · exact (of_decide_eq_true (List.mem_filter.1 (List.mem_of_mem_take h)).2).1 rfl
    · exact (((List.nodup_cons.1 t.nodup).2.sublist (List.take_sublist _ _)).filter _).sublist (List.take_sublist _ _)
  · rw [hcount, hemitted, List.length_append]
    rfl
  · rw [hcount, List.length_take]
    omega
  · rw [htruncated]
    exact or_congr_left (by omega)

/-- The root 1, the owner 10 with the child 11, and the window 20 -/
def smallTree : WindowTree where
  parent := fun w => if w = 10 ∨ w = 20 then some 1 else if w = 11 then some 10 else none
  lastChild := fun w => if w = 1 then some 20 else if w = 10 then some 11 else none
  prevSib := fun w => if w = 20 then some 10 else none
  root := 1
  children := .node 20 .nil (.node 10 (.node 11 .nil .nil) .nil)
  first := rfl
  tied := ⟨rfl, rfl, rfl, trivial, rfl, rfl, rfl, ⟨rfl, rfl, rfl, trivial, trivial⟩, trivial⟩
  nodup := by decide

/-- The child of the owner is the one member that is emitted, and 20 is behind no limit. -/
theorem inspectFamily_exact_small :
    ∃ final, lorieInspectFamily smallTree.toPointers 2 (· == ·) (some 1) (some 10) 4 = some final ∧
      final.emitted = [10, 11] ∧ final.truncated = false := by
  obtain ⟨final, hfinal, hemitted, -, -, -, htruncated⟩ := smallTree.inspectFamily_exact 10 (· == ·) 2 (by decide) 4 (by decide)
  have hmembers : smallTree.members 10 (· == ·) = [11] := by decide
  refine ⟨final, hfinal, by rw [hemitted, hmembers]; rfl, Bool.eq_false_iff.2 fun h => ?_⟩
  rw [htruncated, hmembers] at h
  exact absurd h (by decide)

end WindowTree

end Lorie.Windows
