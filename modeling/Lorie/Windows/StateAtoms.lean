import Lorie.Windows.Changes
import Mathlib.Data.List.Nodup

/-!
# The atoms of `_NET_WM_STATE`

Each of the three confirmations reads the atoms of the property, leaves out its own and appends those that are confirmed. The
list is built in memory that is allocated for it (`Confirmation.write`), and a confirmation that is accepted, and whose
writes succeed, stores it (`confirm_eq`).

- `write_eq`: the memory is large enough;
- `Ready`: the window and its record are there, so that a confirmation is about them;
- `Reflects`: what a confirmation leaves behind, until the next one of its kind;
- `state_atoms_rewritten`: in every sequence of accepted confirmations.
-/

namespace Lorie.Windows

/-! ## Confirmations -/

inductive Kind where
  | fullscreen | maximized | interaction
  deriving DecidableEq, Repr

/-- The names of the atoms that a confirmation leaves out. -/
def Kind.own : Kind → List Name
  | fullscreen => [.fullscreen]
  | maximized => [.maximizedHorz, .maximizedVert]
  | interaction => [.hidden, .demandsAttention]

/-- How many words are allocated besides the old ones. -/
def Kind.room : Kind → Nat
  | fullscreen => 1
  | maximized | interaction => 2

/-- What the host confirms, with the serial it saw. -/
inductive Confirmation where
  | fullscreen (serial : Nat) (on : Bool)
  | maximized (serial : Nat) (axes : BitVec 32)
  | interaction (serial : Nat) (flags : BitVec 32)
  deriving DecidableEq, Repr

/-- The flags without the attention of an active window -/
def shownFlags (flags : BitVec 32) : BitVec 32 := if flags &&& 1 ≠ 0 then flags &&& ~~~4 else flags

namespace Confirmation

def kind : Confirmation → Kind
  | fullscreen _ _ => .fullscreen
  | maximized _ _ => .maximized
  | interaction _ _ => .interaction

/-- The atom is confirmed set. -/
def sets : Confirmation → Name → Bool
  | fullscreen _ on, .fullscreen => on
  | maximized _ axes, .maximizedHorz => axes &&& 1 ≠ 0
  | maximized _ axes, .maximizedVert => axes &&& 2 ≠ 0
  | interaction _ flags, .hidden => shownFlags flags &&& 2 ≠ 0
  | interaction _ flags, .demandsAttention => shownFlags flags &&& 4 ≠ 0
  | _, _ => false

/-- The names of the atoms that are appended. -/
def added (c : Confirmation) : List Name := c.kind.own.filter c.sets

/-- The record behind a confirmation -/
def apply : Confirmation → WindowRecord → WindowRecord
  | fullscreen serial on, r => { r with fullscreen := lorieFullscreenConfirm r.fullscreen serial on }
  | maximized serial axes, r => { r with maximized := lorieMaximizedConfirm r.maximized serial axes }
  | interaction _ flags, r =>
    { r with
      interaction :=
        { r.interaction with
          actual := shownFlags flags, action := .none, attention := shownFlags flags &&& 4 ≠ 0 } }

/-- The serial is the one of the record, and no unknown flag is set. -/
def Matches (r : WindowRecord) : Confirmation → Prop
  | fullscreen serial _ => serial = r.fullscreen.serial
  | maximized serial axes => serial = r.maximized.serial ∧ axes &&& ~~~3 = 0
  | interaction serial flags => r.interaction.serial = serial ∧ flags &&& ~~~7 = 0

/-! ## The list in memory -/

/-- `atoms[length++] = value`; `none` when the memory ends there. -/
def push (capacity : Nat) (atoms : List Nat) (value : Nat) : Option (List Nat) :=
  if atoms.length < capacity then some (atoms ++ [value]) else none

/-- The loops of a confirmation in its memory, over the old atoms -/
def write (c : Confirmation) (atom : Name → Nat) (previous : List Nat) : Option (List Nat) := do
  let capacity := previous.length + c.kind.room
  let kept ← previous.foldlM
    (fun atoms value => if value ∈ c.kind.own.map atom then some atoms else push capacity atoms value) []
  (c.added.map atom).foldlM (push capacity) kept

/-- The new atoms -/
def rewrite (c : Confirmation) (atom : Name → Nat) (previous : List Nat) : List Nat :=
  (previous.filter fun value => value ∉ c.kind.own.map atom) ++ c.added.map atom

theorem mem_added {c : Confirmation} {name : Name} : name ∈ c.added ↔ name ∈ c.kind.own ∧ c.sets name = true :=
  List.mem_filter

theorem added_length (c : Confirmation) : c.added.length ≤ c.kind.room := by
  have hroom : ∀ kind : Kind, kind.own.length ≤ kind.room := by
    intro kind
    cases kind <;> decide
  exact Nat.le_trans (List.length_filter_le _ _) (hroom c.kind)

theorem map_added_fullscreen (atom : Name → Nat) (serial : Nat) (on : Bool) :
    (fullscreen serial on).added.map atom = if on then [atom .fullscreen] else [] := by
  cases on <;> rfl

theorem map_filter_pair (atom : Name → Nat) (sets : Name → Bool) (a b : Name) :
    ([a, b].filter sets).map atom = (if sets a then [atom a] else []) ++ if sets b then [atom b] else [] := by
  cases ha : sets a <;> cases hb : sets b <;> simp [ha, hb]

theorem map_added_maximized (atom : Name → Nat) (serial : Nat) (axes : BitVec 32) :
    (maximized serial axes).added.map atom =
      (if axes &&& 1 ≠ 0 then [atom .maximizedHorz] else []) ++ if axes &&& 2 ≠ 0 then [atom .maximizedVert] else [] := by
  refine (map_filter_pair atom _ _ _).trans ?_
  simp only [sets, decide_eq_true_eq]

theorem map_added_interaction (atom : Name → Nat) (serial : Nat) (flags : BitVec 32) :
    (interaction serial flags).added.map atom =
      (if shownFlags flags &&& 2 ≠ 0 then [atom .hidden] else []) ++
        if shownFlags flags &&& 4 ≠ 0 then [atom .demandsAttention] else [] := by
  refine (map_filter_pair atom _ _ _).trans ?_
  simp only [sets, decide_eq_true_eq]

theorem own_nodup (kind : Kind) : kind.own.Nodup := by cases kind <;> decide

/-- Values go into the memory as long as there is room. -/
theorem foldlM_push {capacity : Nat} (values atoms : List Nat) (h : atoms.length + values.length ≤ capacity) :
    values.foldlM (push capacity) atoms = some (atoms ++ values) := by
  induction values generalizing atoms with
  | nil => simp
  | cons value values ih =>
    simp only [List.length_cons] at h
    rw [List.foldlM_cons, push, if_pos (by omega)]
    refine (ih (atoms ++ [value]) ?_).trans ?_
    · simp only [List.length_append, List.length_cons, List.length_nil]
      omega
    · rw [List.append_assoc]
      rfl

/-- The loop over the old atoms leaves out those of the confirmation. -/
theorem foldlM_keep {capacity : Nat} (own values atoms : List Nat) (h : atoms.length + values.length ≤ capacity) :
    values.foldlM (fun atoms value => if value ∈ own then some atoms else push capacity atoms value) atoms =
      some (atoms ++ values.filter fun value => value ∉ own) := by
  induction values generalizing atoms with
  | nil => simp
  | cons value values ih =>
    simp only [List.length_cons] at h
    rw [List.foldlM_cons]
    by_cases hown : value ∈ own
    · rw [if_pos hown, List.filter_cons_of_neg (by simpa using hown)]
      exact ih atoms (by omega)
    · rw [if_neg hown, push, if_pos (by omega), List.filter_cons_of_pos (by simpa using hown)]
      refine (ih (atoms ++ [value]) ?_).trans ?_
      · simp only [List.length_append, List.length_cons, List.length_nil]
        omega
      · rw [List.append_assoc]
        rfl

/-- **No write exceeds the memory.** -/
theorem write_eq (c : Confirmation) (atom : Name → Nat) (previous : List Nat) :
    c.write atom previous = some (c.rewrite atom previous) := by
  have hroom := c.added_length
  have hfilter := List.length_filter_le (fun value => decide (value ∉ c.kind.own.map atom)) previous
  unfold write
  dsimp only
  rw [foldlM_keep _ _ _ (by simp)]
  refine (foldlM_push _ _ ?_).trans ?_
  · simp only [List.nil_append, List.length_map]
    omega
  · rw [List.nil_append]
    rfl

/-! ## The list of atoms -/

/-- An atom of none of the confirmations -/
def foreign (atom : Name → Nat) (value : Nat) : Bool :=
  ([Kind.fullscreen, .maximized, .interaction].flatMap Kind.own).map atom |>.all (value ≠ ·)

section Lists

variable {c d : Confirmation} {atom : Name → Nat}

/-- The atoms of a kind in a list -/
def owned (kind : Kind) (atom : Name → Nat) (values : List Nat) : List Nat :=
  values.filter fun value => value ∈ kind.own.map atom

theorem own_disjoint {kind kind' : Kind} (h : kind ≠ kind') {name : Name} (hn : name ∈ kind.own) : name ∉ kind'.own := by
  cases kind <;> cases kind' <;> first | exact absurd rfl h | (revert name; decide)

theorem mem_map_own (hatom : Function.Injective atom) {kind : Kind} {name : Name} :
    atom name ∈ kind.own.map atom ↔ name ∈ kind.own := List.mem_map_of_injective hatom

theorem mem_map_added {value : Nat} (h : value ∈ c.added.map atom) : value ∈ c.kind.own.map atom := by
  obtain ⟨name, hname, rfl⟩ := List.mem_map.1 h
  exact List.mem_map_of_mem (mem_added.1 hname).1

/-- The atoms of a kind are none of another kind. -/
theorem map_own_disjoint (hatom : Function.Injective atom) {kind kind' : Kind} (h : kind ≠ kind') {value : Nat}
    (hv : value ∈ kind.own.map atom) : value ∉ kind'.own.map atom := by
  obtain ⟨name, hname, rfl⟩ := List.mem_map.1 hv
  rw [mem_map_own hatom]
  exact own_disjoint h hname

theorem foreign_notMem {value : Nat} (h : foreign atom value = true) (kind : Kind) : value ∉ kind.own.map atom := by
  intro hv
  unfold foreign at h
  rw [List.all_eq_true] at h
  obtain ⟨name, hname, rfl⟩ := List.mem_map.1 hv
  have hin : atom name ∈ ([Kind.fullscreen, .maximized, .interaction].flatMap Kind.own).map atom := by
    refine List.mem_map_of_mem (List.mem_flatMap.2 ⟨kind, ?_, hname⟩)
    cases kind <;> decide
  simpa using h _ hin

/-- A confirmation leaves the atoms that are not its own. -/
theorem filter_rewrite {p : Nat → Bool} (h : ∀ value, p value = true → value ∉ c.kind.own.map atom) (values : List Nat) :
    (c.rewrite atom values).filter p = values.filter p := by
  have hadded : (c.added.map atom).filter p = [] := by
    rw [List.filter_eq_nil_iff]
    intro value hv hp
    exact h value hp (mem_map_added hv)
  rw [rewrite, List.filter_append, hadded, List.append_nil, List.filter_filter]
  refine List.filter_congr fun value _ => ?_
  cases hp : p value with
  | false => rfl
  | true => simpa using h value hp

/-- The atoms of its own are those that are set. -/
theorem owned_rewrite_self (values : List Nat) : owned c.kind atom (c.rewrite atom values) = c.added.map atom := by
  unfold owned rewrite
  rw [List.filter_append, List.filter_filter]
  have hkept : values.filter (fun value => decide (value ∈ c.kind.own.map atom) && decide (value ∉ c.kind.own.map atom)) =
      [] := by
    rw [List.filter_eq_nil_iff]
    intro value _
    simp
  rw [hkept, List.nil_append, List.filter_eq_self]
  intro value hv
  exact decide_eq_true (mem_map_added hv)

theorem owned_rewrite_other (hatom : Function.Injective atom) (h : d.kind ≠ c.kind) (values : List Nat) :
    owned c.kind atom (d.rewrite atom values) = owned c.kind atom values := by
  refine filter_rewrite ?_ values
  intro value hv
  exact map_own_disjoint hatom h.symm (of_decide_eq_true hv)

/-- Where the own atoms are right, only the order changes. -/
theorem rewrite_perm {values : List Nat} (h : owned c.kind atom values = c.added.map atom) :
    values.Perm (c.rewrite atom values) := by
  unfold rewrite
  rw [← h]
  refine (List.filter_append_perm (fun value => decide (value ∉ c.kind.own.map atom)) values).symm.trans ?_
  refine List.Perm.append_left _ (List.Perm.of_eq ?_)
  unfold owned
  refine List.filter_congr fun value _ => ?_
  rw [decide_not, Bool.not_not]

/-- Confirmations of different kinds commute up to the order. -/
theorem rewrite_comm (hatom : Function.Injective atom) (h : c.kind ≠ d.kind) (values : List Nat) :
    (d.rewrite atom (c.rewrite atom values)).Perm (c.rewrite atom (d.rewrite atom values)) := by
  have hadded : ∀ {c d : Confirmation}, c.kind ≠ d.kind →
      (c.added.map atom).filter (fun value => value ∉ d.kind.own.map atom) = c.added.map atom := by
    intro c d hcd
    rw [List.filter_eq_self]
    intro value hv
    exact decide_eq_true (map_own_disjoint hatom hcd (mem_map_added hv))
  unfold rewrite
  rw [List.filter_append, List.filter_append, hadded h, hadded h.symm, List.filter_comm, List.append_assoc,
    List.append_assoc]
  exact List.Perm.append_left _ List.perm_append_comm

/-- How often an atom of its own stands in the list -/
theorem count_owned (hatom : Function.Injective atom) {values : List Nat}
    (h : owned c.kind atom values = c.added.map atom) {name : Name} (hname : name ∈ c.kind.own) :
    values.count (atom name) = if c.sets name then 1 else 0 := by
  have hown : decide (atom name ∈ c.kind.own.map atom) = true := decide_eq_true ((mem_map_own hatom).2 hname)
  have hcount : (owned c.kind atom values).count (atom name) = values.count (atom name) :=
    List.count_filter (p := fun value => decide (value ∈ c.kind.own.map atom)) hown
  have hnodup : (c.added.map atom).Nodup := ((own_nodup c.kind).filter _).map hatom
  rw [← hcount, h]
  by_cases hset : c.sets name = true
  · rw [if_pos hset]
    exact List.count_eq_one_of_mem hnodup (List.mem_map_of_mem (mem_added.2 ⟨hname, hset⟩))
  · rw [if_neg hset, List.count_eq_zero, List.mem_map_of_injective hatom]
    exact fun hmem => hset (mem_added.1 hmem).2

end Lists

end Confirmation

/-! ## Confirmations of a window -/

namespace State

/-- A confirmation, with what the environment answers -/
def confirm (s : State) (id : Nat) (env : Env) : Confirmation → State
  | .fullscreen serial on => s.lorieWindowFullscreenConfirm id serial on env
  | .maximized serial axes => s.lorieWindowMaximizedConfirm id serial axes env
  | .interaction serial flags => s.lorieWindowInteractionConfirm id serial flags env

/-- The confirmation is about the record as it is, and memory and writes succeed. -/
def Accepted (s : State) (id : Nat) (env : Env) (c : Confirmation) : Prop :=
  (∃ w r u, s.confirmed id env = (some (w, r), u) ∧ c.Matches r) ∧ env.atoms = true ∧ ∀ i, env.change i = true

/-- The atoms of `_NET_WM_STATE` of a window -/
def atomsOf (s : State) (id : Nat) : List Nat :=
  match s.lookup id with
  | some w => s.stateAtoms w
  | none => []

/-- A list of atoms as a property -/
def atomList (s : State) (atoms : List Nat) : Property := ⟨s.atom .atom, 32, atoms⟩

/-- `_NET_ACTIVE_WINDOW`, as `lorieWindowInteractionConfirm` writes it -/
def writeActive (s : State) (id : Nat) (flags : BitVec 32) : State :=
  if flags &&& 1 ≠ 0 ∨ reference s.atom s.root .netActiveWindow = id then
    s.storeProperty s.root.id .netActiveWindow (some ⟨s.atom .window, 32, [if flags &&& 1 ≠ 0 then id else 0]⟩)
  else s

/-- What a confirmation writes besides the atoms. -/
def others (s : State) (id : Nat) : Confirmation → State
  | .interaction _ flags =>
    (s.storeProperty id .wmState
      (some ⟨s.atom .wmState, 32, [if shownFlags flags &&& 2 ≠ 0 then 3 else 1, 0]⟩)).writeActive id (shownFlags flags)
  | _ => s

/-- What an accepted confirmation does, with the list that it writes. -/
def effect (s : State) (id : Nat) (c : Confirmation) (atoms : List Nat) : State :=
  ((s.storeProperty id .netWmState (some (s.atomList atoms))).others id c).change id c.apply

variable {s t u : State} {id : Nat} {c d : Confirmation} {env : Env} {w : Window} {r : WindowRecord}

/-- The states of a window are properties that the model only marks. -/
theorem setProperty_stateName {name : Name} (h : StateName name) (s : State) (id : Nat) (value : Property) :
    s.setProperty id name (some value) false = { s.storeProperty id name (some value) with dirty := true } := by
  rcases h with rfl | rfl | rfl <;> simp [setProperty, propertyChanged]

theorem dixChangeWindowProperty_eq {name : Name} (h : StateName name) (henv : ∀ i, env.change i = true) (s : State)
    (i id : Nat) (value : Property) :
    s.dixChangeWindowProperty env i id name value = { s.storeProperty id name (some value) with dirty := true } := by
  unfold dixChangeWindowProperty
  rw [if_pos (henv i), setProperty_stateName h]

/-- **An accepted confirmation** -/
theorem confirm_eq (h : s.confirmed id env = (some (w, r), u)) (hm : c.Matches r) (hatoms : env.atoms = true)
    (henv : ∀ i, env.change i = true) :
    s.confirm id env c = u.effect id c (c.rewrite u.atom (u.stateAtoms w)) := by
  have hid : w.id = id := (lookup_some (confirmed_some h).1).1
  subst hid
  cases c with
  | fullscreen serial on =>
    have hserial : serial = r.fullscreen.serial := hm
    simp only [confirm, lorieWindowFullscreenConfirm, h]
    rw [if_neg (by simp [hserial, hatoms]), if_pos (henv 0), dixChangeWindowProperty_eq (.inl rfl) henv]
    have hlist : (u.stateAtoms w).filter (· ≠ u.atom .fullscreen) ++ (if on then [u.atom .fullscreen] else []) =
        (Confirmation.fullscreen serial on).rewrite u.atom (u.stateAtoms w) := by
      rw [Confirmation.rewrite, Confirmation.map_added_fullscreen]
      simp [Confirmation.kind, Kind.own]
    rw [hlist]
    rfl
  | maximized serial axes =>
    obtain ⟨hserial, haxes⟩ := hm
    simp only [confirm, lorieWindowMaximizedConfirm, h]
    rw [if_neg (not_not_intro haxes), if_neg (by simp [hserial, hatoms]), if_pos (henv 0),
      dixChangeWindowProperty_eq (.inl rfl) henv]
    have hlist : (u.stateAtoms w).filter (fun value => value ≠ u.atom .maximizedHorz ∧ value ≠ u.atom .maximizedVert) ++
        (if axes &&& 1 ≠ 0 then [u.atom .maximizedHorz] else []) ++
          (if axes &&& 2 ≠ 0 then [u.atom .maximizedVert] else []) =
        (Confirmation.maximized serial axes).rewrite u.atom (u.stateAtoms w) := by
      rw [Confirmation.rewrite, Confirmation.map_added_maximized, List.append_assoc]
      simp [Confirmation.kind, Kind.own]
    rw [hlist]
    rfl
  | interaction serial flags =>
    obtain ⟨hserial, hflags⟩ := hm
    simp only [confirm, lorieWindowInteractionConfirm, h]
    rw [if_neg (not_not_intro hflags), if_neg (by simp [hserial, hatoms])]
    have hshown : (if flags &&& 1 ≠ 0 then flags &&& ~~~4 else flags) = shownFlags flags := rfl
    have hlist : (u.stateAtoms w).filter (fun value => value ≠ u.atom .hidden ∧ value ≠ u.atom .demandsAttention) ++
        (if shownFlags flags &&& 2 ≠ 0 then [u.atom .hidden] else []) ++
          (if shownFlags flags &&& 4 ≠ 0 then [u.atom .demandsAttention] else []) =
        (Confirmation.interaction serial flags).rewrite u.atom (u.stateAtoms w) := by
      rw [Confirmation.rewrite, Confirmation.map_added_interaction, List.append_assoc]
      simp [Confirmation.kind, Kind.own]
    simp only [dixChangeWindowProperty_eq (.inl rfl) henv, dixChangeWindowProperty_eq (.inr (.inl rfl)) henv,
      dixChangeWindowProperty_eq (.inr (.inr rfl)) henv, hshown, hlist]
    simp only [effect, others, writeActive, atomList]
    -- the change of the record marks the model, as every property does
    have hchange : ∀ (f : WindowRecord → WindowRecord) (p q : Prop) [Decidable p] [Decidable q] (a a' b b' : State),
        (p ↔ q) → a.change w.id f = a'.change w.id f → b.change w.id f = b'.change w.id f →
        (if p then a else b).change w.id f = (if q then a' else b').change w.id f := by
      intro f p q _ _ a a' b b' hpq ha hb
      by_cases hp : p
      · rw [if_pos hp, if_pos (hpq.1 hp), ha]
      · rw [if_neg hp, if_neg (fun hq => hp (hpq.2 hq)), hb]
    exact hchange _ _ _ _ _ _ _ Iff.rfl rfl rfl

/-! ## How the writes go together -/

theorem store_eq (id : Nat) (name : Name) (v : Option Property) (w : Window) :
    store id name v w =
      { w with properties := if w.id = id then Function.update w.properties name v else w.properties } := by
  unfold store
  split <;> rfl

theorem store_id (id : Nat) (name : Name) (v : Option Property) (w : Window) : (store id name v w).id = w.id := by
  rw [store_eq]

theorem store_self (id : Nat) (name : Name) (v v' : Option Property) (w : Window) :
    store id name v (store id name v' w) = store id name v w := by
  simp only [store_eq]
  split
  · rw [Function.update_idem]
  · rfl

theorem store_comm {id id' : Nat} {name name' : Name} (h : name ≠ name') (v v' : Option Property) (w : Window) :
    store id name v (store id' name' v' w) = store id' name' v' (store id name v w) := by
  simp only [store_eq]
  split <;> split <;> simp only [Function.update_comm h]

theorem storeProperty_eq (s : State) (id : Nat) (name : Name) (v : Option Property) :
    s.storeProperty id name v =
      { s with root := store id name v s.root, windows := s.windows.map (store id name v) } := rfl

theorem storeProperty_self (s : State) (id : Nat) (name : Name) (v v' : Option Property) :
    (s.storeProperty id name v').storeProperty id name v = s.storeProperty id name v := by
  simp only [storeProperty_eq, store_self, List.map_map]
  congr 1
  refine List.map_congr_left fun w _ => ?_
  exact store_self id name v v' w

theorem storeProperty_comm (s : State) {id id' : Nat} {name name' : Name} (h : name ≠ name') (v v' : Option Property) :
    (s.storeProperty id' name' v').storeProperty id name v = (s.storeProperty id name v).storeProperty id' name' v' := by
  simp only [storeProperty_eq, store_comm h, List.map_map]
  congr 1
  refine List.map_congr_left fun w _ => ?_
  exact store_comm h v v' w

theorem storeProperty_change (s : State) (id id' : Nat) (name : Name) (v : Option Property)
    (f : WindowRecord → WindowRecord) :
    (s.change id f).storeProperty id' name v = (s.storeProperty id' name v).change id f := rfl

/-- Another property stays. -/
theorem property_store {id : Nat} {name name' : Name} (h : name' ≠ name) (v : Option Property) (w : Window) :
    property (store id name v w) name' = property w name' := by
  simp only [property, store_eq]
  split
  · exact Function.update_of_ne h _ _
  · rfl

theorem property_store_self {id : Nat} {w : Window} (h : w.id = id) (name : Name) (v : Option Property) :
    property (store id name v w) name = v := by
  simp only [property, store_eq]
  rw [if_pos h, Function.update_self]

theorem reference_store {atom : Name → Nat} {id : Nat} {name name' : Name} (h : name' ≠ name) (v : Option Property)
    (w : Window) : reference atom (store id name v w) name' = reference atom w name' := by
  unfold reference
  rw [property_store h]

theorem root_id_store (s : State) (id : Nat) (name : Name) (v : Option Property) :
    (s.storeProperty id name v).root.id = s.root.id := store_id id name v s.root

theorem writeActive_cases (s : State) (id : Nat) (flags : BitVec 32) :
    s.writeActive id flags = s ∨
      ∃ v, s.writeActive id flags = s.storeProperty s.root.id .netActiveWindow (some v) := by
  unfold writeActive
  by_cases hc : flags &&& 1 ≠ 0 ∨ reference s.atom s.root .netActiveWindow = id
  · rw [if_pos hc]
    exact .inr ⟨_, rfl⟩
  · rw [if_neg hc]
    exact .inl rfl

theorem writeActive_atom (s : State) (id : Nat) (flags : BitVec 32) : (s.writeActive id flags).atom = s.atom := by
  rcases s.writeActive_cases id flags with heq | ⟨v, heq⟩ <;> rw [heq]
  rfl

theorem writeActive_store (s : State) {id : Nat} {name : Name} (h : name ≠ .netActiveWindow) (flags : BitVec 32)
    (v : Option Property) :
    (s.storeProperty id name v).writeActive id flags = (s.writeActive id flags).storeProperty id name v := by
  have hactive : reference (s.storeProperty id name v).atom (s.storeProperty id name v).root .netActiveWindow =
      reference s.atom s.root .netActiveWindow := reference_store h.symm v s.root
  unfold writeActive
  rw [hactive, root_id_store]
  by_cases hc : flags &&& 1 ≠ 0 ∨ reference s.atom s.root .netActiveWindow = id
  · rw [if_pos hc, if_pos hc, storeProperty_comm s h.symm]
    rfl
  · rw [if_neg hc, if_neg hc]

theorem others_store (s : State) (id : Nat) (c : Confirmation) (v : Option Property) :
    (s.storeProperty id .netWmState v).others id c = (s.others id c).storeProperty id .netWmState v := by
  cases c with
  | fullscreen serial on => rfl
  | maximized serial axes => rfl
  | interaction serial flags =>
    simp only [others]
    rw [storeProperty_comm s (show Name.wmState ≠ .netWmState by decide), writeActive_store _ (by decide)]
    rfl

theorem writeActive_change (s : State) (id id' : Nat) (flags : BitVec 32) (f : WindowRecord → WindowRecord) :
    (s.change id' f).writeActive id flags = (s.writeActive id flags).change id' f := by
  by_cases hc : flags &&& 1 ≠ 0 ∨ reference s.atom s.root .netActiveWindow = id
  · have hwrite : s.writeActive id flags = s.storeProperty s.root.id .netActiveWindow
        (some ⟨s.atom .window, 32, [if flags &&& 1 ≠ 0 then id else 0]⟩) := if_pos hc
    rw [hwrite]
    exact if_pos hc
  · have hwrite : s.writeActive id flags = s := if_neg hc
    rw [hwrite]
    exact if_neg hc

theorem others_change (s : State) (id id' : Nat) (c : Confirmation) (f : WindowRecord → WindowRecord) :
    (s.change id' f).others id c = (s.others id c).change id' f := by
  cases c with
  | fullscreen serial on => rfl
  | maximized serial axes => rfl
  | interaction serial flags => exact writeActive_change (s.storeProperty id .wmState _) id id' (shownFlags flags) f

/-- Writing a second time changes nothing. -/
theorem writeActive_self (s : State) {id : Nat} (hid : id ≠ 0) (flags : BitVec 32) :
    (s.writeActive id flags).writeActive id flags = s.writeActive id flags := by
  by_cases hf : flags &&& 1 ≠ 0
  · have hwrite : ∀ t : State, t.writeActive id flags =
        t.storeProperty t.root.id .netActiveWindow (some ⟨t.atom .window, 32, [id]⟩) := by
      intro t
      unfold writeActive
      rw [if_pos (.inl hf), if_pos hf]
    rw [hwrite, hwrite, root_id_store]
    exact storeProperty_self s s.root.id _ _ _
  · by_cases hr : reference s.atom s.root .netActiveWindow = id
    · have hwrite : s.writeActive id flags =
          s.storeProperty s.root.id .netActiveWindow (some ⟨s.atom .window, 32, [0]⟩) := by
        unfold writeActive
        rw [if_pos (.inr hr), if_neg hf]
      have hzero : reference s.atom (s.storeProperty s.root.id .netActiveWindow
          (some ⟨s.atom .window, 32, [0]⟩)).root .netActiveWindow = 0 := by
        unfold reference
        rw [storeProperty_eq]
        dsimp only
        rw [property_store_self rfl]
        simp
      rw [hwrite]
      refine if_neg ?_
      rintro (hc | hc)
      · exact hf hc
      · exact hid (hc.symm.trans hzero)
    · have hwrite : s.writeActive id flags = s := if_neg (not_or.2 ⟨hf, hr⟩)
      rw [hwrite, hwrite]

theorem others_self (s : State) {id : Nat} (hid : id ≠ 0) (c : Confirmation) :
    (s.others id c).others id c = s.others id c := by
  cases c with
  | fullscreen serial on => rfl
  | maximized serial axes => rfl
  | interaction serial flags =>
    simp only [others]
    rw [← writeActive_store _ (by decide), storeProperty_self, writeActive_atom, writeActive_self _ hid]
    rfl

/-- Only an interaction writes besides the atoms. -/
theorem others_comm (s : State) (id : Nat) (h : c.kind ≠ d.kind) :
    (s.others id c).others id d = (s.others id d).others id c := by
  cases c with
  | fullscreen serial on => rfl
  | maximized serial axes => rfl
  | interaction serial flags =>
    cases d with
    | fullscreen serial on => rfl
    | maximized serial axes => rfl
    | interaction serial' flags' => exact absurd rfl h

/-! ## The records -/

theorem updateLive_comp {f g : WindowRecord → WindowRecord} (hg : ∀ r, live id (g r) = live id r)
    (rs : List WindowRecord) : updateLive id f (updateLive id g rs) = updateLive id (fun r => f (g r)) rs := by
  induction rs with
  | nil => rfl
  | cons r rs ih =>
    simp only [updateLive]
    cases hr : live id r with
    | true =>
      rw [if_pos rfl, if_pos rfl, updateLive, if_pos ((hg r).trans hr)]
    | false =>
      rw [if_neg Bool.false_ne_true, if_neg Bool.false_ne_true, updateLive, hr, if_neg Bool.false_ne_true, ih]

theorem apply_live (c : Confirmation) (id : Nat) (r : WindowRecord) :
    live id { c.apply r with changed := true } = live id r := by
  cases c <;> rfl

theorem change_change (s : State) (id : Nat) (c d : Confirmation) :
    (s.change id c.apply).change id d.apply =
      { s with
        records := updateLive id (fun r => { d.apply { c.apply r with changed := true } with changed := true }) s.records
        dirty := true } := by
  simp only [change, update]
  rw [updateLive_comp (apply_live c id)]

theorem apply_comm (h : c.kind ≠ d.kind) (r : WindowRecord) :
    ({ d.apply { c.apply r with changed := true } with changed := true } : WindowRecord) =
      { c.apply { d.apply r with changed := true } with changed := true } := by
  cases c <;> cases d <;> first | rfl | exact absurd rfl h

theorem apply_self (c : Confirmation) (r : WindowRecord) :
    ({ c.apply { c.apply r with changed := true } with changed := true } : WindowRecord) =
      { c.apply r with changed := true } := by
  cases c with
  | fullscreen serial on =>
    simp only [Confirmation.apply, lorieFullscreenConfirm]
    split <;> simp
  | maximized serial axes =>
    simp only [Confirmation.apply, lorieMaximizedConfirm]
    split <;> simp
  | interaction serial flags => rfl

theorem change_comm (s : State) (id : Nat) (h : c.kind ≠ d.kind) :
    (s.change id c.apply).change id d.apply = (s.change id d.apply).change id c.apply := by
  rw [change_change, change_change]
  simp only [apply_comm h]

theorem change_self (s : State) (id : Nat) (c : Confirmation) :
    (s.change id c.apply).change id c.apply = s.change id c.apply := by
  rw [change_change]
  simp only [apply_self]
  rfl

/-! ## A window with its record -/

/-- The window of a confirmation and its record are there. -/
structure Ready (s : State) (id : Nat) (w : Window) (r : WindowRecord) : Prop where
  manager : s.managerWindow ≠ none
  window : s.lookup id = some w
  application : s.isApplication w = true
  record : s.records.find? (live id) = some r

theorem lookup_store (s : State) (id id' : Nat) (name : Name) (v : Option Property) :
    (s.storeProperty id name v).lookup id' = (s.lookup id').map (store id name v) := by
  unfold lookup
  rw [root_id_store]
  split
  · rfl
  · split
    · rfl
    · rw [storeProperty_eq, List.find?_map]
      congr 2
      funext w
      simp only [Function.comp, store_id]

/-- An application stays one while its states are written. -/
theorem isApplication_store {s : State} {w : Window} {name : Name} (hname : StateName name) (id : Nat) (v : Property)
    (h : s.isApplication w = true) : s.isApplication (store id name (some v) w) = true := by
  have hother : ∀ n, ¬StateName n → property (store id name (some v) w) n = property w n := by
    intro n hn
    refine property_store ?_ _ _
    rintro rfl
    exact hn hname
  have hstate : (property w .wmState).isSome = true → (property (store id name (some v) w) .wmState).isSome = true := by
    intro hsome
    simp only [property, store_eq] at hsome ⊢
    split
    · by_cases hn : Name.wmState = name
      · subst hn
        rw [Function.update_self]
        rfl
      · rw [Function.update_of_ne hn]
        exact hsome
    · exact hsome
  have hatom : ∀ item, hasAtom s.atom (store id name (some v) w) .netWmWindowType item =
      hasAtom s.atom w .netWmWindowType item := by
    intro item
    unfold hasAtom
    rw [hother _ (by simp [StateName])]
  have htransient : reference s.atom (store id name (some v) w) .wmTransientFor = reference s.atom w .wmTransientFor := by
    unfold reference
    rw [hother _ (by simp [StateName])]
  have hfields : (store id name (some v) w).id = w.id ∧ (store id name (some v) w).inputOutput = w.inputOutput ∧
      (store id name (some v) w).overrideRedirect = w.overrideRedirect ∧
      (store id name (some v) w).parent = w.parent := by
    rw [store_eq]
    exact ⟨rfl, rfl, rfl, rfl⟩
  obtain ⟨hid, hclass, hredirect, hparent⟩ := hfields
  unfold State.isApplication Windows.isApplication at h ⊢
  rw [hid, hclass, hredirect, hparent, htransient, hatom, hatom, hatom, hother .wmClass (by simp [StateName]),
    hother .wmName (by simp [StateName]), hother .netWmName (by simp [StateName])]
  split
  · rename_i hc
    rw [if_pos hc] at h
    exact h
  · rename_i hc
    rw [if_neg hc] at h
    split
    · rename_i hd
      rw [if_pos hd] at h
      exact h
    · rename_i hd
      rw [if_neg hd] at h
      split
      · rfl
      · rename_i hsplash
        rw [if_neg hsplash] at h
        split
        · rfl
        · rename_i hw
          rw [if_neg (fun hsome => hw (hstate hsome))] at h
          exact h

theorem find_change {f : WindowRecord → WindowRecord}
    (hf : ∀ r, live id { f r with changed := true } = live id r) :
    (s.change id f).records.find? (live id) = (s.records.find? (live id)).map fun r => { f r with changed := true } :=
  find_updateLive hf s.records

namespace Ready

theorem of_confirmed (h : s.confirmed id env = (some (w, r), u)) : Ready u id w r := by
  obtain ⟨hlookup, hrecord⟩ := confirmed_some h
  have hid := (lookup_some hlookup).1
  have hmanager : s.managerWindow ≠ none := by
    intro hn
    unfold confirmed at h
    rw [if_pos hn] at h
    cases h
  have hfind := recordFor_find hrecord
  rw [hid] at hfind
  have hspec := recordFor_spec s w env.record
  rw [hrecord] at hspec
  cases hspec with
  | found _ happ _ => exact ⟨hmanager, hlookup, happ, hfind⟩
  | new happ _ _ => exact ⟨hmanager, hlookup, happ, hfind⟩

theorem confirmed (h : Ready s id w r) (env : Env) : s.confirmed id env = (some (w, r), s) := by
  have hid := (lookup_some h.window).1
  have hrecord : s.recordFor w env.record = (some r, s) := by
    unfold recordFor
    rw [h.application, hid, h.record]
    rfl
  unfold State.confirmed
  rw [if_neg h.manager, h.window]
  dsimp only
  rw [hrecord]

theorem store (h : Ready s id w r) {name : Name} (hname : StateName name) (id' : Nat) (v : Property) :
    Ready (s.storeProperty id' name (some v)) id (Lorie.Windows.State.store id' name (some v) w) r where
  manager := h.manager
  window := by rw [lookup_store, h.window]; rfl
  application := by
    have happ := isApplication_store hname id' v h.application
    unfold State.isApplication at happ ⊢
    rw [root_id_store]
    exact happ
  record := h.record

theorem change (h : Ready s id w r) (c : Confirmation) :
    Ready (s.change id c.apply) id w { c.apply r with changed := true } where
  manager := h.manager
  window := h.window
  application := h.application
  record := by rw [find_change (apply_live c id), h.record]; rfl

theorem others (h : Ready s id w r) (c : Confirmation) : ∃ w', Ready (s.others id c) id w' r := by
  cases c with
  | fullscreen serial on => exact ⟨w, h⟩
  | maximized serial axes => exact ⟨w, h⟩
  | interaction serial flags =>
    have hstate := h.store (.inr (.inl rfl)) id
      ⟨s.atom .wmState, 32, [if shownFlags flags &&& 2 ≠ 0 then 3 else 1, 0]⟩
    simp only [State.others]
    obtain heq | ⟨v, heq⟩ := writeActive_cases (s.storeProperty id .wmState (some ⟨s.atom .wmState, 32,
      [if shownFlags flags &&& 2 ≠ 0 then 3 else 1, 0]⟩)) id (shownFlags flags)
    · rw [heq]
      exact ⟨_, hstate⟩
    · rw [heq]
      exact ⟨_, hstate.store (.inr (.inr rfl)) _ v⟩

theorem atomsOf (h : Ready s id w r) : s.atomsOf id = s.stateAtoms w := by
  unfold State.atomsOf
  rw [h.window]

theorem confirm (h : Ready s id w r) (hm : c.Matches r) (hatoms : env.atoms = true) (henv : ∀ i, env.change i = true) :
    s.confirm id env c = s.effect id c (c.rewrite s.atom (s.atomsOf id)) := by
  rw [confirm_eq (h.confirmed env) hm hatoms henv, h.atomsOf]

end Ready

theorem effect_eq (s : State) (id : Nat) (c : Confirmation) (atoms : List Nat) :
    s.effect id c atoms = ((s.others id c).change id c.apply).storeProperty id .netWmState (some (s.atomList atoms)) := by
  unfold effect
  rw [others_store]
  rfl

theorem others_atom (s : State) (id : Nat) (c : Confirmation) : (s.others id c).atom = s.atom := by
  cases c with
  | fullscreen serial on => rfl
  | maximized serial axes => rfl
  | interaction serial flags => exact writeActive_atom _ _ _

theorem effect_atom (s : State) (id : Nat) (c : Confirmation) (atoms : List Nat) : (s.effect id c atoms).atom = s.atom := by
  rw [effect_eq]
  exact others_atom s id c

/-- What a confirmation leaves ready for the next one. -/
theorem Ready.effect (h : Ready s id w r) (c : Confirmation) (atoms : List Nat) :
    ∃ w', Ready (s.effect id c atoms) id w' { c.apply r with changed := true } ∧
      (s.effect id c atoms).atomsOf id = atoms := by
  obtain ⟨w', hw'⟩ := h.others c
  have hready := (hw'.change c).store (.inl rfl) id (s.atomList atoms)
  rw [effect_eq]
  refine ⟨_, hready, ?_⟩
  have hid := (lookup_some hw'.window).1
  rw [hready.atomsOf]
  unfold stateAtoms
  rw [property_store_self hid]
  simp [atomList, storeProperty_eq, State.change, State.update, others_atom]

/-! ## Sequences of confirmations -/

/-- The same state, but for the order of the atoms of a window. -/
def Alike (id : Nat) (s t : State) : Prop :=
  ∃ p q : List Nat, p.Perm q ∧ s.storeProperty id .netWmState (some (s.atomList p)) = s ∧
    t = s.storeProperty id .netWmState (some (s.atomList q))

/-- What a confirmation leaves behind: the atoms that it set, the record as confirmed, and its other properties. -/
structure Reflects (s : State) (id : Nat) (c : Confirmation) : Prop where
  ready : ∃ w r, Ready s id w r
  list : s.storeProperty id .netWmState (some (s.atomList (s.atomsOf id))) = s
  own : Confirmation.owned c.kind s.atom (s.atomsOf id) = c.added.map s.atom
  others : s.others id c = s
  record : s.change id c.apply = s

/-- Accepted confirmations one after another -/
inductive Confirms (id : Nat) (s : State) : List Confirmation → State → Prop
  | nil : Confirms id s [] s
  | snoc {cs : List Confirmation} {t : State} {env : Env} {c : Confirmation} :
    Confirms id s cs t → t.Accepted id env c → Confirms id s (cs ++ [c]) (t.confirm id env c)

/-- Making a record leaves the windows. -/
theorem confirmed_windows (h : s.confirmed id env = (some (w, r), u)) : u.atom = s.atom ∧ u.atomsOf id = s.atomsOf id := by
  obtain ⟨-, hrecord⟩ := confirmed_some h
  have hspec := recordFor_spec s w env.record
  rw [hrecord] at hspec
  cases hspec with
  | found _ _ _ => exact ⟨rfl, rfl⟩
  | new _ _ _ => exact ⟨rfl, rfl⟩

/-- A confirmation in terms of what it does. -/
theorem Accepted.effect (h : s.Accepted id env c) :
    ∃ w r u, s.confirmed id env = (some (w, r), u) ∧ Ready u id w r ∧ c.Matches r ∧
      s.confirm id env c = u.effect id c (c.rewrite u.atom (u.atomsOf id)) := by
  obtain ⟨⟨w, r, u, hconf, hm⟩, hatoms, henv⟩ := h
  have hready := Ready.of_confirmed hconf
  refine ⟨w, r, u, hconf, hready, hm, ?_⟩
  rw [confirm_eq hconf hm hatoms henv, hready.atomsOf]

theorem id_ne_zero (h : Ready s id w r) : id ≠ 0 := by
  rintro rfl
  have hw := h.window
  simp [lookup] at hw

/-- The list that was written is the list. -/
theorem effect_list (s : State) (id : Nat) (c : Confirmation) (atoms : List Nat) :
    (s.effect id c atoms).storeProperty id .netWmState (some ((s.effect id c atoms).atomList atoms)) =
      s.effect id c atoms := by
  unfold atomList
  rw [effect_atom, effect_eq, storeProperty_self]
  rfl

theorem Reflects.self (h : Ready s id w r) (c : Confirmation) :
    Reflects (s.effect id c (c.rewrite s.atom (s.atomsOf id))) id c := by
  obtain ⟨w', hready, hlist⟩ := h.effect c (c.rewrite s.atom (s.atomsOf id))
  refine ⟨⟨_, _, hready⟩, ?_, ?_, ?_, ?_⟩
  · rw [hlist]
    exact effect_list s id c _
  · rw [hlist, effect_atom]
    exact Confirmation.owned_rewrite_self _
  · rw [effect_eq, others_store, others_change, others_self s (id_ne_zero h)]
  · rw [effect_eq, ← storeProperty_change, change_self]

/-- A confirmation of another kind leaves it. -/
theorem Reflects.other (hatom : Function.Injective s.atom) (h : Reflects s id c) (hk : d.kind ≠ c.kind) :
    Reflects (s.effect id d (d.rewrite s.atom (s.atomsOf id))) id c := by
  obtain ⟨w, r, hr⟩ := h.ready
  obtain ⟨w', hready, hlist⟩ := hr.effect d (d.rewrite s.atom (s.atomsOf id))
  refine ⟨⟨_, _, hready⟩, ?_, ?_, ?_, ?_⟩
  · rw [hlist]
    exact effect_list s id d _
  · rw [hlist, effect_atom, Confirmation.owned_rewrite_other hatom hk]
    exact h.own
  · rw [effect_eq, others_store, others_change, others_comm s id hk, h.others]
  · have hrecord : (s.others id d).change id c.apply = s.others id d := by rw [← others_change, h.record]
    rw [effect_eq, ← storeProperty_change, change_comm _ id hk, hrecord]

/-- Whatever the environment answers, the same record is found. -/
theorem confirmed_unique {env' : Env} {w' : Window} {r' : WindowRecord} {u' : State}
    (h : s.confirmed id env = (some (w, r), u)) (h' : s.confirmed id env' = (some (w', r'), u')) :
    w = w' ∧ r = r' ∧ u = u' := by
  obtain ⟨hw, hr⟩ := confirmed_some h
  obtain ⟨hw', hr'⟩ := confirmed_some h'
  obtain rfl : w = w' := Option.some.inj (hw.symm.trans hw')
  have hspec := recordFor_spec s w env.record
  have hspec' := recordFor_spec s w env'.record
  rw [hr] at hspec
  rw [hr'] at hspec'
  cases hspec with
  | found _ _ hfind =>
    cases hspec' with
    | found _ _ hfind' => exact ⟨rfl, Option.some.inj (hfind.symm.trans hfind'), rfl⟩
    | new _ hnone _ =>
      rw [hnone] at hfind
      cases hfind
  | new _ hnone _ =>
    cases hspec' with
    | found _ _ hfind =>
      rw [hnone] at hfind
      cases hfind
    | new _ _ _ => exact ⟨rfl, rfl, rfl⟩

/-- A confirmation keeps the serials. -/
theorem apply_matches (c d : Confirmation) (r : WindowRecord) :
    d.Matches { c.apply r with changed := true } ↔ d.Matches r := by
  have hfullscreen : ∀ (state : FullscreenState) serial on, (lorieFullscreenConfirm state serial on).serial = state.serial := by
    intro state serial on
    unfold lorieFullscreenConfirm
    split <;> rfl
  have hmaximized : ∀ (state : MaximizedState) serial axes, (lorieMaximizedConfirm state serial axes).serial = state.serial := by
    intro state serial axes
    unfold lorieMaximizedConfirm
    split <;> rfl
  cases c <;> cases d <;> simp only [Confirmation.apply, Confirmation.Matches, hfullscreen, hmaximized]

/-- Two confirmations one after the other -/
theorem effect_effect (s : State) (id : Nat) (c d : Confirmation) (atoms atoms' : List Nat) :
    (s.effect id c atoms).effect id d atoms' =
      ((((s.others id c).others id d).change id c.apply).change id d.apply).storeProperty id .netWmState
        (some (s.atomList atoms')) := by
  have hlist : (s.effect id c atoms).atomList atoms' = s.atomList atoms' := by
    unfold atomList
    rw [effect_atom]
  rw [effect_eq _ id d, hlist, effect_eq s id c, others_store, others_change, ← storeProperty_change, storeProperty_self]

/-- The second confirmation is accepted as the first one was. -/
theorem Accepted.after {env' : Env} (h : s.Accepted id env c) (h' : s.Accepted id env' d) :
    ∃ u, (s.confirm id env c).Accepted id env' d ∧
      (s.confirm id env c).confirm id env' d =
        (u.effect id c (c.rewrite u.atom (u.atomsOf id))).effect id d
          (d.rewrite u.atom (c.rewrite u.atom (u.atomsOf id))) ∧
      ∃ w r, s.confirmed id env = (some (w, r), u) := by
  obtain ⟨w, r, u, hconf, hready, hm, heq⟩ := h.effect
  obtain ⟨⟨w', r', u', hconf', hm'⟩, hatoms', henv'⟩ := h'
  obtain ⟨-, rfl, -⟩ := confirmed_unique hconf hconf'
  obtain ⟨w₁, hready₁, hlist⟩ := hready.effect c (c.rewrite u.atom (u.atomsOf id))
  have hm₁ := (apply_matches c d r).2 hm'
  refine ⟨u, ?_, ?_, w, r, hconf⟩
  · rw [heq]
    exact ⟨⟨_, _, _, hready₁.confirmed env', hm₁⟩, hatoms', henv'⟩
  · rw [heq, hready₁.confirm hm₁ hatoms' henv', hlist, effect_atom]

/-- **Confirmations of different kinds commute**, but for the order of the atoms. -/
theorem Accepted.commute {env' : Env} (hatom : Function.Injective s.atom) (h : s.Accepted id env c)
    (h' : s.Accepted id env' d) (hk : c.kind ≠ d.kind) :
    Alike id ((s.confirm id env c).confirm id env' d) ((s.confirm id env' d).confirm id env c) := by
  obtain ⟨u, -, heq, w, r, hconf⟩ := h.after h'
  obtain ⟨u', -, heq', w', r', hconf'⟩ := h'.after h
  obtain ⟨-, -, rfl⟩ := confirmed_unique hconf hconf'
  have hu : Function.Injective u.atom := by
    rw [(confirmed_windows hconf).1]
    exact hatom
  refine ⟨_, _, Confirmation.rewrite_comm hu hk (u.atomsOf id), ?_, ?_⟩
  · rw [heq]
    unfold atomList
    rw [effect_atom, effect_atom, effect_effect, storeProperty_self]
    rfl
  · rw [heq, heq']
    unfold atomList
    rw [effect_atom, effect_atom, effect_effect, effect_effect, storeProperty_self, others_comm u id hk,
      change_comm _ id hk]
    rfl

/-- **A confirmation that is made again** changes the order of the atoms at most. -/
theorem Reflects.again (h : Reflects s id c) (hc : s.Accepted id env c) : Alike id s (s.confirm id env c) := by
  obtain ⟨w, r, hr⟩ := h.ready
  obtain ⟨w', r', u, hconf, hready, hm, heq⟩ := hc.effect
  obtain ⟨-, -, rfl⟩ := confirmed_unique (hr.confirmed env) hconf
  refine ⟨_, _, Confirmation.rewrite_perm h.own, h.list, ?_⟩
  rw [heq, effect_eq, h.others, h.record]

/-- What holds after accepted confirmations. -/
theorem Confirms.run (hatom : Function.Injective s.atom) {cs : List Confirmation} (h : Confirms id s cs t) :
    t.atom = s.atom ∧
      (t.atomsOf id).filter (Confirmation.foreign s.atom) = (s.atomsOf id).filter (Confirmation.foreign s.atom) ∧
      ∀ as c bs, cs = as ++ c :: bs → (∀ d ∈ bs, d.kind ≠ c.kind) → Reflects t id c := by
  induction h with
  | nil =>
    refine ⟨rfl, rfl, ?_⟩
    intro as c bs hcs
    simp at hcs
  | @snoc cs t env c _ hc ih =>
    obtain ⟨hsame, hforeign, hreflects⟩ := ih
    obtain ⟨w, r, u, hconf, hready, hm, heq⟩ := hc.effect
    obtain ⟨huatom, hulist⟩ := confirmed_windows hconf
    obtain ⟨w', hready', hlist⟩ := hready.effect c (c.rewrite u.atom (u.atomsOf id))
    rw [heq]
    refine ⟨?_, ?_, ?_⟩
    · rw [effect_atom, huatom, hsame]
    · rw [hlist, huatom, hsame, Confirmation.filter_rewrite fun value hv => Confirmation.foreign_notMem hv c.kind, hulist,
        hforeign]
    · intro as d bs hcs hbs
      rcases List.eq_nil_or_concat bs with rfl | ⟨bs', e, rfl⟩
      · -- the last confirmation
        obtain ⟨-, hlast⟩ := List.append_inj' hcs rfl
        cases hlast
        exact Reflects.self hready c
      · rw [List.concat_eq_append] at hcs hbs
        rw [← List.cons_append, ← List.append_assoc] at hcs
        obtain ⟨hcs', hlast⟩ := List.append_inj' hcs rfl
        cases hlast
        have hold := hreflects as d bs' hcs' fun e he => hbs e (List.mem_append_left _ he)
        obtain ⟨w₀, r₀, hr₀⟩ := hold.ready
        obtain ⟨-, -, rfl⟩ := confirmed_unique (hr₀.confirmed env) hconf
        refine hold.other ?_ (hbs c (List.mem_append_right _ List.mem_cons_self))
        rw [hsame]
        exact hatom

/-- **`_NET_WM_STATE` rewriting preserves foreign state.** After any accepted confirmations whose writes succeed: the foreign
atoms are what they were; of a kind that was confirmed, each atom stands in the list once if it is set, and not otherwise;
the confirmation could be made again, confirmations of different kinds in either order; and no list exceeds its memory. -/
theorem state_atoms_rewritten {cs : List Confirmation} (hatom : Function.Injective s.atom) (h : Confirms id s cs t) :
    (t.atomsOf id).filter (Confirmation.foreign s.atom) = (s.atomsOf id).filter (Confirmation.foreign s.atom) ∧
      (∀ as c bs, cs = as ++ c :: bs → (∀ d ∈ bs, d.kind ≠ c.kind) →
        (∀ name ∈ c.kind.own, (t.atomsOf id).count (s.atom name) = if c.sets name then 1 else 0) ∧
          ∀ env, t.Accepted id env c → Alike id t (t.confirm id env c)) ∧
      (∀ c d env env', c.kind ≠ d.kind → t.Accepted id env c → t.Accepted id env' d →
        (t.confirm id env c).Accepted id env' d ∧ (t.confirm id env' d).Accepted id env c ∧
          Alike id ((t.confirm id env c).confirm id env' d) ((t.confirm id env' d).confirm id env c)) ∧
      ∀ c env, t.Accepted id env c → c.write s.atom (t.atomsOf id) = some ((t.confirm id env c).atomsOf id) := by
  obtain ⟨hsame, hforeign, hreflects⟩ := h.run hatom
  have hatom' : Function.Injective t.atom := by
    rw [hsame]
    exact hatom
  refine ⟨hforeign, ?_, ?_, ?_⟩
  · intro as c bs hcs hbs
    have hr := hreflects as c bs hcs hbs
    refine ⟨?_, fun env hc => hr.again hc⟩
    intro name hname
    rw [← hsame]
    exact Confirmation.count_owned hatom' hr.own hname
  · intro c d env env' hk hc hd
    obtain ⟨-, hcd, -⟩ := hc.after hd
    obtain ⟨-, hdc, -⟩ := hd.after hc
    exact ⟨hcd, hdc, hc.commute hatom' hd hk⟩
  · intro c env hc
    obtain ⟨w, r, u, hconf, hready, hm, heq⟩ := hc.effect
    obtain ⟨huatom, hulist⟩ := confirmed_windows hconf
    obtain ⟨w', hready', hlist⟩ := hready.effect c (c.rewrite u.atom (u.atomsOf id))
    rw [heq, hlist, Confirmation.write_eq, huatom, hulist, hsame]

/-- An application with a foreign atom, and both atoms of a maximized window -/
def stateful : Window where
  id := 100
  parent := 1
  inputOutput := true
  overrideRedirect := false
  realized := true
  x := 0
  y := 0
  width := 80
  height := 60
  properties := fun name =>
    match name with
    | .wmClass => some ⟨31, 8, [97, 0]⟩
    | .netWmState =>
      some ⟨Name.atom.ctorIdx, 32, [77, Name.maximizedHorz.ctorIdx, 77, Name.maximizedHorz.ctorIdx,
        Name.maximizedVert.ctorIdx, 88]⟩
    | _ => none
  number := 1
  wasRealized := true

/-- The model with that window -/
def statefulState : State :=
  { State.init Name.ctorIdx (rootRecord 1 800 600) (some 2) with windows := [stateful] }

/-- The window is confirmed maximized along one axis, under the serial of its new record. -/
theorem state_atoms_rewritten_maximized :
    ∃ t, Confirms 100 statefulState [.maximized 2 1] t ∧ t.atomsOf 100 = [77, 77, 88, Name.maximizedHorz.ctorIdx] ∧
      (t.atomsOf 100).count (statefulState.atom .maximizedHorz) = 1 := by
  have hatom : Function.Injective statefulState.atom := by
    intro a b hab
    rw [← Name.ofNat_ctorIdx a, ← Name.ofNat_ctorIdx b]
    exact congrArg Name.ofNat hab
  have hc : statefulState.Accepted 100 ⟨true, true, fun _ => true⟩ (.maximized 2 1) :=
    ⟨⟨_, _, _, rfl, rfl, by decide⟩, rfl, fun _ => rfl⟩
  have hrun := Confirms.nil.snoc hc
  refine ⟨_, hrun, ?_, ?_⟩
  · rfl
  · exact ((state_atoms_rewritten hatom hrun).2.1 [] _ [] rfl (by simp)).1 .maximizedHorz (by decide)

end State

end Lorie.Windows
