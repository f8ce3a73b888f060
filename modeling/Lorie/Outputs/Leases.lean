import Lorie.Keyboard.Keysym
import Lorie.Lib.Levels
import Lorie.Lib.Transition
import Lorie.Outputs.Model
import Mathlib.Data.List.TakeWhile
import Mathlib.Logic.Function.Basic

/-!
# Input leases of the outputs

Every output selection keeps the keys and buttons that its host holds down. They share one keyboard and one mouse:
`outputKey` and `outputButton` queue an event only when no other selection holds the same key or button. A text is typed on
the same keyboard, past the leases.

The selections are nodes in memory; `selections` is the list of their addresses. The environment answers for the rest of
the server: whether a window exists, whether it is a shell window, what `calloc` returns, and the keyboard on which a text
is typed. The other calls of `lorieOutputCommand` into other modules change nothing here and are left out. `events` is the
history of what `outputKey` and `outputButton` queued, and `device` is what the devices are behind all that was queued.

- `outputInput_queued`, `outputInput_device`: one call queues the edge of the level;
- `step_exact`: so does every operation as a whole, whatever it unlinks;
- `device_follows_leases`: the events of every run alternate, and the device is pressed while some selection holds it, as
  long as no text disturbs the leases.
-/

namespace Lorie.Outputs.Leases

open Lorie.Lib

/-! ## Selections -/

/-- A key of `lorieKeyboard` or a button of `lorieMouse`. -/
inductive Input where
  | key (code : Nat)
  | button (number : Nat)
  deriving DecidableEq, Repr

/-- `OutputSelection` -/
structure OutputSelection where
  id : Nat
  window : Nat
  changed : Bool
  dead : Bool
  resizePending : Bool
  geometryPending : Bool
  ownsSize : Bool
  shell : Bool
  parent : Nat
  viewport : ShellRect
  presentation : Nat
  width : Int
  height : Int
  /-- `keys[32]` -/
  keys : BitVec 256
  buttons : BitVec 8
  deriving DecidableEq, Repr

namespace OutputSelection

/-- The memory of a new selection. -/
def zero : OutputSelection :=
  { id := 0, window := 0, changed := false, dead := false, resizePending := false, geometryPending := false,
    ownsSize := false, shell := false, parent := 0, viewport := ⟨0, 0, 0, 0⟩, presentation := 0, width := 0, height := 0,
    keys := 0, buttons := 0 }

def borrowed (o : OutputSelection) : Bool := o.shell || o.parent ≠ 0

def holds (o : OutputSelection) : Input → Bool
  | .key code => o.keys.getLsbD code
  | .button number => o.buttons.getLsbD number

/-- The bit of a key or button set or cleared. -/
def set (o : OutputSelection) (down : Bool) : Input → OutputSelection
  | .key code =>
    { o with keys := if down then o.keys ||| BitVec.twoPow 256 code else o.keys &&& ~~~BitVec.twoPow 256 code }
  | .button number =>
    { o with
      buttons := if down then o.buttons ||| BitVec.twoPow 8 number else o.buttons &&& ~~~BitVec.twoPow 8 number }

end OutputSelection

structure State where
  heap : Nat → OutputSelection
  selections : List Nat
  /-- History: what `outputKey` and `outputButton` queued. -/
  events : List (Input × Edge)
  /-- The keys of `lorieKeyboard` and the buttons of `lorieMouse` that are down behind what was queued. -/
  device : Input → Bool

namespace State

def init : State := { heap := fun _ => .zero, selections := [], events := [], device := fun _ => false }

/-- One of the nodes changes. -/
def modify (s : State) (o : Nat) (f : OutputSelection → OutputSelection) : State :=
  { s with heap := Function.update s.heap o (f (s.heap o)) }

/-- A loop over the selections that changes each by itself. -/
def each (s : State) (f : OutputSelection → OutputSelection) : State :=
  { s with heap := fun o => if o ∈ s.selections then f (s.heap o) else s.heap o }

/-- `separated(output)` -/
def separated (s : State) (o : Nat) : Bool :=
  s.selections.any fun child => !(s.heap child).dead && (s.heap child).parent = (s.heap o).id

/-! ## Leases -/

/-- `outputKey` and `outputButton`. -/
def outputInput (s : State) (output : Nat) (i : Input) (down : Bool) : State :=
  if (s.heap output).holds i = down then s
  else
    let s := s.modify output (·.set down i)
    if s.selections.any fun other => other ≠ output && (s.heap other).holds i then s
    else
      { s with
        events := s.events ++ [(i, if down then .press else .release)]
        device := Function.update s.device i down }

def outputKey (s : State) (output key : Nat) (down : Bool) : State := s.outputInput output (.key key) down

def outputButton (s : State) (output button : Nat) (down : Bool) : State := s.outputInput output (.button button) down

/-- The keys and buttons that `releaseInput` goes through. -/
def inputs : List Input :=
  ((List.range 248).map fun n => .key (n + 8)) ++ (List.range 7).map fun n => .button (n + 1)

def releaseInput (s : State) (output : Nat) : State :=
  inputs.foldl (fun s i => s.outputInput output i false) s

def lorieReleaseOutputButton (s : State) (id window button : Nat) : State :=
  if button < 1 ∨ button > 7 then s
  else
    match s.selections.find? fun o => (s.heap o).id = id && (s.heap o).window = window with
    | some output => s.outputButton output button false
    | none => s

def lorieReleaseOutputInput (s : State) : State := s.selections.foldl releaseInput s

def lorieOutputWindowDestroyed (s : State) (id : Nat) : State :=
  s.selections.foldl (fun s o =>
    if (s.heap o).window = id then (s.releaseInput o).modify o fun x => { x with dead := true, changed := true } else s) s

/-- The next selection that may own the size of a window. -/
def inheritSize (s : State) (output : Nat) : State :=
  if (s.heap output).ownsSize then
    match s.selections.find? fun other =>
      other ≠ output && !(s.heap other).dead && !(s.heap other).borrowed &&
        (s.heap other).window = (s.heap output).window && 0 < (s.heap other).width with
    | some other => s.modify other fun x => { x with ownsSize := true, geometryPending := true }
    | none => s
  else s

/-- `releaseSelection` of a node that is not in the list any more. -/
def releaseSelection (s : State) (output : Nat) : State :=
  let o := s.heap output
  let s := s.each fun other =>
    let other := if other.id = o.parent then { other with changed := true, geometryPending := true } else other
    if other.parent = o.id then { other with dead := true, changed := true } else other
  (s.releaseInput output).inheritSize output

/-- The loop of `lorieResetOutputs`. -/
def lorieResetOutputs (s : State) : State :=
  s.selections.foldl (fun s o => releaseSelection { s with selections := s.selections.tail } o) s

/-- What `loriePublishOutputs` does to `dead`: the windows that are gone. -/
def loriePublishOutputs (s : State) (gone : List Nat) : State :=
  s.each fun o => { o with dead := o.dead || gone.contains o.window }

end State

/-! ## Commands -/

/-- `LorieOutputOperation` -/
inductive Operation where
  | bind | resize | pointer | key | release | focus | text | observe | close | dpi | fullscreenConfirm | inspect | shell
  | viewport | blur | maximizedConfirm | scroll | touch | tablet | cancelContacts | interactionConfirm | colorScheme
  deriving DecidableEq, Repr

/-- `LorieOutputCommand`, as far as the selections depend on it. -/
structure Command where
  operation : Operation
  down : Bool
  output : Nat
  window : Nat
  x : Int
  y : Int
  detail : Nat
  serial : Nat
  viewport : ShellRect
  deriving DecidableEq, Repr

/-- `LORIE_WINDOW_SIZE_LIMIT` -/
def windowSizeLimit : Int := 16384

/-- A cast to `uint32_t`. -/
def uint32 (x : Int) : Nat := (x % 4294967296).toNat

/-- What decides about the keys of a text. -/
structure Typing where
  ucs2keysym : Int → Keyboard.KeySym
  xkb : Keyboard.Xkb
  master : Keyboard.Master

/-- The events of `lorieKeyboard` for the character of a `LORIE_OUTPUT_TEXT`. -/
def Typing.queued (t : Typing) (x : Int) : List Keyboard.KeyEvent := Keyboard.typed t.xkb t.master (t.ucs2keysym x)

/-- What the rest of the server answers to one command. -/
structure Env where
  /-- `pScreenPtr && pScreenPtr->root` -/
  screen : Bool
  /-- `lorieShellWindow` -/
  shellWindow : Nat → Bool
  /-- `dixLookupWindow` -/
  windowExists : Nat → Bool
  /-- `calloc` -/
  calloc : Option Nat
  typing : Typing

namespace State

/-- Key events are queued for `lorieKeyboard`. -/
def queueKeys (s : State) (l : List Keyboard.KeyEvent) : State :=
  { s with
    device := fun i => match i with
      | .key code => after (fun code => s.device (.key code)) l code
      | .button number => s.device (.button number) }

/-- The node that `LORIE_OUTPUT_BIND` makes. -/
def newSelection (c : Command) : OutputSelection :=
  { OutputSelection.zero with
    id := c.output
    window := c.window
    shell := c.detail = 1
    parent := if c.detail = 2 then uint32 c.x else 0
    changed := true
    geometryPending := true }

/-- The new node is put at `link`. -/
def create (s : State) (c : Command) (env : Env) (before after : List Nat) : State :=
  match env.calloc with
  | none => s
  | some o =>
    { s with heap := Function.update s.heap o (newSelection c), selections := before ++ o :: after }

/-- `LORIE_OUTPUT_BIND`, after the selection with the same id was released: `before` and `after` are the selections on
both sides of `link`. -/
def bind (s : State) (c : Command) (env : Env) (before after : List Nat) : State :=
  if c.detail > 2 ∨ (c.detail = 1 ∧ !env.shellWindow c.window) then s
  else
    match s.selections.find? fun o => (s.heap o).id = uint32 c.x with
    | none => if c.detail = 2 then s else s.create c env before after
    | some p =>
      if c.detail = 2 then
        if (s.heap p).dead || (s.heap p).borrowed || s.separated p || (s.heap p).window = 0 ||
            (s.heap p).window ≠ c.window then s
        else (s.modify p fun o => { o with changed := true, geometryPending := true }).create c env before after
      else s.create c env before after

/-- The operations on a selection that is bound to the window of the command. -/
def operate (s : State) (c : Command) (env : Env) (o : Nat) : State :=
  let output := s.heap o
  if output.shell ∧ !env.shellWindow output.window then
    (s.releaseInput o).modify o fun x => { x with dead := true, changed := true }
  else
    match c.operation with
    | .viewport =>
      let v := c.viewport
      if !output.borrowed ∨ c.serial = 0 ∨ v.left ≥ v.right ∨ v.top ≥ v.bottom ∨
          v.left < -16384 ∨ v.top < -16384 ∨ v.right > 16384 ∨ v.bottom > 16384 then s
      else s.modify o fun x => { x with viewport := v, presentation := c.serial, changed := true }
    | .resize =>
      if output.borrowed ∨ c.x < 1 ∨ c.y < 1 ∨ c.x > windowSizeLimit ∨ c.y > windowSizeLimit then s
      else
        let s := s.modify o fun x => { x with width := c.x, height := c.y, resizePending := true }
        if output.window = 0 then s
        else (s.each fun x => if x.window = output.window then { x with ownsSize := false } else x).modify o
          fun x => { x with ownsSize := true }
    | operation =>
      if output.window ≠ 0 ∧ !env.windowExists output.window then s
      else
        match operation with
        | .blur => s.releaseInput o
        | .pointer => if 1 ≤ c.detail ∧ c.detail ≤ 7 then s.outputButton o c.detail c.down else s
        | .key => if 8 ≤ c.detail ∧ c.detail ≤ 255 then s.outputKey o c.detail c.down else s
        | .text => s.queueKeys (env.typing.queued c.x)
        | _ => s

def lorieOutputCommand (s : State) (c : Command) (env : Env) : State :=
  if !env.screen then s
  else
    match c.operation with
    | .shell | .observe | .inspect | .dpi | .colorScheme | .close | .fullscreenConfirm | .maximizedConfirm
    | .interactionConfirm => s
    | operation =>
      if c.output = 0 then s
      else
        let before := s.selections.takeWhile fun o => (s.heap o).id ≠ c.output
        let found := s.selections.dropWhile fun o => (s.heap o).id ≠ c.output
        let unlinked : State := { s with selections := before ++ found.tail }
        match operation, found with
        | .release, [] => s
        | .release, o :: _ => unlinked.releaseSelection o
        | .bind, [] => s.bind c env before []
        | .bind, o :: after => (unlinked.releaseSelection o).bind c env before after
        | _, [] => s
        | _, o :: _ => if (s.heap o).dead ∨ (s.heap o).window ≠ c.window then s else s.operate c env o

end State

inductive Action where
  | lorieOutputCommand (c : Command) (env : Env)
  | lorieReleaseOutputButton (id window button : Nat)
  | lorieReleaseOutputInput
  | lorieOutputWindowDestroyed (id : Nat)
  | lorieResetOutputs
  | loriePublishOutputs (gone : List Nat)

/-- One operation on the selections. Memory that `calloc` returns is not in use. -/
def step (s : State) : Action → Option State
  | .lorieOutputCommand c env =>
    if ∀ o ∈ env.calloc, o ∉ s.selections then some (s.lorieOutputCommand c env) else none
  | .lorieReleaseOutputButton id window button => some (s.lorieReleaseOutputButton id window button)
  | .lorieReleaseOutputInput => some s.lorieReleaseOutputInput
  | .lorieOutputWindowDestroyed id => some (s.lorieOutputWindowDestroyed id)
  | .lorieResetOutputs => some s.lorieResetOutputs
  | .loriePublishOutputs gone => some (s.loriePublishOutputs gone)

/-! ## Levels -/

/-- The keys and buttons of the devices. -/
def Input.Valid : Input → Prop
  | .key code => 8 ≤ code ∧ code ≤ 255
  | .button number => 1 ≤ number ∧ number ≤ 7

instance : (i : Input) → Decidable i.Valid
  | .key code => inferInstanceAs (Decidable (8 ≤ code ∧ code ≤ 255))
  | .button number => inferInstanceAs (Decidable (1 ≤ number ∧ number ≤ 7))

/-- Some of the nodes hold the key or button. -/
def level (heap : Nat → OutputSelection) (l : List Nat) (i : Input) : Bool := l.any fun o => (heap o).holds i

/-- Some selection holds the key or button. -/
def State.held (s : State) (i : Input) : Bool := level s.heap s.selections i

/-- The events that were queued for a key or button. -/
def State.queued (s : State) (i : Input) : List Edge := (s.events.filter (·.1 = i)).map (·.2)

theorem mem_inputs {i : Input} (hi : i.Valid) : i ∈ State.inputs := by
  unfold State.inputs
  cases i with
  | key code =>
    obtain ⟨h₁, h₂⟩ := hi
    exact List.mem_append_left _ (List.mem_map.2 ⟨code - 8, List.mem_range.2 (by omega), by congr; omega⟩)
  | button number =>
    obtain ⟨h₁, h₂⟩ := hi
    exact List.mem_append_right _ (List.mem_map.2 ⟨number - 1, List.mem_range.2 (by omega), by congr; omega⟩)

namespace OutputSelection

variable {o : OutputSelection} {i j : Input} {down : Bool}

/-- The bit of the key or button itself. -/
theorem holds_set_self (hi : i.Valid) : (o.set down i).holds i = down := by
  cases i with
  | key code =>
    have hlt : code < 256 := by
      obtain ⟨-, h⟩ := hi
      omega
    cases down <;> simp [holds, set, hlt]
  | button number =>
    have hlt : number < 8 := by
      obtain ⟨-, h⟩ := hi
      omega
    cases down <;> simp [holds, set, hlt]

/-- The other bits stay. -/
theorem holds_set_ne (h : j ≠ i) : (o.set down i).holds j = o.holds j := by
  cases i with
  | key code =>
    cases j with
    | button number => rfl
    | key other =>
      have hne : code ≠ other := fun e => h (by rw [e])
      cases down <;> simp [holds, set, hne]
      intro hk
      exact BitVec.lt_of_getLsbD hk
  | button number =>
    cases j with
    | key code => rfl
    | button other =>
      have hne : number ≠ other := fun e => h (by rw [e])
      cases down <;> simp [holds, set, hne]
      intro hk
      exact BitVec.lt_of_getLsbD hk

end OutputSelection

theorem level_cons (heap : Nat → OutputSelection) (o : Nat) (l : List Nat) (i : Input) :
    level heap (o :: l) i = ((heap o).holds i || level heap l i) := rfl

/-- A node of the list adds nothing. -/
theorem level_cons_of_mem (heap : Nat → OutputSelection) {o : Nat} {l : List Nat} (h : o ∈ l) (i : Input) :
    level heap (o :: l) i = level heap l i := by
  rw [level_cons]
  cases hh : (heap o).holds i with
  | false => rfl
  | true =>
    symm
    exact List.any_eq_true.2 ⟨o, h, hh⟩

/-- Where a node stands in the list does not matter. -/
theorem level_middle (heap : Nat → OutputSelection) (before after : List Nat) (o : Nat) (i : Input) :
    level heap (before ++ o :: after) i = level heap (o :: (before ++ after)) i := by
  simp only [level, List.any_append, List.any_cons]
  cases (heap o).holds i <;> simp

theorem level_congr {heap heap' : Nat → OutputSelection} {l : List Nat} {i : Input}
    (h : ∀ o ∈ l, (heap' o).holds i = (heap o).holds i) : level heap' l i = level heap l i := by
  unfold level
  induction l with
  | nil => rfl
  | cons o l ih =>
    rw [List.any_cons, List.any_cons, h o List.mem_cons_self, ih fun p hp => h p (List.mem_cons_of_mem _ hp)]

/-! ## What changes no lease -/

/-- The same nodes in the list, the same leases, nothing queued. -/
structure SameLeases (s t : State) : Prop where
  selections : t.selections = s.selections
  events : t.events = s.events
  device : t.device = s.device
  holds : ∀ o i, (t.heap o).holds i = (s.heap o).holds i

namespace SameLeases

variable {s t u : State}

theorem refl (s : State) : SameLeases s s := ⟨rfl, rfl, rfl, fun _ _ => rfl⟩

theorem trans (h₁ : SameLeases s t) (h₂ : SameLeases t u) : SameLeases s u where
  selections := h₂.selections.trans h₁.selections
  events := h₂.events.trans h₁.events
  device := h₂.device.trans h₁.device
  holds o i := (h₂.holds o i).trans (h₁.holds o i)

theorem level (h : SameLeases s t) (l : List Nat) (i : Input) : Leases.level t.heap l i = Leases.level s.heap l i :=
  level_congr fun o _ => h.holds o i

theorem modify (s : State) (o : Nat) {f : OutputSelection → OutputSelection} (hf : ∀ x i, (f x).holds i = x.holds i) :
    SameLeases s (s.modify o f) := by
  refine ⟨rfl, rfl, rfl, fun p i => ?_⟩
  by_cases hp : p = o
  · subst hp
    simp only [State.modify, Function.update_self, hf]
  · simp only [State.modify, Function.update_of_ne hp]

theorem each (s : State) {f : OutputSelection → OutputSelection} (hf : ∀ x i, (f x).holds i = x.holds i) :
    SameLeases s (s.each f) := by
  refine ⟨rfl, rfl, rfl, fun p i => ?_⟩
  simp only [State.each]
  split
  · exact hf _ _
  · rfl

theorem inheritSize (s : State) (o : Nat) : SameLeases s (s.inheritSize o) := by
  unfold State.inheritSize
  split
  · split
    · exact modify s _ fun x i => by cases i <;> rfl
    · exact refl s
  · exact refl s

end SameLeases

/-! ## One lease -/

section Lease

variable {s : State} {o : Nat} {i j : Input} {down : Bool}

@[simp] theorem outputInput_selections (s : State) (o : Nat) (i : Input) (down : Bool) :
    (s.outputInput o i down).selections = s.selections := by
  simp only [State.outputInput]
  split
  · rfl
  · split <;> rfl

/-- The node itself after the call. -/
theorem outputInput_holds (hi : i.Valid) (j : Input) :
    ((s.outputInput o i down).heap o).holds j = if j = i then down else (s.heap o).holds j := by
  have hset : ((s.modify o (·.set down i)).heap o).holds j = if j = i then down else (s.heap o).holds j := by
    simp only [State.modify, Function.update_self]
    split
    · rename_i h
      rw [h, OutputSelection.holds_set_self hi]
    · rename_i h
      exact OutputSelection.holds_set_ne h
  simp only [State.outputInput]
  split
  · rename_i h
    split
    · rename_i hj
      rw [hj, h]
    · rfl
  · split <;> exact hset

theorem queued_append (s : State) (e : Edge) (d : Input → Bool) (j : Input) :
    ({ s with events := s.events ++ [(i, e)], device := d } : State).queued j = s.queued j ++ if i = j then [e] else [] := by
  unfold State.queued
  by_cases h : i = j
  · simp [h]
  · simp [h]

/-- The level before and after the bit of a node changed, when no other node holds it. -/
theorem level_of_others (heap : Nat → OutputSelection) (l : List Nat)
    (h : (l.any fun other => other ≠ o && (heap other).holds i) = false) :
    level heap (o :: l) i = (heap o).holds i := by
  rw [level_cons]
  cases hh : (heap o).holds i with
  | true => rfl
  | false =>
    rw [Bool.false_or]
    refine List.any_eq_false.2 fun p hp hpi => ?_
    by_cases hpo : p = o
    · rw [hpo, hh] at hpi
      cases hpi
    · have := List.any_eq_false.1 h p hp
      simp [hpo, hpi] at this

/-- **One call** of `outputKey` or `outputButton` queues the edge of the level of the node and the list. -/
theorem outputInput_queued (hi : i.Valid) (j : Input) :
    (s.outputInput o i down).queued j = s.queued j ++
      edge (level s.heap (o :: s.selections) j) (level (s.outputInput o i down).heap (o :: s.selections) j) := by
  by_cases hsame : (s.heap o).holds i = down
  · have hs : s.outputInput o i down = s := by
      simp only [State.outputInput]
      exact if_pos hsame
    rw [hs, edge_self, List.append_nil]
  obtain ⟨t, ht⟩ : ∃ t, s.modify o (·.set down i) = t := ⟨_, rfl⟩
  have hother : ∀ p, p ≠ o → t.heap p = s.heap p := by
    intro p hp
    rw [← ht]
    exact Function.update_of_ne hp _ _
  have hself : (t.heap o).holds i = down := by
    rw [← ht]
    simp only [State.modify, Function.update_self, OutputSelection.holds_set_self hi]
  have hdown : (s.heap o).holds i = !down := by
    cases h : (s.heap o).holds i <;> cases down <;> simp_all
  have hsel : t.selections = s.selections := by rw [← ht]; rfl
  have hev : t.queued j = s.queued j := by rw [← ht]; rfl
  have hcall : s.outputInput o i down =
      if t.selections.any fun other => other ≠ o && (t.heap other).holds i then t
      else
        { t with
          events := t.events ++ [(i, if down then .press else .release)]
          device := Function.update t.device i down } := by
    simp only [State.outputInput, if_neg hsame, ht]
  by_cases hj : i = j
  · subst hj
    cases hany : t.selections.any fun other => other ≠ o && (t.heap other).holds i with
    | true =>
      -- another node holds it: the level is up before and after
      obtain ⟨p, hp, hpi⟩ := List.any_eq_true.1 hany
      simp only [Bool.and_eq_true, decide_eq_true_eq] at hpi
      obtain ⟨hpo, hpi⟩ := hpi
      rw [hsel] at hp
      have hafter : level t.heap (o :: s.selections) i = true := List.any_eq_true.2 ⟨p, List.mem_cons_of_mem _ hp, hpi⟩
      rw [hother p hpo] at hpi
      have hbefore : level s.heap (o :: s.selections) i = true := List.any_eq_true.2 ⟨p, List.mem_cons_of_mem _ hp, hpi⟩
      rw [hcall, hany, if_pos rfl, hbefore, hafter, hev, edge_self, List.append_nil]
    | false =>
      have hafter : level t.heap (o :: s.selections) i = down := by
        rw [← hsel, level_of_others _ _ hany, hself]
      have hany' : (s.selections.any fun other => other ≠ o && (s.heap other).holds i) = false := by
        refine List.any_eq_false.2 fun p hp hpi => ?_
        simp only [Bool.and_eq_true, decide_eq_true_eq] at hpi
        have h := List.any_eq_false.1 hany p (hsel ▸ hp)
        rw [hother p hpi.1] at h
        simp [hpi] at h
      have hbefore : level s.heap (o :: s.selections) i = !down := by
        rw [level_of_others _ _ hany', hdown]
      rw [hcall, hany, if_neg Bool.false_ne_true, queued_append, if_pos rfl, hev]
      show _ = s.queued i ++ edge _ (level t.heap _ i)
      rw [hbefore, hafter]
      cases down <;> rfl
  · -- another key or button: nothing of it changes
    have hholds : ∀ p, (t.heap p).holds j = (s.heap p).holds j := by
      intro p
      by_cases hp : p = o
      · rw [← ht, hp]
        simp only [State.modify, Function.update_self]
        exact OutputSelection.holds_set_ne fun e => hj e.symm
      · rw [hother p hp]
    have hlevel : level t.heap (o :: s.selections) j = level s.heap (o :: s.selections) j :=
      level_congr fun p _ => hholds p
    rw [hcall]
    split
    · rw [hlevel, hev, edge_self, List.append_nil]
    · rw [queued_append, if_neg hj, hev]
      show _ = s.queued j ++ edge _ (level t.heap _ j)
      rw [hlevel, edge_self]

/-- What one call does to the device is what it queues. -/
theorem outputInput_drives (s : State) (o : Nat) (i : Input) (down : Bool) (j : Input) :
    ∃ es, (s.outputInput o i down).queued j = s.queued j ++ es ∧
      (s.outputInput o i down).device j = drive (s.device j) es := by
  simp only [State.outputInput]
  split
  · exact ⟨[], (List.append_nil _).symm, rfl⟩
  · split
    · exact ⟨[], (List.append_nil _).symm, rfl⟩
    · refine ⟨_, queued_append (s.modify o (·.set down i)) _ _ j, ?_⟩
      by_cases hj : i = j
      · subst hj
        rw [if_pos rfl]
        refine (Function.update_self i down s.device).trans ?_
        cases down <;> rfl
      · rw [if_neg hj]
        exact Function.update_of_ne (Ne.symm hj) down s.device

/-- **One call** of `outputKey` or `outputButton` leaves the device at the level, when it was there before. -/
theorem outputInput_device (hi : i.Valid) (j : Input) (h : s.device j = level s.heap (o :: s.selections) j) :
    (s.outputInput o i down).device j = level (s.outputInput o i down).heap (o :: s.selections) j := by
  obtain ⟨es, hes, hdevice⟩ := outputInput_drives s o i down j
  rw [outputInput_queued hi j] at hes
  rw [hdevice, ← List.append_cancel_left hes, h, drive_edge]

end Lease

/-! ## Giving up leases -/

/-- The level of the nodes only falls, its edge is what was queued, and the device stays at the level. -/
structure Falls (j : Input) (s : State) (l : List Nat) (t : State) (m : List Nat) : Prop where
  falls : level t.heap m j → level s.heap l j
  queued : t.queued j = s.queued j ++ edge (level s.heap l j) (level t.heap m j)
  device : s.device j = level s.heap l j → t.device j = level t.heap m j

namespace Falls

variable {j : Input} {s t u : State} {l m n : List Nat}

theorem trans (h₁ : Falls j s l t m) (h₂ : Falls j t m u n) : Falls j s l u n where
  falls h := h₁.falls (h₂.falls h)
  queued := by rw [h₂.queued, h₁.queued, List.append_assoc, edge_trans h₁.falls h₂.falls]
  device h := h₂.device (h₁.device h)

/-- Nothing was queued, and the level is the same. -/
theorem of_level (hlevel : level t.heap m j = level s.heap l j) (hev : t.events = s.events) (hd : t.device = s.device) :
    Falls j s l t m where
  falls h := hlevel ▸ h
  queued := by
    rw [hlevel, edge_self, List.append_nil]
    unfold State.queued
    rw [hev]
  device h := by rw [hd, hlevel, h]

theorem same (h : SameLeases s t) (l : List Nat) : Falls j s l t l := of_level (h.level l j) h.events h.device

theorem outputInput (s : State) (o : Nat) {i : Input} (hi : i.Valid) :
    Falls j s (o :: s.selections) (s.outputInput o i false) (o :: s.selections) := by
  refine ⟨fun h => ?_, outputInput_queued hi j, outputInput_device hi j⟩
  by_contra hdown
  -- a press would be queued, but the call queues releases only
  have hb : level s.heap (o :: s.selections) j = false := by simpa using hdown
  rw [level_cons, Bool.or_eq_false_iff] at hb
  rw [level_cons, Bool.or_eq_true] at h
  have hnode : ((s.outputInput o i false).heap o).holds j = false := by
    rw [outputInput_holds hi]
    split
    · rfl
    · exact hb.1
  rcases h with h | h
  · rw [hnode] at h
    cases h
  · obtain ⟨p, hp, hpj⟩ := List.any_eq_true.1 h
    by_cases hpo : p = o
    · rw [hpo, hnode] at hpj
      cases hpj
    · have hsame : (s.outputInput o i false).heap p = s.heap p := by
        simp only [State.outputInput]
        split
        · rfl
        · split <;> exact Function.update_of_ne hpo _ _
      rw [hsame] at hpj
      exact absurd hpj (by simpa using List.any_eq_false.1 hb.2 p hp)

end Falls

theorem valid_of_mem_inputs {i : Input} (h : i ∈ State.inputs) : i.Valid := by
  rcases List.mem_append.1 h with h | h
  · obtain ⟨n, hn, rfl⟩ := List.mem_map.1 h
    have := List.mem_range.1 hn
    exact ⟨by omega, by omega⟩
  · obtain ⟨n, hn, rfl⟩ := List.mem_map.1 h
    have := List.mem_range.1 hn
    exact ⟨by omega, by omega⟩

/-- Releasing some keys and buttons: the list stays, the level falls, and the node holds none of them. -/
theorem release_inputs (o : Nat) (j : Input) :
    ∀ (is : List Input) (s : State), (∀ i ∈ is, i.Valid) →
      let t := is.foldl (fun s i => s.outputInput o i false) s
      t.selections = s.selections ∧ Falls j s (o :: s.selections) t (o :: s.selections) ∧
        (((s.heap o).holds j = false ∨ j ∈ is) → (t.heap o).holds j = false)
  | [], s, _ => ⟨rfl, .same (.refl s) _, fun h => h.resolve_right (List.not_mem_nil)⟩
  | i :: is, s, hvalid => by
    have hi := hvalid i List.mem_cons_self
    obtain ⟨hsel, hfalls, hnone⟩ := release_inputs o j is (s.outputInput o i false)
      fun i hi => hvalid i (List.mem_cons_of_mem _ hi)
    rw [outputInput_selections] at hsel hfalls
    refine ⟨hsel, (Falls.outputInput s o hi).trans hfalls, fun h => hnone ?_⟩
    rw [outputInput_holds hi]
    split
    · exact .inl rfl
    · rename_i hne
      rcases h with h | h
      · exact .inl h
      · exact .inr ((List.mem_cons.1 h).resolve_left hne)

theorem releaseInput_eq (s : State) (o : Nat) :
    s.releaseInput o = State.inputs.foldl (fun s i => s.outputInput o i false) s := rfl

@[simp] theorem releaseInput_selections (s : State) (o : Nat) : (s.releaseInput o).selections = s.selections :=
  (release_inputs o (.key 8) _ s fun _ h => valid_of_mem_inputs h).1

/-- `releaseInput` of a node, in the list or not. -/
theorem releaseInput_falls (s : State) (o : Nat) (j : Input) :
    Falls j s (o :: s.selections) (s.releaseInput o) (o :: s.selections) :=
  (release_inputs o j _ s fun _ h => valid_of_mem_inputs h).2.1

theorem releaseInput_holds (s : State) (o : Nat) {j : Input} (hj : j.Valid) :
    ((s.releaseInput o).heap o).holds j = false := by
  rw [releaseInput_eq]
  exact (release_inputs o j State.inputs s fun _ h => valid_of_mem_inputs h).2.2 (.inr (mem_inputs hj))

/-- `releaseInput` of a selection in the list. -/
theorem releaseInput_falls_of_mem {s : State} {o : Nat} (h : o ∈ s.selections) (j : Input) :
    Falls j s s.selections (s.releaseInput o) s.selections := by
  have hfalls := releaseInput_falls s o j
  refine ⟨?_, ?_, ?_⟩
  · rw [← level_cons_of_mem _ h, ← level_cons_of_mem s.heap h]
    exact hfalls.falls
  · rw [hfalls.queued, level_cons_of_mem _ h, level_cons_of_mem _ h]
  · intro hd
    rw [← level_cons_of_mem _ h]
    exact hfalls.device (hd.trans (level_cons_of_mem _ h j).symm)

/-! ## Operations -/

/-- `releaseSelection` of a node that was unlinked: its leases are gone from the level. -/
theorem releaseSelection_falls (s : State) (o : Nat) {j : Input} (hj : j.Valid) :
    (s.releaseSelection o).selections = s.selections ∧
      Falls j s (o :: s.selections) (s.releaseSelection o) s.selections := by
  obtain ⟨t, ht⟩ : ∃ t, t = s.each fun other =>
    let other := if other.id = (s.heap o).parent then { other with changed := true, geometryPending := true } else other
    if other.parent = (s.heap o).id then { other with dead := true, changed := true } else other := ⟨_, rfl⟩
  have hsame : SameLeases s t := by
    rw [ht]
    apply SameLeases.each
    intro x i
    dsimp only
    split <;> split <;> cases i <;> rfl
  have hsize := SameLeases.inheritSize (t.releaseInput o) o
  have heq : s.releaseSelection o = (t.releaseInput o).inheritSize o := by rw [ht]; rfl
  have hfalls := releaseInput_falls t o j
  rw [hsame.selections] at hfalls
  have hdrop : Falls j (t.releaseInput o) (o :: s.selections) (t.releaseInput o) s.selections := by
    refine .of_level ?_ rfl rfl
    rw [level_cons, releaseInput_holds t o hj, Bool.false_or]
  rw [heq]
  refine ⟨?_, (Falls.same hsame _).trans (hfalls.trans (hdrop.trans (.same hsize _)))⟩
  rw [hsize.selections, releaseInput_selections, hsame.selections]

/-- Unlinking a node of the list and releasing it. -/
theorem unlink_falls (s : State) {before after : List Nat} {o : Nat} (h : s.selections = before ++ o :: after) {j : Input}
    (hj : j.Valid) :
    let t := ({ s with selections := before ++ after } : State).releaseSelection o
    t.selections = before ++ after ∧ Falls j s s.selections t (before ++ after) := by
  obtain ⟨hsel, hfalls⟩ := releaseSelection_falls { s with selections := before ++ after } o hj
  have hun : Falls j s s.selections { s with selections := before ++ after } (o :: (before ++ after)) := by
    refine .of_level ?_ rfl rfl
    rw [h, level_middle]
  exact ⟨hsel, hun.trans hfalls⟩

/-- A loop that gives up leases of nodes of the list. -/
theorem foldl_falls {j : Input} {f : State → Nat → State}
    (hf : ∀ s o, o ∈ s.selections → (f s o).selections = s.selections ∧ Falls j s s.selections (f s o) s.selections) :
    ∀ (l : List Nat) (s : State), (∀ o ∈ l, o ∈ s.selections) →
      (l.foldl f s).selections = s.selections ∧ Falls j s s.selections (l.foldl f s) s.selections
  | [], s, _ => ⟨rfl, .same (.refl s) _⟩
  | o :: l, s, hl => by
    obtain ⟨hsel, hfalls⟩ := hf s o (hl o List.mem_cons_self)
    obtain ⟨hsel', hfalls'⟩ := foldl_falls hf l (f s o) fun p hp => by
      rw [hsel]
      exact hl p (List.mem_cons_of_mem _ hp)
    rw [hsel] at hsel' hfalls'
    exact ⟨hsel', hfalls.trans hfalls'⟩

/-- The loop of `lorieResetOutputs` empties the list. -/
theorem reset_falls {j : Input} (hj : j.Valid) :
    ∀ (l : List Nat) (s : State), s.selections = l →
      let t := l.foldl (fun s o => State.releaseSelection { s with selections := s.selections.tail } o) s
      t.selections = [] ∧ Falls j s s.selections t []
  | [], s, hl => ⟨hl, by rw [hl]; exact .same (.refl s) _⟩
  | o :: l, s, hl => by
    obtain ⟨hsel, hfalls⟩ := unlink_falls s (show s.selections = [] ++ o :: l from hl) hj
    have htail : s.selections.tail = l := by rw [hl]; rfl
    simp only [List.nil_append] at hsel hfalls
    rw [← htail] at hsel hfalls
    obtain ⟨hsel', hfalls'⟩ := reset_falls hj l _ (hsel.trans htail)
    rw [hsel] at hfalls'
    exact ⟨hsel', hfalls.trans hfalls'⟩

/-- A new node holds nothing. -/
theorem create_falls {s : State} {c : Command} {env : Env} {before after : List Nat}
    (hs : s.selections = before ++ after) (hnew : ∀ o ∈ env.calloc, o ∉ s.selections) (j : Input) :
    Falls j s s.selections (s.create c env before after) (s.create c env before after).selections := by
  unfold State.create
  split
  · exact .same (.refl s) _
  · rename_i o ho
    have hfresh := hnew o (by rw [ho]; rfl)
    refine .of_level ?_ rfl rfl
    rw [level_middle, level_cons, hs]
    simp only [Function.update_self]
    have hzero : (State.newSelection c).holds j = false := by
      cases j <;> exact BitVec.getLsbD_zero
    rw [hzero, Bool.false_or]
    refine level_congr fun p hp => ?_
    rw [Function.update_of_ne fun e => hfresh (by rw [← e, hs]; exact hp)]

theorem bind_falls {s : State} {c : Command} {env : Env} {before after : List Nat} (hs : s.selections = before ++ after)
    (hnew : ∀ o ∈ env.calloc, o ∉ s.selections) (j : Input) :
    Falls j s s.selections (s.bind c env before after) (s.bind c env before after).selections := by
  unfold State.bind
  split
  · exact .same (.refl s) _
  split
  · split
    · exact .same (.refl s) _
    · exact create_falls hs hnew j
  · rename_i p _
    split
    · split
      · exact .same (.refl s) _
      · have hsame : SameLeases s (s.modify p fun o => { o with changed := true, geometryPending := true }) :=
          .modify s p fun x i => by cases i <;> rfl
        exact (Falls.same hsame _).trans (create_falls (s := s.modify p _) hs hnew j)
    · exact create_falls hs hnew j

/-- A text is typed: its selection is bound to the window of the command, which exists. -/
def State.Types (s : State) (c : Command) (env : Env) : Prop :=
  env.screen = true ∧ c.operation = .text ∧ c.output ≠ 0 ∧
    ∃ o ∈ s.selections.find? fun o => (s.heap o).id = c.output,
      (s.heap o).dead = false ∧ (s.heap o).window = c.window ∧
        ((s.heap o).shell = true → env.shellWindow (s.heap o).window = true) ∧
        ((s.heap o).window ≠ 0 → env.windowExists (s.heap o).window = true)

/-- A text is typed that does not leave all keys as the selections hold them. -/
def State.Disturbs (s : State) : Action → Prop
  | .lorieOutputCommand c env =>
    s.Types c env ∧
      ¬Keyboard.Typeable env.typing.xkb env.typing.master (env.typing.ucs2keysym c.x) fun code => s.held (.key code)
  | _ => False

/-- What an operation queues for the leases is the edge of the level; the devices stay at the level, unless a text
disturbs them. -/
structure Exact (disturbed : Prop) (j : Input) (s t : State) : Prop where
  queued : t.queued j = s.queued j ++ edge (s.held j) (t.held j)
  device : ¬disturbed → s.device j = s.held j → t.device j = t.held j

theorem Falls.exact {p : Prop} {j : Input} {s t : State} (h : Falls j s s.selections t t.selections) : Exact p j s t :=
  ⟨h.queued, fun _ hd => h.device hd⟩

theorem Exact.refl (p : Prop) (j : Input) (s : State) : Exact p j s s := (Falls.same (.refl s) _).exact

/-- Taking or giving up a lease of a selection in the list. -/
theorem exact_outputInput {p : Prop} {s : State} {o : Nat} (ho : o ∈ s.selections) {i : Input} (hi : i.Valid)
    (down : Bool) (j : Input) : Exact p j s (s.outputInput o i down) := by
  constructor
  · unfold State.held
    rw [outputInput_queued hi, outputInput_selections, level_cons_of_mem _ ho, level_cons_of_mem _ ho]
  · intro _ hd
    unfold State.held at hd ⊢
    rw [outputInput_selections, ← level_cons_of_mem _ ho]
    rw [← level_cons_of_mem _ ho] at hd
    exact outputInput_device hi j hd

/-- A text moves no lease. -/
theorem exact_text {s : State} {c : Command} {env : Env} (ht : s.Types c env) (j : Input) :
    Exact (s.Disturbs (.lorieOutputCommand c env)) j s (s.queueKeys (env.typing.queued c.x)) := by
  constructor
  · have hheld : (s.queueKeys (env.typing.queued c.x)).held j = s.held j := rfl
    rw [hheld, edge_self, List.append_nil]
    rfl
  · intro hquiet hd
    have htypeable : Keyboard.Typeable env.typing.xkb env.typing.master (env.typing.ucs2keysym c.x)
        fun code => s.held (.key code) := by
      by_contra h
      exact hquiet ⟨ht, h⟩
    cases j with
    | key code =>
      have hafter := (Keyboard.typed_iff _ _ _ _).2 htypeable code
      have hcongr := @after_congr Nat _ (fun code => s.device (.key code)) (fun code => s.held (.key code)) code hd
        (env.typing.queued c.x)
      exact hcongr.trans hafter
    | button number => exact hd

theorem exact_operate {s : State} {c : Command} {env : Env} {o : Nat} (hscreen : env.screen = true) (h0 : c.output ≠ 0)
    (hfind : (s.selections.find? fun o => (s.heap o).id = c.output) = some o)
    (hbound : (s.heap o).dead = false ∧ (s.heap o).window = c.window) (j : Input) :
    Exact (s.Disturbs (.lorieOutputCommand c env)) j s (s.operate c env o) := by
  have ho : o ∈ s.selections := List.mem_of_find?_eq_some hfind
  have hdead : ∀ t : State, SameLeases t (t.modify o fun x => { x with dead := true, changed := true }) :=
    fun t => .modify t o fun x i => by cases i <;> rfl
  have hrelease : Exact (s.Disturbs (.lorieOutputCommand c env)) j s (s.releaseInput o) := by
    apply Falls.exact
    rw [releaseInput_selections]
    exact releaseInput_falls_of_mem ho j
  unfold State.operate
  dsimp only
  split
  · have hfalls := (releaseInput_falls_of_mem ho j).trans (.same (hdead (s.releaseInput o)) _)
    apply Falls.exact
    rw [(hdead _).selections, releaseInput_selections]
    exact hfalls
  rename_i hshell
  split
  · split
    · exact .refl _ j s
    · exact (Falls.same (.modify s o fun x i => by cases i <;> rfl) _).exact
  · split
    · exact .refl _ j s
    · have hsize : SameLeases s (s.modify o fun x => { x with width := c.x, height := c.y, resizePending := true }) :=
        .modify s o fun x i => by cases i <;> rfl
      split
      · exact (Falls.same hsize _).exact
      · refine (Falls.same ((hsize.trans (.each _ ?_)).trans (.modify _ o ?_)) _).exact
        · intro x i
          split <;> cases i <;> rfl
        · intro x i
          cases i <;> rfl
  · split
    · exact .refl _ j s
    rename_i hwindow
    split
    · exact hrelease
    · split
      · rename_i hd
        exact exact_outputInput (i := .button c.detail) ho hd c.down j
      · exact .refl _ j s
    · split
      · rename_i hd
        exact exact_outputInput (i := .key c.detail) ho hd c.down j
      · exact .refl _ j s
    · -- `LORIE_OUTPUT_TEXT`
      rename_i hop
      refine exact_text ⟨hscreen, hop, h0, o, hfind, hbound.1, hbound.2, ?_, ?_⟩ j
      · simpa using hshell
      · simpa using hwindow
    · exact .refl _ j s

/-- The two sides of `link`, and the node between them. -/
theorem link_split {s : State} {id o : Nat} {after : List Nat}
    (h : (s.selections.dropWhile fun o => (s.heap o).id ≠ id) = o :: after) :
    s.selections = (s.selections.takeWhile fun o => (s.heap o).id ≠ id) ++ o :: after := by
  rw [← h]
  exact List.takeWhile_append_dropWhile.symm

/-- The node behind `link` is the first one with the id. -/
theorem find_of_link {s : State} {id o : Nat} {after : List Nat}
    (h : (s.selections.dropWhile fun o => (s.heap o).id ≠ id) = o :: after) :
    (s.selections.find? fun o => (s.heap o).id = id) = some o := by
  rw [List.find?_eq_head?_dropWhile_not]
  simp only [ne_eq, decide_not] at h
  rw [h]
  rfl

theorem exact_lorieOutputCommand {s : State} {c : Command} {env : Env} (hnew : ∀ o ∈ env.calloc, o ∉ s.selections)
    {j : Input} (hj : j.Valid) : Exact (s.Disturbs (.lorieOutputCommand c env)) j s (s.lorieOutputCommand c env) := by
  unfold State.lorieOutputCommand
  split
  · exact .refl _ j s
  rename_i hscreen
  split
  iterate 9 exact .refl _ j s
  split
  · exact .refl _ j s
  rename_i h0
  dsimp only
  split
  · exact .refl _ j s
  · -- `LORIE_OUTPUT_RELEASE`
    rename_i o after _ hfound
    obtain ⟨hsel, hfalls⟩ := unlink_falls s (link_split hfound) hj
    apply Falls.exact
    rw [hfound, List.tail_cons, hsel]
    exact hfalls
  · -- `LORIE_OUTPUT_BIND` of a new id
    rename_i hfound
    have hall : s.selections = (s.selections.takeWhile fun o => (s.heap o).id ≠ c.output) ++ [] := by
      rw [← hfound]
      exact List.takeWhile_append_dropWhile.symm
    exact (bind_falls hall hnew j).exact
  · -- `LORIE_OUTPUT_BIND` in the place of a selection
    rename_i o after _ hfound
    obtain ⟨hsel, hfalls⟩ := unlink_falls s (link_split hfound) hj
    rw [hfound, List.tail_cons]
    generalize State.releaseSelection _ o = t at hsel hfalls ⊢
    refine Falls.exact (hfalls.trans ?_)
    rw [← hsel]
    refine bind_falls hsel (fun p hp hmem => hnew p hp ?_) j
    rw [hsel] at hmem
    rw [link_split hfound]
    rcases List.mem_append.1 hmem with hm | hm
    · exact List.mem_append_left _ hm
    · exact List.mem_append_right _ (List.mem_cons_of_mem _ hm)
  · exact .refl _ j s
  · rename_i o after hfound _ _
    split
    · exact .refl _ j s
    · rename_i hbound
      rw [not_or, Bool.not_eq_true, not_not] at hbound
      exact exact_operate (by simpa using hscreen) h0 (find_of_link hfound) hbound j

/-- **Every operation** queues the edge of the level, for every key and button. -/
theorem step_exact {s t : State} {a : Action} (h : step s a = some t) {j : Input} (hj : j.Valid) :
    Exact (s.Disturbs a) j s t := by
  cases a with
  | lorieOutputCommand c env =>
    simp only [step] at h
    split at h
    · rename_i hnew
      cases h
      exact exact_lorieOutputCommand hnew hj
    · cases h
  | lorieReleaseOutputButton id window button =>
    cases h
    unfold State.lorieReleaseOutputButton
    split
    · exact .refl _ j s
    · rename_i hb
      split
      · rename_i o ho
        exact exact_outputInput (i := .button button) (List.mem_of_find?_eq_some ho) ⟨by omega, by omega⟩ false j
      · exact .refl _ j s
  | lorieReleaseOutputInput =>
    cases h
    obtain ⟨hsel, hfalls⟩ := foldl_falls (j := j) (f := State.releaseInput)
      (fun s o ho => ⟨releaseInput_selections s o, releaseInput_falls_of_mem ho j⟩) s.selections s fun _ h => h
    apply Falls.exact
    unfold State.lorieReleaseOutputInput
    rw [hsel]
    exact hfalls
  | lorieOutputWindowDestroyed id =>
    cases h
    have hdead : ∀ (t : State) (o : Nat), SameLeases t (t.modify o fun x => { x with dead := true, changed := true }) :=
      fun t o => .modify t o fun x i => by cases i <;> rfl
    obtain ⟨hsel, hfalls⟩ := foldl_falls (j := j) (f := fun s o =>
      if (s.heap o).window = id then (s.releaseInput o).modify o fun x => { x with dead := true, changed := true } else s)
      (fun s o ho => by
        split
        · refine ⟨?_, (releaseInput_falls_of_mem ho j).trans (.same (hdead _ o) _)⟩
          rw [(hdead _ o).selections, releaseInput_selections]
        · exact ⟨rfl, .same (.refl s) _⟩) s.selections s fun _ h => h
    apply Falls.exact
    unfold State.lorieOutputWindowDestroyed
    rw [hsel]
    exact hfalls
  | lorieResetOutputs =>
    cases h
    obtain ⟨hsel, hfalls⟩ := reset_falls hj s.selections s rfl
    apply Falls.exact
    unfold State.lorieResetOutputs
    rw [hsel]
    exact hfalls
  | loriePublishOutputs gone =>
    cases h
    exact (Falls.same (.each s fun x i => by cases i <;> rfl) _).exact

/-- **The devices follow the leases**: in every run, the events that `outputKey` and `outputButton` queue for a key or button
alternate and start with a press, and the last of them is a press when and only when a selection holds it; the next
operation queues a press when it gives the first lease and a release when it takes the last, and nothing else. The device is
pressed when and only when a selection holds the key or button, in every run in which no text disturbs the leases. -/
theorem device_follows_leases {s : State} (h : Reach step Free State.init s) {i : Input} (hi : i.Valid) :
    follow false (s.queued i) = some (s.held i) ∧
      (∀ a t, step s a = some t → t.queued i = s.queued i ++ edge (s.held i) (t.held i)) ∧
      (Reach step (fun s a => ¬s.Disturbs a) State.init s → s.device i = s.held i) := by
  refine ⟨?_, fun a t ht => (step_exact ht hi).queued, fun hquiet => ?_⟩
  · refine Reach.invariant (I := fun s => follow false (s.queued i) = some (s.held i)) rfl ?_ h
    intro s a t hs _ ht
    rw [(step_exact ht hi).queued, follow_append hs]
    exact follow_edge _ _
  · exact Reach.invariant (I := fun s => s.device i = s.held i) rfl
      (fun s a t hs hok ht => (step_exact ht hi).device hok hs) hquiet

section Examples

/-- A keyboard of which only the key 38 is of use: it has `a`. -/
def oneKey (down : Bool) : Keyboard.Master where
  keymap :=
    { minKeyCode := 8
      maxKeyCode := 255
      key := fun key => if key = 38 then ⟨[⟨0, [], none⟩], 1, .wrap, [0x61], none, 0⟩ else ⟨[], 0, .wrap, [], none, 0⟩
      names := none }
  state := 0
  down := fun key => down && key = 38
  pressedKeys := fun _ => Keyboard.noSymbol
  addedKeysyms := []

/-- A character is its own keysym. -/
def oneKeyTyping (down : Bool) : Typing := ⟨Int.toNat, ⟨fun s => (s, s), id⟩, oneKey down⟩

/-- The window exists, and the memory is at `o`. -/
def keyEnv (o : Option Nat) (down : Bool) : Env := ⟨true, fun _ => false, fun _ => true, o, oneKeyTyping down⟩

/-- A command on the window 100 -/
def command (operation : Operation) (output detail : Nat) (x : Int) : Command :=
  ⟨operation, true, output, 100, x, 0, detail, 0, ⟨0, 0, 0, 0⟩⟩

/-- Two outputs of one window hold the same button, and one of them gives it up. -/
def sharedButton : List Action :=
  [.lorieOutputCommand (command .bind 1 0 0) (keyEnv (some 10) false),
    .lorieOutputCommand (command .bind 2 0 0) (keyEnv (some 20) false),
    .lorieOutputCommand (command .pointer 1 3 0) (keyEnv none false),
    .lorieOutputCommand (command .pointer 2 3 0) (keyEnv none false), .lorieReleaseOutputButton 1 100 3]

theorem device_follows_leases_shared : ∃ s, exec step State.init sharedButton = some s ∧
    s.queued (.button 3) = [.press] ∧ follow false (s.queued (.button 3)) = some (s.held (.button 3)) ∧
    s.device (.button 3) = s.held (.button 3) := by
  obtain ⟨s, hs, hqueued⟩ : ∃ s, exec step State.init sharedButton = some s ∧ s.queued (.button 3) = [.press] :=
    ⟨_, rfl, by decide⟩
  have hquiet : Reach step (fun s a => ¬s.Disturbs a) State.init s := by
    refine .of_exec_all (fun a ha s hd => ?_) hs
    simp only [sharedButton, List.mem_cons, List.not_mem_nil, or_false] at ha
    rcases ha with rfl | rfl | rfl | rfl | rfl
    all_goals first | exact absurd hd.1.2.1 (by decide) | exact hd
  have hfollows := device_follows_leases (.of_exec sharedButton hs) (i := .button 3) (by decide)
  exact ⟨s, hs, hqueued, hfollows.1, hfollows.2.2 hquiet⟩

/-- The first output holds the key of `a`, and `a` is typed on the second. -/
def typedOver : List Action :=
  [.lorieOutputCommand (command .bind 1 0 0) (keyEnv (some 10) false),
    .lorieOutputCommand (command .bind 2 0 0) (keyEnv (some 20) false),
    .lorieOutputCommand (command .key 1 38 0) (keyEnv none false),
    .lorieOutputCommand (command .text 2 0 0x61) (keyEnv none true)]

/-- The key is up while the first output holds it. -/
theorem text_releases_key : ∃ s, exec step State.init typedOver = some s ∧ s.held (.key 38) = true ∧
    s.device (.key 38) = false := by
  refine ⟨_, rfl, ?_, ?_⟩ <;> decide +kernel

end Examples

end Lorie.Outputs.Leases
