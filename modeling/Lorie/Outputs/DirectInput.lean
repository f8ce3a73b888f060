import Lorie.Lib.Transition
import Lorie.Outputs.Leases
import Mathlib.Data.List.FinRange
import Mathlib.Data.Fintype.Pi

/-!
# Touch and tablet input of the outputs

`direct_input.c` keeps the touch contacts of all outputs in a table of 20 slots, and the proximity of two tablet tools. The
devices are there; the positions that go with the events are left out.

What a device may see is an automaton over the queued events: `touchStep` for one touch slot, `tabletStep` for both tools.
The table says in which state each automaton is (`Inv`), so a run of the automaton over all events never stops.

- `release_eq`: what `lorieDirectInputRelease` does to the table, and what it queues;
- `direct_input_sequences`: the results for every run.
-/

namespace Lorie.Outputs.DirectInput

open Lorie.Lib

/-! ## The tables -/

/-- `LorieTouchPhase`, and what is no phase -/
def touchBegin : Nat := 0

def touchUpdate : Nat := 1

def touchEnd : Nat := 2

/-- `Contact`; output 0 is no output. -/
structure Contact where
  output : Nat := 0
  contact : Nat := 0
  deriving DecidableEq, Repr

/-- The index into `tablets`. -/
inductive Tool where
  | pen
  | eraser
  deriving DecidableEq, Repr

/-- `!tool` -/
def Tool.other : Tool → Tool
  | pen => eraser
  | eraser => pen

/-- `Tablet` -/
structure Tablet where
  output : Nat := 0
  buttons : BitVec 8 := 0
  deriving DecidableEq, Repr

/-- `XI_TouchBegin`, `XI_TouchUpdate` and `XI_TouchEnd` -/
inductive TouchType where
  | touchBegin
  | touchUpdate
  | touchEnd
  deriving DecidableEq, Repr

/-- What is queued for `lorieTouch`, `loriePen` and `lorieEraser`. -/
inductive Queued where
  | touch (type : TouchType) (slot : Nat)
  | proximity (tool : Tool) (enter : Bool)
  | motion (tool : Tool)
  | button (tool : Tool) (number : Nat) (down : Bool)
  deriving DecidableEq, Repr

structure State where
  contacts : Fin 20 → Contact
  tablets : Tool → Tablet
  /-- History: what was queued. -/
  events : List Queued

/-- `lorieDirectInputReset` -/
def State.init : State := { contacts := fun _ => {}, tablets := fun _ => {}, events := [] }

/-- `LorieOutputCommand`, as far as it concerns the tables. A number is missing where it is not finite. -/
structure Command where
  operation : Leases.Operation
  detail : Nat
  pressure : Option Rat
  tiltX : Option Rat
  tiltY : Option Rat
  phase : Nat
  buttons : BitVec 8
  eraser : Nat
  proximity : Bool
  deriving DecidableEq, Repr

namespace State

variable (s : State)

def queue (es : List Queued) : State := { s with events := s.events ++ es }

def setContact (i : Fin 20) (c : Contact) : State := { s with contacts := Function.update s.contacts i c }

def setTablet (tool : Tool) (t : Tablet) : State := { s with tablets := Function.update s.tablets tool t }

/-- The bits of the buttons. -/
def bits : List (Fin 3) := [0, 1, 2]

/-- `tabletRelease` -/
def tabletRelease (tool : Tool) : State :=
  let state := s.tablets tool
  (if state.output ≠ 0 then
    s.queue ((bits.filterMap fun i : Fin 3 =>
      if state.buttons.getLsbD i then some (.button tool (i + 1) false) else none) ++ [.proximity tool false])
  else s).setTablet tool {}

/-- The loop over the contacts in `lorieDirectInputRelease` -/
def endContact (output : Nat) (i : Fin 20) : State :=
  if (s.contacts i).output = output ∧ output ≠ 0 then (s.queue [.touch .touchEnd (i + 1)]).setContact i {} else s

/-- The loop over the tools in `lorieDirectInputRelease` -/
def endTablet (output : Nat) (tool : Tool) : State :=
  if (s.tablets tool).output = output ∧ output ≠ 0 then s.tabletRelease tool else s

def lorieDirectInputRelease (output : Nat) : State :=
  [Tool.pen, .eraser].foldl (fun s tool => s.endTablet output tool)
    ((List.finRange 20).foldl (fun s i => s.endContact output i) s)

/-- The slot of a contact of an output. -/
def slot? (output contact : Nat) : Option (Fin 20) :=
  (List.finRange 20).find? fun i => (s.contacts i).output = output && (s.contacts i).contact = contact

/-- A slot that is free. -/
def free? : Option (Fin 20) := (List.finRange 20).find? fun i => (s.contacts i).output = 0

/-- `lorieDirectInput` of a touch -/
def touch (output : Nat) (event : Command) : State :=
  if event.detail > 31 ∨ event.phase > touchEnd then s
  else
    let slot :=
      if event.phase = touchBegin then
        match s.slot? output event.detail with
        | some _ => none
        | none => s.free?
      else s.slot? output event.detail
    match slot with
    | none => s
    | some i =>
      let type : TouchType :=
        if event.phase = touchBegin then .touchBegin else if event.phase = touchEnd then .touchEnd else .touchUpdate
      let s := (s.setContact i { output := output, contact := event.detail }).queue [.touch type (i + 1)]
      if event.phase = touchEnd then s.setContact i {} else s

/-- Tip, first barrel, second barrel map to left, right, middle. -/
def mapButtons (b : BitVec 8) : BitVec 8 := (b &&& 1) ||| ((b &&& 2) <<< 1) ||| ((b &&& 4) >>> 1)

/-- The end of `lorieDirectInput` of a tool in proximity -/
def tabletMove (tool : Tool) (output : Nat) (buttons : BitVec 8) : State :=
  let state := s.tablets tool
  let next := mapButtons buttons
  (((if state.output = 0 then s.queue [.proximity tool true] else s).queue [.motion tool]).queue (bits.filterMap fun i : Fin 3 =>
    if state.buttons.getLsbD i ≠ next.getLsbD i then some (.button tool (i + 1) (next.getLsbD i)) else none)).setTablet tool
      { output := output, buttons := next }

/-- `lorieDirectInput` of a tablet -/
def tablet (output : Nat) (event : Command) : State :=
  if event.buttons &&& ~~~7 ≠ 0 ∨ event.eraser > 1 ∨ event.tiltX = none ∨ event.tiltY = none then s
  else
    let tool : Tool := if event.eraser = 1 then .eraser else .pen
    if event.proximity = false then if (s.tablets tool).output = output then s.tabletRelease tool else s
    else
      let s := if (s.tablets tool.other).output ≠ 0 then s.tabletRelease tool.other else s
      let s := if (s.tablets tool).output ≠ 0 ∧ (s.tablets tool).output ≠ output then s.tabletRelease tool else s
      s.tabletMove tool output event.buttons

/-- `lorieDirectInput`; `screen` says whether there is a screen with a size. -/
def lorieDirectInput (output : Nat) (event : Command) (screen : Bool) : State :=
  match event.pressure with
  | none => s
  | some pressure =>
    if output = 0 ∨ screen = false ∨ pressure < 0 ∨ 1 < pressure then s
    else
      match event.operation with
      | .touch => s.touch output event
      | .tablet => s.tablet output event
      | _ => s

end State

/-! ## Steps -/

inductive Action where
  | input (output : Nat) (event : Command) (screen : Bool)
  /-- `lorieDirectInputRelease`, for `CANCEL_CONTACTS`, `BLUR`, and the end of an output -/
  | release (output : Nat)

def step (s : State) : Action → Option State
  | .input output event screen => some (s.lorieDirectInput output event screen)
  | .release output => some (s.lorieDirectInputRelease output)

/-! ## What a device may see -/

/-- A touch slot: repetitions of a begin, updates and an end. -/
def touchStep (slot : Nat) (active : Bool) : Queued → Option Bool
  | .touch type n =>
    if n = slot then
      match type, active with
      | .touchBegin, false => some true
      | .touchUpdate, true => some true
      | .touchEnd, true => some false
      | _, _ => none
    else some active
  | _ => some active

/-- The tool in proximity and its buttons: one tool at a time, its buttons change while it is in proximity, and none is
pressed when it leaves. -/
def tabletStep : Option (Tool × (Fin 3 → Bool)) → Queued → Option (Option (Tool × (Fin 3 → Bool)))
  | p, .touch _ _ => some p
  | none, .proximity tool true => some (some (tool, fun _ => false))
  | some (t, b), .proximity tool false => if tool = t ∧ b = fun _ => false then some none else none
  | some (t, b), .motion tool => if tool = t then some (some (t, b)) else none
  | some (t, b), .button tool number down =>
    match (List.finRange 3).find? fun i => i.val + 1 = number with
    | some i => if tool = t ∧ b i = !down then some (some (t, Function.update b i down)) else none
    | none => none
  | _, _ => none

/-- The slot has a contact. -/
def State.active (s : State) (i : Fin 20) : Bool := (s.contacts i).output ≠ 0

/-- The buttons of a tool. -/
def Tablet.pressed (t : Tablet) : Fin 3 → Bool := fun i => t.buttons.getLsbD i

/-- The tool in proximity. -/
def State.proximity (s : State) : Option (Tool × (Fin 3 → Bool)) :=
  if (s.tablets .pen).output ≠ 0 then some (.pen, (s.tablets .pen).pressed)
  else if (s.tablets .eraser).output ≠ 0 then some (.eraser, (s.tablets .eraser).pressed)
  else none

/-! ## Buttons -/

/-- The changes of some buttons, from one set of pressed buttons to another. -/
def toggles (tool : Tool) (cur next : Fin 3 → Bool) (l : List (Fin 3)) : List Queued :=
  l.filterMap fun i : Fin 3 => if cur i ≠ next i then some (.button tool (i + 1) (next i)) else none

theorem tabletStep_button (tool : Tool) (b : Fin 3 → Bool) (i : Fin 3) (down : Bool) (h : b i ≠ down) :
    tabletStep (some (tool, b)) (.button tool (i + 1) down) = some (some (tool, Function.update b i down)) := by
  have hfind : ∀ i : Fin 3, (List.finRange 3).find? (fun j => j.val + 1 = i.val + 1) = some i := by decide
  have hb : b i = !down := by cases hi : b i <;> cases down <;> simp_all
  unfold tabletStep
  simp only [hfind, hb, and_self, if_true]

/-- The buttons change one by one. -/
theorem exec_toggles (tool : Tool) (cur next : Fin 3 → Bool) :
    ∀ (l : List (Fin 3)) (b : Fin 3 → Bool), l.Nodup → (∀ i ∈ l, b i = cur i) →
      exec tabletStep (some (tool, b)) (toggles tool cur next l) =
        some (some (tool, fun i => if i ∈ l then next i else b i))
  | [], b, _, _ => by simp [toggles, exec]
  | i :: l, b, hl, hb => by
    obtain ⟨hi, hl⟩ := List.nodup_cons.1 hl
    have hbi := hb i List.mem_cons_self
    have hrest := exec_toggles tool cur next l (Function.update b i (next i)) hl fun j hj => by
      have hji : j ≠ i := fun h => hi (h ▸ hj)
      rw [Function.update_of_ne hji]
      exact hb j (List.mem_cons_of_mem _ hj)
    have hfinal : (fun j => if j ∈ l then next j else Function.update b i (next i) j) =
        fun j => if j ∈ i :: l then next j else b j := by
      funext j
      by_cases hji : j = i
      · subst hji
        simp [hi]
      · simp [hji]
    rw [hfinal] at hrest
    by_cases hsame : cur i = next i
    · have htoggles : toggles tool cur next (i :: l) = toggles tool cur next l := by simp [toggles, hsame]
      have hupdate : Function.update b i (next i) = b := by
        rw [← hsame, ← hbi]
        exact Function.update_eq_self i b
      rw [htoggles]
      rw [hupdate] at hrest
      exact hrest
    · have htoggles : toggles tool cur next (i :: l) = .button tool (i + 1) (next i) :: toggles tool cur next l := by
        simp [toggles, hsame]
      rw [htoggles]
      simp only [exec, tabletStep_button tool b i (next i) (by rw [hbi]; exact hsame), Option.bind_some]
      exact hrest

theorem exec_toggles_all (tool : Tool) (cur next : Fin 3 → Bool) :
    exec tabletStep (some (tool, cur)) (toggles tool cur next State.bits) = some (some (tool, next)) := by
  have hall : ∀ i : Fin 3, i ∈ State.bits := by decide
  rw [exec_toggles tool cur next State.bits cur (by decide) fun _ _ => rfl]
  simp [hall]

/-! ## The invariant -/

/-- What is queued is no touch of a slot. -/
def Untouched (es : List Queued) : Prop := ∀ e ∈ es, ∀ slot b, touchStep slot b e = some b

structure Inv (s : State) : Prop where
  touch : ∀ i : Fin 20, exec (touchStep (i + 1)) false s.events = some (s.active i)
  slots : ∀ type n, .touch type n ∈ s.events → 1 ≤ n ∧ n ≤ 20
  pairs : ∀ i j, s.active i = true → s.contacts i = s.contacts j → i = j
  single : ∀ tool, (s.tablets tool).output ≠ 0 → (s.tablets tool.other).output = 0
  idle : ∀ tool, (s.tablets tool).output = 0 → (s.tablets tool).buttons = 0
  tablet : exec tabletStep none s.events = some s.proximity

section Tools

variable {s : State} {tool : Tool}

@[simp] theorem other_other (tool : Tool) : tool.other.other = tool := by
  cases tool <;> rfl

theorem other_ne (tool : Tool) : tool.other ≠ tool := by
  cases tool <;> nofun

theorem eq_or_other (tool t : Tool) : t = tool ∨ t = tool.other := by
  cases tool <;> cases t <;> simp [Tool.other]

/-- The tool with an output is the one in proximity. -/
theorem proximity_some (h : (s.tablets tool).output ≠ 0) (hother : (s.tablets tool.other).output = 0) :
    s.proximity = some (tool, (s.tablets tool).pressed) := by
  unfold State.proximity
  cases tool with
  | pen => rw [if_pos h]
  | eraser =>
    have hpen : (s.tablets .pen).output = 0 := hother
    rw [if_neg (not_not.2 hpen), if_pos h]

theorem proximity_none (h : ∀ tool, (s.tablets tool).output = 0) : s.proximity = none := by
  unfold State.proximity
  rw [if_neg (not_not.2 (h .pen)), if_neg (not_not.2 (h .eraser))]

/-- What the release of a tool queues -/
def releases (state : Tablet) (tool : Tool) : List Queued :=
  if state.output ≠ 0 then
    (State.bits.filterMap fun i : Fin 3 => if state.buttons.getLsbD i then some (.button tool (i + 1) false) else none) ++
      [.proximity tool false]
  else []

theorem tabletRelease_eq (s : State) (tool : Tool) :
    s.tabletRelease tool = (s.queue (releases (s.tablets tool) tool)).setTablet tool {} := by
  unfold State.tabletRelease releases
  dsimp only
  split
  · rfl
  · simp [State.queue]

theorem exec_releases (state : Tablet) (tool : Tool) (h : state.output ≠ 0) :
    exec tabletStep (some (tool, state.pressed)) (releases state tool) = some none := by
  have htoggles : (State.bits.filterMap fun i : Fin 3 =>
      if state.buttons.getLsbD i then some (Queued.button tool (i + 1) false) else none) =
        toggles tool state.pressed (fun _ => false) State.bits := by
    unfold toggles Tablet.pressed
    congr 1
    funext i
    cases state.buttons.getLsbD i <;> rfl
  unfold releases
  rw [if_pos h, htoggles, exec_append (exec_toggles_all tool _ _)]
  simp [exec, tabletStep]

theorem untouched_releases (state : Tablet) (tool : Tool) : Untouched (releases state tool) := by
  intro e he slot b
  unfold releases at he
  split at he
  · rcases List.mem_append.1 he with he | he
    · obtain ⟨i, -, hi⟩ := List.mem_filterMap.1 he
      split at hi
      · cases hi
        rfl
      · cases hi
    · rw [List.mem_singleton.1 he]
      rfl
  · cases he

end Tools

/-! ## Operations -/

section Operations

variable {s t : State} {es : List Queued}

theorem Untouched.mem (hu : Untouched es) {type : TouchType} {n : Nat} (h : .touch type n ∈ es) : False := by
  have hstep := hu _ h n
  cases type with
  | touchBegin => simpa [touchStep] using hstep true
  | touchUpdate => simpa [touchStep] using hstep false
  | touchEnd => simpa [touchStep] using hstep false

/-- The tablets change, and what is queued is no touch. -/
theorem Inv.tablets (hs : Inv s) (hc : t.contacts = s.contacts) (he : t.events = s.events ++ es) (hu : Untouched es)
    (hsingle : ∀ tool, (t.tablets tool).output ≠ 0 → (t.tablets tool.other).output = 0)
    (hidle : ∀ tool, (t.tablets tool).output = 0 → (t.tablets tool).buttons = 0)
    (hp : exec tabletStep s.proximity es = some t.proximity) : Inv t where
  touch := by
    intro i
    rw [he, exec_append (hs.touch i), exec_same fun e h => hu e h _ _]
    unfold State.active
    rw [hc]
  slots := by
    intro type n h
    rw [he] at h
    rcases List.mem_append.1 h with h | h
    · exact hs.slots type n h
    · exact (hu.mem h).elim
  pairs := by
    unfold State.active
    rw [hc]
    exact hs.pairs
  single := hsingle
  idle := hidle
  tablet := by rw [he, exec_append hs.tablet, hp]

/-- A touch of a slot -/
theorem Inv.contact (hs : Inv s) (i : Fin 20) (c : Contact) (type : TouchType)
    (hnext : touchStep (i + 1) (s.active i) (.touch type (i + 1)) = some (decide (c.output ≠ 0)))
    (hpair : c.output ≠ 0 → ∀ j, j ≠ i → s.contacts j ≠ c) :
    Inv ((s.setContact i c).queue [.touch type (i + 1)]) where
  touch := by
    intro j
    have hactive : ((s.setContact i c).queue [.touch type (i + 1)]).active j =
        if j = i then decide (c.output ≠ 0) else s.active j := by
      unfold State.active State.queue State.setContact
      by_cases hj : j = i
      · subst hj
        simp
      · simp [hj]
    show exec _ _ (s.events ++ _) = _
    rw [exec_append (hs.touch j), hactive]
    by_cases hj : j = i
    · subst hj
      simp only [exec, hnext, Option.bind_some, if_true]
    · have hne : i.val + 1 ≠ j.val + 1 := fun h => hj (Fin.ext (by omega))
      simp only [exec, touchStep, if_neg hne, if_neg hj, Option.bind_some]
  slots := by
    intro type' n h
    rcases List.mem_append.1 h with h | h
    · exact hs.slots type' n h
    · cases List.mem_singleton.1 h
      omega
  pairs := by
    intro j k hj hjk
    by_cases hji : j = i
    · subst hji
      by_cases hki : k = j
      · exact hki.symm
      · simp only [State.active, State.queue, State.setContact, Function.update_self, Function.update_of_ne hki,
          decide_eq_true_eq] at hj hjk
        exact absurd hjk.symm (hpair hj k hki)
    · by_cases hki : k = i
      · subst hki
        simp only [State.active, State.queue, State.setContact, Function.update_self, Function.update_of_ne hji,
          decide_eq_true_eq] at hj hjk
        refine absurd hjk (hpair ?_ j hji)
        rw [← hjk]
        exact hj
      · simp only [State.active, State.queue, State.setContact, Function.update_of_ne hki, Function.update_of_ne hji,
          decide_eq_true_eq] at hj hjk
        refine hs.pairs j k ?_ hjk
        unfold State.active
        simpa using hj
  single := hs.single
  idle := hs.idle
  tablet := by
    show exec _ _ (s.events ++ _) = _
    rw [exec_append hs.tablet]
    rfl

theorem slot?_some {output contact : Nat} {i : Fin 20} (h : s.slot? output contact = some i) :
    s.contacts i = { output := output, contact := contact } := by
  have := List.find?_some h
  simp only [Bool.and_eq_true, decide_eq_true_eq] at this
  cases hc : s.contacts i with
  | mk o c =>
    rw [hc] at this
    obtain ⟨rfl, rfl⟩ := this
    rfl

theorem slot?_none {output contact : Nat} (h : s.slot? output contact = none) (i : Fin 20) :
    s.contacts i ≠ { output := output, contact := contact } := by
  intro hc
  have := List.find?_eq_none.1 h i (List.mem_finRange i)
  simp [hc] at this

theorem Inv.touchInput (hs : Inv s) {output : Nat} (ho : output ≠ 0) (event : Command) : Inv (s.touch output event) := by
  unfold State.touch
  split
  · exact hs
  · rename_i hvalid
    rw [not_or] at hvalid
    dsimp only
    by_cases hbegin : event.phase = touchBegin
    · simp only [hbegin, if_true]
      cases hslot : s.slot? output event.detail with
      | some i => exact hs
      | none =>
        dsimp only
        cases hfree : s.free? with
        | none => exact hs
        | some i =>
          dsimp only
          have hzero : (s.contacts i).output = 0 := by simpa using List.find?_some hfree
          have hne : touchBegin ≠ touchEnd := by decide
          rw [if_neg hne]
          refine hs.contact i _ .touchBegin ?_ fun _ j _ => slot?_none hslot j
          simp [touchStep, State.active, hzero, ho]
    · simp only [if_neg hbegin]
      cases hslot : s.slot? output event.detail with
      | none => exact hs
      | some i =>
        dsimp only
        have hc := slot?_some hslot
        have hactive : s.active i = true := by
          unfold State.active
          rw [hc]
          simpa using ho
        have hothers : ∀ j, j ≠ i → s.contacts j ≠ { output := output, contact := event.detail } := by
          intro j hj hjc
          exact hj (hs.pairs i j hactive (hc.trans hjc.symm)).symm
        by_cases hend : event.phase = touchEnd
        · simp only [if_pos hend]
          have heq : ((s.setContact i { output := output, contact := event.detail }).queue
              [.touch .touchEnd (i + 1)]).setContact i {} = (s.setContact i {}).queue [.touch .touchEnd (i + 1)] := by
            simp [State.setContact, State.queue]
          rw [heq]
          refine hs.contact i {} .touchEnd ?_ fun h => absurd rfl h
          simp [touchStep, hactive]
        · simp only [if_neg hend]
          refine hs.contact i _ .touchUpdate ?_ fun _ => hothers
          simp [touchStep, hactive, ho]

/-! ### Tablets -/

theorem Inv.tabletRelease (hs : Inv s) (tool : Tool) : Inv (s.tabletRelease tool) := by
  rw [tabletRelease_eq]
  have hself : (((s.queue (releases (s.tablets tool) tool)).setTablet tool {}).tablets tool) = {} :=
    Function.update_self _ _ _
  have hother : ∀ t, t ≠ tool →
      ((s.queue (releases (s.tablets tool) tool)).setTablet tool {}).tablets t = s.tablets t :=
    fun t ht => Function.update_of_ne ht _ _
  refine hs.tablets rfl rfl (untouched_releases _ _) ?_ ?_ ?_
  · intro t ht
    rcases eq_or_other tool t with rfl | rfl
    · rw [hself] at ht
      exact absurd rfl ht
    · rw [other_other, hself]
  · intro t ht
    by_cases htool : t = tool
    · subst htool
      rw [hself]
    · rw [hother t htool] at ht ⊢
      exact hs.idle t ht
  · by_cases hout : (s.tablets tool).output = 0
    · -- the tool was not in proximity
      have hnone : releases (s.tablets tool) tool = [] := by
        unfold releases
        rw [if_neg (not_not.2 hout)]
      have hsame : ((s.queue []).setTablet tool {}).tablets = s.tablets := by
        funext t
        by_cases htool : t = tool
        · subst htool
          have hbuttons := hs.idle t hout
          cases hst : s.tablets t with
          | mk o b =>
            rw [hst] at hout hbuttons
            simp only at hout hbuttons
            subst hout hbuttons
            exact Function.update_self _ _ _
        · exact Function.update_of_ne htool _ _
      rw [hnone]
      unfold State.proximity
      rw [hsame]
      rfl
    · rw [proximity_some hout (hs.single tool hout), exec_releases _ _ hout]
      congr 1
      symm
      refine proximity_none fun t => ?_
      rcases eq_or_other tool t with rfl | rfl
      · rw [hself]
      · rw [hother _ (other_ne tool)]
        exact hs.single tool hout

theorem tablets_tabletRelease (s : State) (tool t : Tool) :
    (s.tabletRelease tool).tablets t = if t = tool then {} else s.tablets t := by
  rw [tabletRelease_eq]
  by_cases ht : t = tool
  · subst ht
    rw [if_pos rfl]
    exact Function.update_self _ _ _
  · rw [if_neg ht]
    exact Function.update_of_ne ht _ _

/-- A tool moves while the other one is away, and it belongs to the output or to none. -/
theorem Inv.tabletMove (hs : Inv s) (tool : Tool) {output : Nat} (ho : output ≠ 0) (buttons : BitVec 8)
    (hother : (s.tablets tool.other).output = 0) : Inv (s.tabletMove tool output buttons) := by
  obtain ⟨next, hnext⟩ : ∃ next, next = State.mapButtons buttons := ⟨_, rfl⟩
  obtain ⟨enter, henter⟩ : ∃ enter : List Queued,
      enter = if (s.tablets tool).output = 0 then [.proximity tool true] else [] := ⟨_, rfl⟩
  have heq : s.tabletMove tool output buttons =
      (s.queue (enter ++ .motion tool :: toggles tool (s.tablets tool).pressed
        (Tablet.pressed { output := output, buttons := next }) State.bits)).setTablet tool
          { output := output, buttons := next } := by
    have htoggles : toggles tool (s.tablets tool).pressed (Tablet.pressed { output := output, buttons := next }) State.bits =
        State.bits.filterMap fun i : Fin 3 => if (s.tablets tool).buttons.getLsbD i ≠ (State.mapButtons buttons).getLsbD i
          then some (.button tool (i + 1) ((State.mapButtons buttons).getLsbD i)) else none := by
      rw [hnext]
      rfl
    rw [htoggles, henter, hnext]
    unfold State.tabletMove State.queue State.setTablet
    dsimp only
    split
    · simp only [List.append_assoc, List.cons_append, List.nil_append]
    · simp only [List.append_assoc, List.cons_append, List.nil_append]
  rw [heq]
  have hself : ((s.queue (enter ++ .motion tool :: toggles tool (s.tablets tool).pressed
      (Tablet.pressed { output := output, buttons := next }) State.bits)).setTablet tool
        { output := output, buttons := next }).tablets tool = { output := output, buttons := next } :=
    Function.update_self _ _ _
  have hothers : ∀ t, t ≠ tool → ((s.queue (enter ++ .motion tool :: toggles tool (s.tablets tool).pressed
      (Tablet.pressed { output := output, buttons := next }) State.bits)).setTablet tool
        { output := output, buttons := next }).tablets t = s.tablets t := fun t ht => Function.update_of_ne ht _ _
  refine hs.tablets rfl rfl ?_ ?_ ?_ ?_
  · intro e he slot b
    rcases List.mem_append.1 he with he | he
    · rw [henter] at he
      split at he
      · rw [List.mem_singleton.1 he]
        rfl
      · cases he
    · rcases List.mem_cons.1 he with rfl | he
      · rfl
      · obtain ⟨i, -, hi⟩ := List.mem_filterMap.1 he
        split at hi
        · cases hi
          rfl
        · cases hi
  · intro t ht
    rcases eq_or_other tool t with rfl | rfl
    · rw [hothers _ (other_ne t)]
      exact hother
    · rw [hothers _ (other_ne tool)] at ht
      exact absurd hother ht
  · intro t ht
    rcases eq_or_other tool t with rfl | rfl
    · rw [hself] at ht
      exact absurd ht ho
    · rw [hothers _ (other_ne tool)] at ht ⊢
      exact hs.idle _ ht
  · have hproximity : exec tabletStep s.proximity enter = some (some (tool, (s.tablets tool).pressed)) := by
      rw [henter]
      by_cases hout : (s.tablets tool).output = 0
      · have hpressed : (s.tablets tool).pressed = fun _ => false := by
          unfold Tablet.pressed
          rw [hs.idle tool hout]
          funext i
          exact BitVec.getLsbD_zero
        have hnone : s.proximity = none := by
          refine proximity_none fun t => ?_
          rcases eq_or_other tool t with rfl | rfl
          · exact hout
          · exact hother
        rw [if_pos hout, hnone, hpressed]
        rfl
      · rw [if_neg hout, proximity_some hout hother]
        rfl
    rw [exec_append hproximity]
    simp only [exec, tabletStep, if_true, Option.bind_some]
    rw [exec_toggles_all, @proximity_some _ tool, hself]
    · rw [hself]
      exact ho
    · rw [hothers _ (other_ne tool)]
      exact hother

theorem Inv.tabletInput (hs : Inv s) {output : Nat} (ho : output ≠ 0) (event : Command) : Inv (s.tablet output event) := by
  unfold State.tablet
  split
  · exact hs
  · dsimp only
    generalize (if event.eraser = 1 then Tool.eraser else Tool.pen) = tool
    split
    · split
      · exact hs.tabletRelease tool
      · exact hs
    · -- the other tool leaves, and then the tool itself from another output
      have hfirst : ∀ u : State, u = (if (s.tablets tool.other).output ≠ 0 then s.tabletRelease tool.other else s) →
          Inv u ∧ (u.tablets tool.other).output = 0 := by
        rintro u rfl
        split
        · refine ⟨hs.tabletRelease _, ?_⟩
          rw [tablets_tabletRelease, if_pos rfl]
        · rename_i h
          exact ⟨hs, not_not.1 h⟩
      obtain ⟨hu, hother⟩ := hfirst _ rfl
      generalize (if (s.tablets tool.other).output ≠ 0 then s.tabletRelease tool.other else s) = u at hu hother
      split
      · refine (hu.tabletRelease tool).tabletMove tool ho _ ?_
        rw [tablets_tabletRelease, if_neg (other_ne tool)]
        exact hother
      · exact hu.tabletMove tool ho _ hother

theorem Inv.lorieDirectInput (hs : Inv s) (output : Nat) (event : Command) (screen : Bool) :
    Inv (s.lorieDirectInput output event screen) := by
  unfold State.lorieDirectInput
  split
  · exact hs
  · split
    · exact hs
    · rename_i hgo
      rw [not_or] at hgo
      split
      · exact hs.touchInput hgo.1 event
      · exact hs.tabletInput hgo.1 event
      · exact hs

/-! ### Releasing an output -/

/-- The loop over some of the contacts -/
theorem inv_endContacts (output : Nat) (l : List (Fin 20)) (hs : Inv s) :
    Inv (l.foldl (fun s i => s.endContact output i) s) := by
  induction l generalizing s with
  | nil => exact hs
  | cons i l ih =>
    rw [List.foldl_cons]
    apply ih
    unfold State.endContact
    split
    · rename_i h
      have hactive : s.active i = true := by
        unfold State.active
        rw [h.1]
        simpa using h.2
      have hend : Inv ((s.setContact i {}).queue [.touch .touchEnd (i + 1)]) := by
        refine hs.contact i {} .touchEnd ?_ fun h => absurd rfl h
        simp [touchStep, hactive]
      exact hend
    · exact hs

theorem Inv.lorieDirectInputRelease (hs : Inv s) (output : Nat) : Inv (s.lorieDirectInputRelease output) := by
  have htablet : ∀ {u : State} (tool : Tool), Inv u → Inv (u.endTablet output tool) := by
    intro u tool hu
    unfold State.endTablet
    split
    · exact hu.tabletRelease tool
    · exact hu
  have hcontacts := inv_endContacts output (List.finRange 20) hs
  unfold State.lorieDirectInputRelease
  generalize (List.finRange 20).foldl (fun s i => State.endContact s output i) s = u at hcontacts
  rw [List.foldl_cons, List.foldl_cons, List.foldl_nil]
  exact htablet .eraser (htablet .pen hcontacts)

/-- The contacts of an output end, in the order of the slots. -/
theorem endContacts_eq {output : Nat} (ho : output ≠ 0) :
    ∀ (l : List (Fin 20)) (s : State), l.Nodup →
      l.foldl (fun s i => s.endContact output i) s =
        { s with
          contacts := fun i => if i ∈ l ∧ (s.contacts i).output = output then {} else s.contacts i
          events := s.events ++ (l.filter fun i => (s.contacts i).output = output).map fun i : Fin 20 =>
            Queued.touch .touchEnd (i + 1) }
  | [], s, _ => by simp
  | i :: l, s, hl => by
    obtain ⟨hi, hl⟩ := List.nodup_cons.1 hl
    rw [List.foldl_cons, endContacts_eq ho l _ hl]
    by_cases hout : (s.contacts i).output = output
    · have hend : s.endContact output i = (s.setContact i {}).queue [.touch .touchEnd (i + 1)] := by
        unfold State.endContact
        rw [if_pos ⟨hout, ho⟩]
        rfl
      have hcontacts : ∀ j, j ≠ i → (s.endContact output i).contacts j = s.contacts j := by
        intro j hj
        rw [hend]
        exact Function.update_of_ne hj _ _
      have hself : (s.endContact output i).contacts i = {} := by
        rw [hend]
        exact Function.update_self _ _ _
      have hfilter : (l.filter fun j => ((s.endContact output i).contacts j).output = output) =
          l.filter fun j => (s.contacts j).output = output := by
        refine List.filter_congr fun j hj => ?_
        rw [hcontacts j fun h => hi (h ▸ hj)]
      rw [hfilter]
      have hstate : s.endContact output i = { s with
          contacts := (s.endContact output i).contacts
          events := s.events ++ [.touch .touchEnd (i + 1)] } := by
        rw [hend]
        rfl
      have hgoal : (fun j => if j ∈ l ∧ ((s.endContact output i).contacts j).output = output then ({} : Contact)
          else (s.endContact output i).contacts j) =
            fun j => if j ∈ i :: l ∧ (s.contacts j).output = output then {} else s.contacts j := by
        funext j
        by_cases hj : j = i
        · subst hj
          rw [hself]
          simp [hi, hout]
        · rw [hcontacts j hj]
          simp [hj]
      rw [hgoal, hstate]
      simp [hout, List.append_assoc]
    · have hend : s.endContact output i = s := by
        unfold State.endContact
        rw [if_neg fun h => hout h.1]
      rw [hend]
      have hgoal : (fun j => if j ∈ l ∧ (s.contacts j).output = output then ({} : Contact) else s.contacts j) =
          fun j => if j ∈ i :: l ∧ (s.contacts j).output = output then {} else s.contacts j := by
        funext j
        by_cases hj : j = i
        · subst hj
          simp [hi, hout]
        · simp [hj]
      rw [hgoal]
      simp [hout]

theorem endTablet_eq {output : Nat} (ho : output ≠ 0) (s : State) (tool : Tool) :
    s.endTablet output tool =
      { s with
        tablets := Function.update s.tablets tool (if (s.tablets tool).output = output then {} else s.tablets tool)
        events := s.events ++ if (s.tablets tool).output = output then releases (s.tablets tool) tool else [] } := by
  unfold State.endTablet
  by_cases hout : (s.tablets tool).output = output
  · rw [if_pos ⟨hout, ho⟩, if_pos hout, if_pos hout, tabletRelease_eq]
    rfl
  · rw [if_neg fun h => hout h.1, if_neg hout, if_neg hout, List.append_nil, Function.update_eq_self]

/-- **Releasing an output** ends its contacts and its proximity, and nothing else. -/
theorem release_eq {output : Nat} (ho : output ≠ 0) (s : State) :
    s.lorieDirectInputRelease output =
      { contacts := fun i => if (s.contacts i).output = output then {} else s.contacts i
        tablets := fun tool => if (s.tablets tool).output = output then {} else s.tablets tool
        events := s.events ++
          (((List.finRange 20).filter fun i => (s.contacts i).output = output).map fun i : Fin 20 => .touch .touchEnd (i + 1)) ++
          (if (s.tablets .pen).output = output then releases (s.tablets .pen) .pen else []) ++
          (if (s.tablets .eraser).output = output then releases (s.tablets .eraser) .eraser else []) } := by
  have htablets : Function.update (Function.update s.tablets .pen
      (if (s.tablets .pen).output = output then {} else s.tablets .pen)) .eraser
        (if (s.tablets .eraser).output = output then {} else s.tablets .eraser) =
          fun tool => if (s.tablets tool).output = output then {} else s.tablets tool := by
    funext tool
    cases tool with
    | pen => simp
    | eraser => simp
  have hne : Tool.eraser ≠ Tool.pen := nofun
  unfold State.lorieDirectInputRelease
  rw [endContacts_eq ho _ s (List.nodup_finRange 20)]
  simp only [List.foldl_cons, List.foldl_nil, endTablet_eq ho, List.mem_finRange, true_and, Function.update_of_ne hne,
    htablets]

end Operations

/-! ## Whole runs -/

theorem Inv.step {s t : State} {a : Action} (hs : Inv s) (h : step s a = some t) : Inv t := by
  cases a with
  | input output event screen =>
    rw [← Option.some.inj h]
    exact hs.lorieDirectInput output event screen
  | release output =>
    rw [← Option.some.inj h]
    exact hs.lorieDirectInputRelease output

theorem Inv.init : Inv .init where
  touch := fun _ => rfl
  slots := nofun
  pairs := fun _ _ h => by cases h
  single := fun _ h => absurd rfl h
  idle := fun _ _ => rfl
  tablet := rfl

/-- An update or an end of a contact that is not active -/
theorem touch_inactive {s : State} {output : Nat} {event : Command} (hphase : event.phase ≠ touchBegin)
    (hinactive : ∀ i, s.contacts i ≠ { output := output, contact := event.detail }) : s.touch output event = s := by
  have hslot : s.slot? output event.detail = none := by
    cases h : s.slot? output event.detail with
    | none => rfl
    | some i => exact absurd (slot?_some h) (hinactive i)
  unfold State.touch
  split
  · rfl
  · dsimp only
    rw [hslot]

/-- **Direct input devices see well-formed sequences.** In every run of touch and tablet commands and releases:
the events of each touch slot are repetitions of a begin, updates and an end, and the slots are 1 to 20; an active contact
of an output has one slot; the tablet events bring one tool at a time into proximity, change its buttons only there, and
take it out with none pressed; an update or end of a contact that is not active queues nothing; and a release ends the
contacts and the proximity of its output, and nothing else. -/
theorem direct_input_sequences {s : State} (h : Reach step Free .init s) :
    (∀ i : Fin 20, exec (touchStep (i + 1)) false s.events = some (s.active i)) ∧
      (∀ type n, .touch type n ∈ s.events → 1 ≤ n ∧ n ≤ 20) ∧
      (∀ i j, s.active i = true → s.contacts i = s.contacts j → i = j) ∧
      exec tabletStep none s.events = some s.proximity ∧
      (∀ output event screen, event.operation = .touch → event.phase ≠ touchBegin →
        (∀ i, s.contacts i ≠ { output := output, contact := event.detail }) →
          s.lorieDirectInput output event screen = s) ∧
      (∀ output, s.lorieDirectInputRelease output =
        if output = 0 then s else
          { contacts := fun i => if (s.contacts i).output = output then {} else s.contacts i
            tablets := fun tool => if (s.tablets tool).output = output then {} else s.tablets tool
            events := s.events ++
              (((List.finRange 20).filter fun i => (s.contacts i).output = output).map fun i : Fin 20 => .touch .touchEnd (i + 1)) ++
              (if (s.tablets .pen).output = output then releases (s.tablets .pen) .pen else []) ++
              (if (s.tablets .eraser).output = output then releases (s.tablets .eraser) .eraser else []) }) := by
  have hinv : Inv s := h.invariant Inv.init fun _ _ _ hs _ hstep => hs.step hstep
  refine ⟨hinv.touch, hinv.slots, hinv.pairs, hinv.tablet, ?_, ?_⟩
  · intro output event screen hop hphase hinactive
    unfold State.lorieDirectInput
    split
    · rfl
    · split
      · rfl
      · rw [hop]
        exact touch_inactive hphase hinactive
  · intro output
    by_cases ho : output = 0
    · subst ho
      rw [if_pos rfl]
      have hcontact : ∀ (u : State) (i : Fin 20), u.endContact 0 i = u := fun u i => if_neg fun h => h.2 rfl
      have htablet : ∀ (u : State) (tool : Tool), u.endTablet 0 tool = u := fun u tool => if_neg fun h => h.2 rfl
      have hloop : ∀ (l : List (Fin 20)), l.foldl (fun s i => s.endContact 0 i) s = s := by
        intro l
        induction l with
        | nil => rfl
        | cons i l ih => rw [List.foldl_cons, hcontact, ih]
      unfold State.lorieDirectInputRelease
      simp only [hloop, List.foldl_cons, List.foldl_nil, htablet]
    · rw [if_neg ho, release_eq ho]

/-- A contact begins on each of two outputs, the pen comes with its tip down, and the first output goes. -/
def twoOutputs : List Action :=
  let touch : Command := ⟨.touch, 3, some (1 / 2), some 0, some 0, touchBegin, 0, 0, false⟩
  let pen : Command := ⟨.tablet, 0, some (1 / 2), some 0, some 0, 0, 1, 0, true⟩
  [.input 10 touch true, .input 20 touch true, .input 10 pen true, .release 10]

theorem direct_input_sequences_release : ∃ s, Reach step Free .init s ∧
    s.events = [.touch .touchBegin 1, .touch .touchBegin 2, .proximity .pen true, .motion .pen, .button .pen 1 true,
      .touch .touchEnd 1, .button .pen 1 false, .proximity .pen false] ∧
    exec (touchStep 2) false s.events = some (s.active 1) ∧ exec tabletStep none s.events = some s.proximity := by
  have hrun : (exec step .init twoOutputs).map State.events = some [.touch .touchBegin 1, .touch .touchBegin 2,
      .proximity .pen true, .motion .pen, .button .pen 1 true, .touch .touchEnd 1, .button .pen 1 false,
      .proximity .pen false] := by decide +kernel
  obtain ⟨s, hs, hevents⟩ := Option.map_eq_some_iff.1 hrun
  have hreach := Reach.of_exec twoOutputs hs
  obtain ⟨htouch, -, -, htablet, -⟩ := direct_input_sequences hreach
  exact ⟨s, hreach, hevents, htouch 1, htablet⟩

end Lorie.Outputs.DirectInput
