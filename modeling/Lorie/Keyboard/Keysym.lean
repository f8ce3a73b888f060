import Lorie.Lib.Levels
import Lorie.Keyboard.Keymap

/-!
# Pressing the key of a keysym

`lorieKeysymKeyboardEvent` finds the key of a keysym, gets shift and level three as the key needs them by pressing or releasing
other keys, presses the key and takes the other changes back (`InputXKB.c`).

- `resolve`: the key and its modifiers; `fakeShift`, `fakeLevelThree`: the other keys;
- `Undone`: no key but the pressed one has changed;
- `fakes_undone_iff`: when this is so;
- `typed_iff`: when the press and the release of a character leave every key as it was.
-/

namespace Lorie.Keyboard

open Lib (after Temporary after_append after_change after_nested change_iff nested_iff release_iff)

/-- `XK_Num_Lock` -/
def numLock : KeySym := 0xff7f

/-- `XK_Tab` -/
def tab : KeySym := 0xff09

/-- `altKeysym` -/
def altKeysym : List (KeySym × KeySym) :=
  [(0xffe1, 0xffe2), (0xffe3, 0xffe4), (0xffe7, 0xffe8), (0xffe9, 0xffea), (0xffeb, 0xffec), (0xffed, 0xffee),
    (0xff80, 0x20), (0xff89, 0xff09), (0xff8d, 0xff0d), (0xff91, 0xffbe), (0xff92, 0xffbf), (0xff93, 0xffc0),
    (0xff94, 0xffc1), (0xff95, 0xff50), (0xff96, 0xff51), (0xff97, 0xff52), (0xff98, 0xff53), (0xff99, 0xff54),
    (0xff9a, 0xff55), (0xff9b, 0xff56), (0xff9c, 0xff57), (0xff9d, 0xff58), (0xff9e, 0xff63), (0xff9f, 0xffff),
    (0xffbd, 0x3d), (0xffaa, 0x2a), (0xffab, 0x2b), (0xffac, 0x2c), (0xffad, 0x2d), (0xffae, 0x2e), (0xffaf, 0x2f),
    (0xffb0, 0x30), (0xffb1, 0x31), (0xffb2, 0x32), (0xffb3, 0x33), (0xffb4, 0x34), (0xffb5, 0x35), (0xffb6, 0x36),
    (0xffb7, 0x37), (0xffb8, 0x38), (0xffb9, 0x39), (0xfe03, 0xff7e)]

/-- The keysyms with the same meaning, in the order of the table -/
def alternatives (keysym : KeySym) : List KeySym :=
  altKeysym.filterMap fun (a, b) => if a = keysym then some b else if b = keysym then some a else none

/-- A key event: the key, and whether it is a `KeyPress`. -/
abbrev KeyEvent := KeyCode × Bool

/-- The master keyboard with an empty queue, and the tables of `InputXKB.c` -/
structure Master where
  keymap : Keymap
  /-- `lorieGetKeyboardState` -/
  state : CoreState
  /-- `key_is_down` -/
  down : KeyCode → Bool
  pressedKeys : KeyCode → KeySym
  /-- From the most recently used -/
  addedKeysyms : List (KeyCode × KeySym)

/-! ## New keysyms -/

section Adding

/-- `getReusableKeycode`, from the oldest item: the keycode, or 0, and the items that are left. -/
def getReusableKeycode (xkb : Keymap) : List (KeyCode × KeySym) → KeyCode × List (KeyCode × KeySym)
  | [] => (0, [])
  | (keycode, keysym) :: older =>
    -- Make sure someone else hasn't modified the key
    if !(xkb.key keycode).types.isEmpty ∧ (xkb.key keycode).syms.head? = some keysym ∧
        (xkb.names.all fun name => (name keycode).head? = some 'T') ∧ keycode ≠ 0 then (keycode, older)
    else getReusableKeycode xkb older

/-- The name of a key: `T` and three digits -/
def keyName (key : KeyCode) : List Char :=
  ['T', Nat.digitChar (key / 100 % 10), Nat.digitChar (key / 10 % 10), Nat.digitChar (key / 1 % 10)]

/-- `lorieAddKeysym`: the keycode, or 0. -/
def lorieAddKeysym (env : Xkb) (kb : Master) (keysym : KeySym) : Master × KeyCode :=
  let (key, items) := match kb.keymap.keyCodes.reverse.find? fun key => (kb.keymap.key key).types.isEmpty with
    | some key => (key, kb.addedKeysyms)
    | none =>
      let (key, older) := getReusableKeycode kb.keymap kb.addedKeysyms.reverse
      (key, older.reverse)
  if key = 0 then ({ kb with addedKeysyms := items }, 0)
  else
    let (lower, upper) := env.convertCase keysym
    let changed := env.changeTypesOfKey (kb.keymap.key key)
    ({ kb with
        keymap :=
          { kb.keymap with
            key := Function.update kb.keymap.key key { changed with syms := (changed.syms.set 0 lower).set 1 upper }
            names := kb.keymap.names.map fun name => Function.update name key (keyName key) }
        addedKeysyms := (key, lower) :: items }, key)

/-- `vncOnKeyUsed` -/
def vncOnKeyUsed (usedKeycode : KeyCode) (items : List (KeyCode × KeySym)) : List (KeyCode × KeySym) :=
  match items.find? fun item => item.1 = usedKeycode with
  | some item => item :: items.eraseP fun item => item.1 = usedKeycode
  | none => items

end Adding

/-! ## The key -/

section Resolve

variable (env : Xkb)

namespace Master

variable (kb : Master)

/-- `lorieKeysymToKeycode` in the current state, if there is a key -/
def find (keysym : KeySym) : Option (KeyCode × CoreState) :=
  let found := lorieKeysymToKeycode env kb.keymap kb.state keysym kb.state
  if found.1 = 0 then none else some found

/-- `lorieIsAffectedByNumLock` -/
def lorieIsAffectedByNumLock (keycode : KeyCode) : Bool :=
  -- Group state is still important
  let state := kb.state &&& ~~~0xff
  let numlock_keycode := lorieKeysymToKeycodeExact env kb.keymap numLock state
  if numlock_keycode = 0 then false
  else
    match kb.keymap.XkbKeyActionPtr numlock_keycode state with
    | none => false
    | some act =>
      if act.type ≠ .lockMods then false
      else
        let numlock_mask := if act.useModMapMods then (kb.keymap.key keycode).modmap else act.mask
        let type := (kb.keymap.key keycode).types.getD (kb.keymap.XkbKeyEffectiveGroup keycode state) default
        type.mods &&& numlock_mask ≠ 0

/-- The key and its modifiers would need a fake shift on the numeric pad. -/
def numpadShift (found : KeyCode × CoreState) : Bool :=
  kb.state &&& shiftMask ≠ found.2 &&& shiftMask && kb.lorieIsAffectedByNumLock env found.1

/-- The key of a keysym, added if there is none -/
def findOrAdd (keysym : KeySym) : Master × Option (KeyCode × CoreState) :=
  match (keysym :: alternatives keysym).findSome? (kb.find env) with
  | some found => (kb, some found)
  | none =>
    let (kb, keycode) := lorieAddKeysym env kb keysym
    (kb, if keycode = 0 then none else kb.find env keysym)

/-- The key that is pressed for a keysym, and the modifiers that it needs -/
def resolve (keysym : KeySym) : Master × Option (KeyCode × CoreState) :=
  match kb.findOrAdd env keysym with
  | (kb, none) => (kb, none)
  | (kb, some found) =>
    let found :=
      if kb.numpadShift env found then
        (((alternatives keysym).filterMap (kb.find env)).find? fun found => !kb.numpadShift env found).getD found
      else found
    -- Shift stays with `Tab`.
    (kb, some (found.1,
      if keysym = tab ∧ kb.state &&& shiftMask ≠ 0 then found.2 ||| shiftMask else found.2))

/-! ## The fakes -/

/-- The fake press or release of shift, if it is possible -/
def fakeShift (new_state : CoreState) : Option (Temporary KeyCode) :=
  if kb.state &&& shiftMask = 0 ∧ new_state &&& shiftMask ≠ 0 then
    let shift_press := loriePressShift kb.keymap kb.state
    if shift_press = 0 then none else some ⟨[shift_press], true⟩
  else if kb.state &&& shiftMask ≠ 0 ∧ new_state &&& shiftMask = 0 then
    let shift_release := lorieReleaseShift kb.keymap kb.down kb.state 8
    if shift_release.length = 0 then none else some ⟨shift_release, false⟩
  else some ⟨[], false⟩

/-- The fake press or release of level three, if it is possible -/
def fakeLevelThree (new_state : CoreState) : Option (Temporary KeyCode) :=
  let level_three_mask :=
    if new_state &&& ~~~shiftMask ≠ kb.state &&& ~~~shiftMask then lorieGetLevelThreeMask env kb.keymap kb.state else 0
  if kb.state &&& level_three_mask = 0 ∧ new_state &&& level_three_mask ≠ 0 then
    let level_three_press := loriePressLevelThree env kb.keymap kb.state
    if level_three_press = 0 then none else some ⟨[level_three_press], true⟩
  else if kb.state &&& level_three_mask ≠ 0 ∧ new_state &&& level_three_mask = 0 then
    let level_three_release := lorieReleaseLevelThree env kb.keymap kb.down kb.state 8
    if level_three_release.length = 0 then none else some ⟨level_three_release, false⟩
  else some ⟨[], false⟩

/-- The tables after a key is pressed for a keysym -/
def keyUsed (keycode : KeyCode) (keysym : KeySym) : Master :=
  { kb with
    pressedKeys := fun i =>
      if i = keycode then keysym
      else if kb.pressedKeys i = keysym then noSymbol
      else kb.pressedKeys i
    addedKeysyms := vncOnKeyUsed keycode kb.addedKeysyms }

end Master

/-- What a call leaves: the tables, the key events that it has queued, and the key that it has pressed. -/
structure Queued where
  master : Master
  events : List KeyEvent
  pressed : Option KeyCode
  /-- `mieqProcessInputEvents` at the end -/
  processed : Bool

/-- `lorieKeysymKeyboardEvent` -/
def lorieKeysymKeyboardEvent (kb : Master) (keysym : KeySym) (down : Bool) : Queued :=
  if !down then
    match (List.range 256).find? fun i => kb.pressedKeys i = keysym with
    | some i => ⟨{ kb with pressedKeys := Function.update kb.pressedKeys i noSymbol }, [(i, false)], none, true⟩
    | none => ⟨kb, [], none, false⟩
  else
    match kb.resolve env keysym with
    | (kb, none) => ⟨kb, [], none, false⟩
    | (kb, some (keycode, new_state)) =>
      match kb.fakeShift new_state with
      | none => ⟨kb, [], none, false⟩
      | some shift =>
        match kb.fakeLevelThree env new_state with
        | none => ⟨kb, shift.change, none, false⟩
        | some level_three =>
          ⟨kb.keyUsed keycode keysym,
            shift.change ++ level_three.change ++ (keycode, true) :: (level_three.undo ++ shift.undo), some keycode, true⟩

/-- No key but the pressed one is in another state after the events. -/
def Undone (kb : Master) (q : Queued) : Prop := ∀ k, q.pressed ≠ some k → after kb.down q.events k = kb.down k

/-- Where shift is faked and level three cannot be, the key for shift is pressed and was down already. Where both can be, a
key that is pressed for one of them was up, or is the pressed key itself, or is released for shift. -/
def Undoable (kb : Master) (keysym : KeySym) : Prop :=
  ∀ found ∈ (kb.resolve env keysym).2, ∀ shift ∈ (kb.resolve env keysym).1.fakeShift found.2,
    match (kb.resolve env keysym).1.fakeLevelThree env found.2 with
    | none => ∀ k ∈ shift.keys, shift.level = true ∧ kb.down k = true
    | some level_three =>
      (shift.level = true → ∀ k ∈ shift.keys, k = found.1 ∨ kb.down k = false) ∧
        (level_three.level = true → ∀ k ∈ level_three.keys, k = found.1 ∨ k ∈ shift.keys ∨ kb.down k = false)

/-! ## What is left of the fakes -/

variable {env} {kb : Master} {new_state : CoreState} {t : Temporary KeyCode}

theorem resolve_down (keysym : KeySym) : (kb.resolve env keysym).1.down = kb.down := by
  have hadd : ∀ keysym, (lorieAddKeysym env kb keysym).1.down = kb.down := by
    intro keysym
    unfold lorieAddKeysym
    dsimp only
    split
    · split <;> rfl
    · split <;> rfl
  have hfind : (kb.findOrAdd env keysym).1.down = kb.down := by
    unfold Master.findOrAdd
    split
    · rfl
    · exact hadd keysym
  unfold Master.resolve
  split
  · rename_i h
    exact (congrArg (·.1.down) h).symm.trans hfind
  · rename_i h
    exact (congrArg (·.1.down) h).symm.trans hfind

/-- Only keys that are down are released for shift. -/
theorem fakeShift_down (h : t ∈ kb.fakeShift new_state) (hlevel : t.level = false) : ∀ k ∈ t.keys, kb.down k = true := by
  unfold Master.fakeShift at h
  dsimp only at h
  split at h
  · split at h
    · cases h
    · cases h
      cases hlevel
  · split at h
    · split at h
      · cases h
      · cases h
        exact fun k hk => lorieReleaseShift_down hk
    · cases h
      exact fun k hk => absurd hk List.not_mem_nil

theorem fakeLevelThree_down (h : t ∈ kb.fakeLevelThree env new_state) (hlevel : t.level = false) :
    ∀ k ∈ t.keys, kb.down k = true := by
  unfold Master.fakeLevelThree at h
  dsimp only at h
  generalize (if new_state &&& ~~~shiftMask ≠ kb.state &&& ~~~shiftMask then lorieGetLevelThreeMask env kb.keymap kb.state
    else 0) = mask at h
  split at h
  · split at h
    · cases h
    · cases h
      cases hlevel
  · split at h
    · split at h
      · cases h
      · cases h
        exact fun k hk => lorieReleaseLevelThree_down hk
    · cases h
      exact fun k hk => absurd hk List.not_mem_nil

/-- Keys that are down when they are released are down again at the end. -/
theorem taken_back_iff {down : KeyCode → Bool} {q : KeyCode → Prop} (h : t.level = false → ∀ k ∈ t.keys, down k = true) :
    (∀ k ∈ t.keys, q k ∨ down k = !t.level) ↔ (t.level = true → ∀ k ∈ t.keys, q k ∨ down k = false) := by
  cases ht : t.level with
  | true => exact ⟨fun hk _ => hk, fun hk => hk rfl⟩
  | false => exact iff_of_true (fun k hk => .inr (h ht k hk)) fun e => absurd e Bool.false_ne_true

/-- **When the fakes are undone.** The keys besides the one that is pressed are as before exactly when shift was not faked
before level three turned out to be impossible, and no key is faked that is down. -/
theorem fakes_undone_iff (env : Xkb) (kb : Master) (keysym : KeySym) :
    Undone kb (lorieKeysymKeyboardEvent env kb keysym true) ↔ Undoable env kb keysym := by
  have hdown : (kb.resolve env keysym).1.down = kb.down := resolve_down keysym
  unfold Undoable lorieKeysymKeyboardEvent
  generalize kb.resolve env keysym = r at hdown ⊢
  obtain ⟨kb', found⟩ := r
  dsimp only at hdown ⊢
  have hnone : Undone kb ⟨kb', [], none, false⟩ := fun _ _ => rfl
  rw [if_neg (by decide)]
  cases found with
  | none => exact iff_of_true hnone fun found h => by cases h
  | some found =>
    simp only [Option.mem_def, Option.some.injEq, forall_eq']
    cases hshift : kb'.fakeShift found.2 with
    | none => exact iff_of_true hnone fun shift h => by cases h
    | some shift =>
      have hs : shift.level = false → ∀ k ∈ shift.keys, kb.down k = true := hdown ▸ fakeShift_down hshift
      simp only [Option.some.injEq, forall_eq']
      cases hthree : kb'.fakeLevelThree env found.2 with
      | none =>
        have hall : Undone kb ⟨kb', shift.change, none, false⟩ ↔ ∀ k ∈ shift.keys, kb.down k = shift.level :=
          (forall_congr' fun k => forall_prop_of_true (by simp)).trans (change_iff kb.down shift)
        refine hall.trans (forall₂_congr fun k hk => ?_)
        cases hl : shift.level with
        | true => simp
        | false => simp [hs hl k hk]
      | some three =>
        have ht : three.level = false → ∀ k ∈ three.keys, kb.down k = true := hdown ▸ fakeLevelThree_down hthree
        have hall : Undone kb ⟨kb'.keyUsed found.1 keysym,
            shift.change ++ three.change ++ (found.1, true) :: (three.undo ++ shift.undo), some found.1, true⟩ ↔ _ :=
          (forall_congr' fun k => imp_congr_left (by simp)).trans (nested_iff kb.down shift three found.1 true)
        refine hall.trans (and_congr (taken_back_iff hs) ?_)
        simp only [← or_assoc]
        exact taken_back_iff ht

/-! ## A text -/

/-- The key that is noted for a keysym. -/
def Master.noted (kb : Master) (keysym : KeySym) : Option KeyCode :=
  (List.range 256).find? fun i => kb.pressedKeys i = keysym

/-- What the two calls for a character of a text queue: the press, and the release. -/
def typed (env : Xkb) (kb : Master) (keysym : KeySym) : List KeyEvent :=
  (lorieKeysymKeyboardEvent env kb keysym true).events ++
    (lorieKeysymKeyboardEvent env (lorieKeysymKeyboardEvent env kb keysym true).master keysym false).events

/-- The key that the second call releases. -/
def Master.released (env : Xkb) (kb : Master) (keysym : KeySym) : List KeyCode :=
  ((lorieKeysymKeyboardEvent env kb keysym true).master.noted keysym).toList

/-- The key that is released at the end is not held. Of the others: where shift is faked and level three cannot be, the keys
for shift are as they were made. Where both can be, those keys are as they are made again when the fakes are undone, and the
key that is pressed is among them or held. -/
def Typeable (env : Xkb) (kb : Master) (keysym : KeySym) (held : KeyCode → Bool) : Prop :=
  (∀ k ∈ kb.released env keysym, held k = false) ∧
    ∀ found ∈ (kb.resolve env keysym).2, ∀ shift ∈ (kb.resolve env keysym).1.fakeShift found.2, ∀ k,
      k ∉ kb.released env keysym →
        match (kb.resolve env keysym).1.fakeLevelThree env found.2 with
        | none => k ∈ shift.keys → held k = shift.level
        | some level_three =>
          (k ∈ shift.keys → held k = !shift.level) ∧
            (k ∉ shift.keys → k ∈ level_three.keys → held k = !level_three.level) ∧
            (k ∉ shift.keys → k ∉ level_three.keys → k = found.1 → held k = true)

theorem typed_eq (env : Xkb) (kb : Master) (keysym : KeySym) :
    typed env kb keysym = (lorieKeysymKeyboardEvent env kb keysym true).events ++
      (kb.released env keysym).map fun k => (k, false) := by
  unfold typed Master.released Master.noted
  congr 1
  generalize (lorieKeysymKeyboardEvent env kb keysym true).master = later
  unfold lorieKeysymKeyboardEvent
  rw [if_pos (by decide)]
  cases (List.range 256).find? fun i => later.pressedKeys i = keysym <;> rfl

/-- **When a text leaves the keys** as they are held. -/
theorem typed_iff (env : Xkb) (kb : Master) (keysym : KeySym) (held : KeyCode → Bool) :
    (∀ k, after held (typed env kb keysym) k = held k) ↔ Typeable env kb keysym held := by
  rw [typed_eq, release_iff]
  refine and_congr_right fun _ => ?_
  generalize kb.released env keysym = released
  unfold lorieKeysymKeyboardEvent
  rw [if_neg (by decide)]
  generalize kb.resolve env keysym = r
  obtain ⟨kb', found⟩ := r
  dsimp only
  cases found with
  | none => exact iff_of_true (fun k _ => rfl) fun found h => by cases h
  | some found =>
    simp only [Option.mem_def, Option.some.injEq, forall_eq']
    cases hshift : kb'.fakeShift found.2 with
    | none => exact iff_of_true (fun k _ => rfl) fun shift h => by cases h
    | some shift =>
      simp only [Option.some.injEq, forall_eq']
      cases hthree : kb'.fakeLevelThree env found.2 with
      | none =>
        refine forall₂_congr fun k _ => ?_
        rw [after_change]
        by_cases hs : k ∈ shift.keys
        · simp only [hs, if_true, true_implies]
          exact eq_comm
        · simp only [hs, if_false, false_implies]
      | some three =>
        refine forall₂_congr fun k _ => ?_
        rw [after_nested]
        by_cases hs : k ∈ shift.keys
        · simp only [hs, if_true, true_implies, not_true_eq_false, false_implies, and_true]
          exact eq_comm
        · by_cases ht : k ∈ three.keys
          · simp only [hs, ht, if_false, if_true, true_implies, false_implies, not_false_eq_true, not_true_eq_false,
              and_true, true_and]
            exact eq_comm
          · simp only [hs, ht, if_false, true_implies, false_implies, not_false_eq_true, true_and]
            by_cases hk : k = found.1
            · simp only [hk, if_true, true_implies]
              exact eq_comm
            · simp only [hk, if_false, false_implies]

/-- The key 38 has `a`, `A`, `ae` and `AE`, 50 is shift, and 108 is level three (`Mod5`). -/
def fourLevelKeymap : Keymap where
  minKeyCode := 8
  maxKeyCode := 255
  key := fun key =>
    if key = 38 then
      { types := [⟨0x81, [⟨true, 1, 0x01⟩, ⟨true, 2, 0x80⟩, ⟨true, 3, 0x81⟩], none⟩]
        width := 4
        outOfRange := .wrap
        syms := [0x61, 0x41, 0xe6, 0xc6]
        actions := none
        modmap := 0 }
    else if key = 50 then ⟨[⟨0, [], none⟩], 1, .wrap, [0xffe1], some [⟨.setMods, false, 0x01⟩], 0x01⟩
    else if key = 108 then ⟨[⟨0, [], none⟩], 1, .wrap, [0xfe03], some [⟨.setMods, false, 0x80⟩], 0x80⟩
    else ⟨[], 0, .wrap, [], none, 0⟩
  names := none

/-- Level three is locked, and no key is down. -/
def levelThreeLocked : Master where
  keymap := fourLevelKeymap
  state := 0x80
  down := fun _ => false
  pressedKeys := fun _ => noSymbol
  addedKeysyms := []

example : (lorieKeysymKeyboardEvent ⟨fun s => (s, s), id⟩ { levelThreeLocked with state := 0 } 0x41 true).events =
    [(50, true), (38, true), (50, false)] := by
  decide +kernel

/-- Shift stays down after the keysym `A` with level three locked. -/
theorem shift_left_down :
    ¬ ∀ (env : Xkb) (kb : Master) (keysym : KeySym), Undone kb (lorieKeysymKeyboardEvent env kb keysym true) := by
  intro h
  have hevents : (lorieKeysymKeyboardEvent ⟨fun s => (s, s), id⟩ levelThreeLocked 0x41 true).events = [(50, true)] ∧
      (lorieKeysymKeyboardEvent ⟨fun s => (s, s), id⟩ levelThreeLocked 0x41 true).pressed = none := by
    decide +kernel
  have h50 := h ⟨fun s => (s, s), id⟩ levelThreeLocked 0x41 50 (by simp [hevents.2])
  rw [hevents.1] at h50
  exact absurd h50 (by decide)

end Resolve

end Lorie.Keyboard
