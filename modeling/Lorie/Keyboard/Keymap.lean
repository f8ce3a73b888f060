import Mathlib.Data.List.Basic

/-!
# The keymap

What a key gives in the current keymap: a keysym and an action, by its groups and levels (`InputXKB.c`). A keysym is looked
up from the lowest keycode, first as the modifiers are, then with shift, with level three and with both.

- `XkbTranslateKeyCode`, `XkbKeyActionPtr`: one key;
- `lorieKeysymToKeycode`: the key of a keysym, and the modifiers that it needs;
- `loriePressShift`, `lorieReleaseShift`, `loriePressLevelThree`, `lorieReleaseLevelThree`: the keys of a modifier;
- `lorieReleaseShift_down`, `lorieReleaseLevelThree_down`: only keys that are down are released.
-/

namespace Lorie.Keyboard

abbrev KeySym := Nat

abbrev KeyCode := Nat

/-- Modifiers and group as in a core event. -/
abbrev CoreState := BitVec 32

/-- `NoSymbol` -/
def noSymbol : KeySym := 0

/-- `ShiftMask` -/
def shiftMask : CoreState := 1

/-- `LockMask` -/
def lockMask : CoreState := 2

/-- `fakeKeys` -/
def fakeKeys : List KeyCode := [92, 203, 204, 205, 206, 207]

/-! ## The keymap -/

/-- `XkbKTMapEntryRec` -/
structure MapEntry where
  active : Bool
  level : Nat
  mods : BitVec 8
  deriving DecidableEq, Repr

/-- `XkbKeyTypeRec` -/
structure KeyType where
  mods : BitVec 8
  map : List MapEntry
  preserve : Option (List (BitVec 8))
  deriving DecidableEq, Repr, Inhabited

/-- `XkbOutOfRangeGroupAction` -/
inductive OutOfRange where
  | wrap
  | clamp
  | redirect (group : Nat)
  deriving DecidableEq, Repr

inductive ActionType where
  | noAction
  | setMods
  | latchMods
  | lockMods
  | other
  deriving DecidableEq, Repr

/-- `XkbAction` -/
structure Action where
  type : ActionType
  /-- `XkbSA_UseModMapMods` -/
  useModMapMods : Bool
  mask : BitVec 8
  deriving DecidableEq, Repr

/-- What a keymap has for a key; `types` has a type for each group. -/
structure Key where
  types : List KeyType
  /-- `XkbKeyGroupsWidth` -/
  width : Nat
  outOfRange : OutOfRange
  syms : List KeySym
  actions : Option (List Action)
  modmap : BitVec 8
  deriving DecidableEq, Repr

/-- `XkbDescRec` -/
structure Keymap where
  minKeyCode : KeyCode
  maxKeyCode : KeyCode
  key : KeyCode → Key
  names : Option (KeyCode → List Char)

/-- `XkbConvertCase`, to lower and to upper case, and `XkbChangeTypesOfKey` to one alphabetic group. -/
structure Xkb where
  convertCase : KeySym → KeySym × KeySym
  changeTypesOfKey : Key → Key

/-! ## One key -/

namespace Key

variable (key : Key) (mods : CoreState)

/-- The offset of the effective group -/
def effectiveGroup : Nat :=
  let group := ((mods >>> 13) &&& 3).toNat
  let nKeyGroups := key.types.length
  if group < nKeyGroups then group
  else
    match key.outOfRange with
    | .wrap => group % nKeyGroups
    | .clamp => nKeyGroups - 1
    | .redirect number => if number < nKeyGroups then number else 0

/-- The type of the effective group -/
def type : KeyType := key.types.getD (key.effectiveGroup mods) default

/-- The entry of the type for the modifiers -/
def entry : Option Nat :=
  (key.type mods).map.findIdx? fun entry =>
    entry.active && mods &&& (key.type mods).mods.setWidth 32 = entry.mods.setWidth 32

/-- The shift level within the group -/
def level : Nat :=
  match key.entry mods with
  | some i => ((key.type mods).map[i]?.map MapEntry.level).getD 0
  | none => 0

def column : Nat := key.effectiveGroup mods * key.width + key.level mods

end Key

namespace Keymap

variable (xkb : Keymap)

/-- The keycodes, from the lowest -/
def keyCodes : List KeyCode := List.range' xkb.minKeyCode (xkb.maxKeyCode + 1 - xkb.minKeyCode)

/-- `XkbKeycodeInRange`, with a group -/
def valid (key : KeyCode) : Bool :=
  xkb.minKeyCode ≤ key && key ≤ xkb.maxKeyCode && !(xkb.key key).types.isEmpty

/-- `XkbTranslateKeyCode`: the keysym and the modifiers of the key -/
def XkbTranslateKeyCode (key : KeyCode) (mods : CoreState) : KeySym × CoreState :=
  if xkb.valid key then
    let preserve := match (xkb.key key).entry mods, ((xkb.key key).type mods).preserve with
      | some i, some preserve => preserve.getD i 0
      | _, _ => 0
    ((xkb.key key).syms.getD ((xkb.key key).column mods) noSymbol,
      (((xkb.key key).type mods).mods &&& ~~~preserve).setWidth 32)
  else (noSymbol, 0)

/-- `XkbKeyActionPtr` -/
def XkbKeyActionPtr (key : KeyCode) (mods : CoreState) : Option Action :=
  match (xkb.key key).actions with
  | none => none
  | some acts =>
    if xkb.valid key then some (acts.getD ((xkb.key key).column mods) ⟨.noAction, false, 0⟩) else none

/-- `XkbKeyEffectiveGroup` -/
def XkbKeyEffectiveGroup (key : KeyCode) (mods : CoreState) : Nat :=
  if xkb.valid key then (xkb.key key).effectiveGroup mods else 0

/-- The modifiers of an action of a key -/
def actionMask (key : KeyCode) (act : Action) : BitVec 8 :=
  if act.useModMapMods then (xkb.key key).modmap else act.mask

/-- The modifiers that a key sets while it is down. -/
def setMods (key : KeyCode) (mods : CoreState) : Option CoreState :=
  match xkb.XkbKeyActionPtr key mods with
  | some act => if act.type = .setMods then some ((xkb.actionMask key act).setWidth 32) else none
  | none => none

end Keymap

/-! ## The key of a keysym -/

section Lookup

variable (env : Xkb) (xkb : Keymap)

/-- What the key gives, with the case that `Lock` makes of it -/
def symbol (key : KeyCode) (state : CoreState) : Option KeySym :=
  let (ks, mods) := xkb.XkbTranslateKeyCode key state
  if ks = noSymbol then none
  else if (state &&& ~~~mods) &&& lockMask ≠ 0 then some (env.convertCase ks).2
  else some ks

/-- The loop of `lorieKeysymToKeycode` -/
def scan (keysym : KeySym) (state : CoreState) : List KeyCode → KeyCode → KeyCode
  | [], fallback => fallback
  | key :: keys, fallback =>
    if symbol env xkb key state ≠ some keysym then scan keysym state keys fallback
    -- Keys that no real keyboard sends are used last.
    else if key ∈ fakeKeys then scan keysym state keys (if fallback = 0 then key else fallback)
    else key

/-- `lorieKeysymToKeycode` without `new_state` -/
def lorieKeysymToKeycodeExact (keysym : KeySym) (state : CoreState) : KeyCode :=
  scan env xkb keysym state xkb.keyCodes 0

/-- `XK_ISO_Level3_Shift` -/
def isoLevel3Shift : KeySym := 0xfe03

/-- `XK_Mode_switch` -/
def modeSwitch : KeySym := 0xff7e

/-- The key of level three -/
def levelThreeKey (state : CoreState) : KeyCode :=
  let keycode := lorieKeysymToKeycodeExact env xkb isoLevel3Shift state
  if keycode = 0 then lorieKeysymToKeycodeExact env xkb modeSwitch state else keycode

/-- `lorieGetLevelThreeMask`, with the state of the keyboard -/
def lorieGetLevelThreeMask (state : CoreState) : CoreState :=
  -- Group state is still important
  let state := state &&& ~~~0xff
  let keycode := levelThreeKey env xkb state
  if keycode = 0 then 0 else (xkb.setMods keycode state).getD 0

/-- The state with the modifiers of the mask toggled as a whole -/
def toggled (state mask : CoreState) : CoreState := (state &&& ~~~mask) ||| if state &&& mask ≠ 0 then 0 else mask

/-- `lorieKeysymToKeycode`: the key, or 0, and `new_state`; `current` is the state of the keyboard. -/
def lorieKeysymToKeycode (current : CoreState) (keysym : KeySym) (state : CoreState) : KeyCode × CoreState :=
  let key := lorieKeysymToKeycodeExact env xkb keysym state
  if key ≠ 0 then (key, state)
  else
    let new_state := toggled state shiftMask
    let key := lorieKeysymToKeycodeExact env xkb keysym new_state
    if key ≠ 0 then (key, new_state)
    else
      let level_three_mask := lorieGetLevelThreeMask env xkb current
      if level_three_mask = 0 then (0, new_state)
      else
        let new_state := toggled state level_three_mask
        let key := lorieKeysymToKeycodeExact env xkb keysym new_state
        if key ≠ 0 then (key, new_state)
        else
          let new_state := (state &&& ~~~(shiftMask ||| level_three_mask)) |||
            (if state &&& shiftMask ≠ 0 then 0 else shiftMask) |||
            (if state &&& level_three_mask ≠ 0 then 0 else level_three_mask)
          (lorieKeysymToKeycodeExact env xkb keysym new_state, new_state)

/-! ## The keys of a modifier -/

/-- `loriePressShift` -/
def loriePressShift (state : CoreState) : KeyCode :=
  if state &&& shiftMask ≠ 0 then 0
  else
    (xkb.keyCodes.find? fun key => (xkb.setMods key state).any fun mask => mask &&& shiftMask = shiftMask).getD 0

/-- The keys that are down and set one of the modifiers, if there are not too many of them. -/
def holding (down : KeyCode → Bool) (state mask : CoreState) (maxKeys : Nat) : List KeyCode :=
  let keys := xkb.keyCodes.filter fun key =>
    down key && (xkb.setMods key state).any fun key_mask => key_mask &&& mask ≠ 0
  if maxKeys < keys.length then [] else keys

/-- `lorieReleaseShift` -/
def lorieReleaseShift (down : KeyCode → Bool) (state : CoreState) (maxKeys : Nat) : List KeyCode :=
  if state &&& shiftMask = 0 then [] else holding xkb down state shiftMask maxKeys

/-- `loriePressLevelThree` -/
def loriePressLevelThree (state : CoreState) : KeyCode :=
  let mask := lorieGetLevelThreeMask env xkb state
  if mask = 0 then 0
  else if state &&& mask ≠ 0 then 0
  else
    let keycode := levelThreeKey env xkb state
    if keycode = 0 then 0
    else if (xkb.setMods keycode state).isSome then keycode
    else 0

/-- `lorieReleaseLevelThree` -/
def lorieReleaseLevelThree (down : KeyCode → Bool) (state : CoreState) (maxKeys : Nat) : List KeyCode :=
  let mask := lorieGetLevelThreeMask env xkb state
  if mask = 0 then []
  else if state &&& mask = 0 then []
  else holding xkb down state mask maxKeys

variable {env xkb}

theorem holding_down {down : KeyCode → Bool} {state mask : CoreState} {maxKeys : Nat} {key : KeyCode}
    (h : key ∈ holding xkb down state mask maxKeys) : down key = true := by
  unfold holding at h
  dsimp only at h
  split at h
  · cases h
  · have hkey := (List.mem_filter.1 h).2
    rw [Bool.and_eq_true] at hkey
    exact hkey.1

theorem lorieReleaseShift_down {down : KeyCode → Bool} {state : CoreState} {maxKeys : Nat} {key : KeyCode}
    (h : key ∈ lorieReleaseShift xkb down state maxKeys) : down key = true := by
  unfold lorieReleaseShift at h
  split at h
  · cases h
  · exact holding_down h

theorem lorieReleaseLevelThree_down {down : KeyCode → Bool} {state : CoreState} {maxKeys : Nat} {key : KeyCode}
    (h : key ∈ lorieReleaseLevelThree env xkb down state maxKeys) : down key = true := by
  unfold lorieReleaseLevelThree at h
  dsimp only at h
  split at h
  · cases h
  · split at h
    · cases h
    · exact holding_down h

end Lookup

end Lorie.Keyboard
