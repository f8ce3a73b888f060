import Lorie.Lib.Numbers

/-!
# The XSETTINGS format

The settings of a screen as the bytes of a property, with the lowest byte of a number first.

- `Parser`: reading at the front of some bytes; `Reads p bytes a`: `p` reads just these bytes as `a`, whatever stands behind
  them (`Reads.bind`);
- `Setting`, `Settings`: settings that are numbers or texts, whose lengths fit into their fields;
- `encode` and `decode`: `decode_encode`.
-/

namespace Lorie.Lib.XSettings

/-! ## Reading bytes -/

/-- What is read at the front of some bytes, with the bytes that are left. -/
abbrev Parser (α : Type) := StateT (List UInt8) Option α

/-- `p` reads just these bytes as `a`. -/
def Reads {α : Type} (p : Parser α) (bytes : List UInt8) (a : α) : Prop := ∀ rest, p (bytes ++ rest) = some (a, rest)

section

variable {α β : Type} {p : Parser α} {f : α → Parser β} {xs ys : List UInt8} {a : α} {b : β}

theorem Reads.pure (a : α) : Reads (pure a) [] a := fun _ => rfl

theorem Reads.bind (hp : Reads p xs a) (hf : Reads (f a) ys b) : Reads (p >>= f) (xs ++ ys) b := by
  intro rest
  show (p (xs ++ ys ++ rest)).bind (fun r => f r.1 r.2) = _
  rw [List.append_assoc, hp]
  exact hf rest

theorem Reads.map (g : α → β) (hp : Reads p xs a) : Reads (p >>= fun a => Pure.pure (g a)) xs (g a) := by
  have h := hp.bind (f := fun a => Pure.pure (g a)) (Reads.pure (g a))
  rwa [List.append_nil] at h

end

def takeBytes (n : Nat) : Parser (List UInt8) := fun bytes =>
  if n ≤ bytes.length then some (bytes.take n, bytes.drop n) else none

theorem reads_takeBytes (bytes : List UInt8) : Reads (takeBytes bytes.length) bytes bytes := by
  intro rest
  unfold takeBytes
  rw [if_pos (by rw [List.length_append]; exact Nat.le_add_right _ _), List.take_left, List.drop_left]

/-- A number of so many bytes -/
def number (width : Nat) : Parser Nat := do
  let bytes ← takeBytes width
  return ofLittleEndian bytes

theorem reads_number {width n : Nat} (h : n < 256 ^ width) : Reads (number width) (littleEndian width n) n := by
  have htake := reads_takeBytes (littleEndian width n)
  rw [littleEndian_length] at htake
  have hread := htake.map ofLittleEndian
  rwa [ofLittleEndian_littleEndian h] at hread

def card32 : Parser UInt32 := do
  let n ← number 4
  return UInt32.ofNat n

theorem reads_card32 (n : UInt32) : Reads card32 (littleEndian 4 n.toNat) n := by
  have hread := (@reads_number 4 _ n.toNat_lt).map UInt32.ofNat
  rwa [UInt32.ofNat_toNat] at hread

/-- So many times -/
def repeated {α : Type} (p : Parser α) : Nat → Parser (List α)
  | 0 => pure []
  | n + 1 => do
    let a ← p
    let rest ← repeated p n
    return a :: rest

theorem reads_repeated {α : Type} {p : Parser α} {encode : α → List UInt8} {as : List α}
    (h : ∀ a ∈ as, Reads p (encode a) a) : Reads (repeated p as.length) (as.flatMap encode) as := by
  induction as with
  | nil => exact .pure []
  | cons a as ih =>
    have hrest := ih fun b hb => h b (List.mem_cons_of_mem _ hb)
    rw [List.flatMap_cons]
    exact (h a List.mem_cons_self).bind (hrest.map (a :: ·))

/-! ## Texts -/

/-- A text whose length is a number of so many bytes. -/
abbrev Text (width : Nat) := { bytes : List UInt8 // bytes.length < 256 ^ width }

/-- The zeros that bring a length to a multiple of four -/
def padding (n : Nat) : Nat := (n + 3) / 4 * 4 - n

theorem padding_add (n : Nat) : n + padding n = (n + 3) / 4 * 4 := by
  unfold padding
  omega

/-- A text and the zeros behind it -/
def Text.encode {width : Nat} (text : Text width) : List UInt8 :=
  text.val ++ List.replicate (padding text.val.length) 0

/-- A text of this length, and the zeros behind it -/
def textOf (width n : Nat) : Parser (Text width) := do
  let bytes ← takeBytes n
  let _ ← takeBytes (padding n)
  if h : bytes.length < 256 ^ width then return ⟨bytes, h⟩ else failure

theorem reads_textOf {width : Nat} (text : Text width) : Reads (textOf width text.val.length) text.encode text := by
  have hzeros := reads_takeBytes (List.replicate (padding text.val.length) 0)
  rw [List.length_replicate] at hzeros
  unfold textOf Text.encode
  refine (reads_takeBytes text.val).bind ?_
  rw [← List.append_nil (List.replicate _ _)]
  refine hzeros.bind ?_
  rw [dif_pos text.property]
  exact .pure text

/-! ## Settings -/

/-- A setting is a number (type 0) or a text (type 1); colours are left out. -/
inductive SettingValue where
  | integer (n : UInt32)
  | text (t : Text 4)
  deriving DecidableEq

structure Setting where
  name : Text 2
  /-- The serial of its last change -/
  serial : UInt32
  value : SettingValue
  deriving DecidableEq

structure Settings where
  serial : UInt32
  list : List Setting
  fits : list.length < 256 ^ 4
  deriving DecidableEq

def SettingValue.type : SettingValue → Nat
  | .integer _ => 0
  | .text _ => 1

def SettingValue.encode : SettingValue → List UInt8
  | .integer n => littleEndian 4 n.toNat
  | .text t => littleEndian 4 t.val.length ++ t.encode

def Setting.encode (s : Setting) : List UInt8 :=
  littleEndian 1 s.value.type ++ ([0] ++ (littleEndian 2 s.name.val.length ++ (s.name.encode ++
    (littleEndian 4 s.serial.toNat ++ s.value.encode))))

/-- The byte order (`LSBFirst`), three bytes that are not used, the serial, how many settings there are, and the settings. -/
def Settings.encode (s : Settings) : List UInt8 :=
  [0] ++ ([0, 0, 0] ++ (littleEndian 4 s.serial.toNat ++ (littleEndian 4 s.list.length ++ s.list.flatMap Setting.encode)))

def settingValue : Nat → Parser SettingValue
  | 0 => do
    let n ← card32
    return .integer n
  | 1 => do
    let length ← number 4
    let t ← textOf 4 length
    return .text t
  | _ => failure

def setting : Parser Setting := do
  let type ← number 1
  let _ ← takeBytes 1
  let length ← number 2
  let name ← textOf 2 length
  let serial ← card32
  let value ← settingValue type
  return { name, serial, value }

def settings : Parser Settings := do
  let order ← takeBytes 1
  if order = [0] then
    let _ ← takeBytes 3
    let serial ← card32
    let count ← number 4
    let list ← repeated setting count
    if fits : list.length < 256 ^ 4 then return { serial, list, fits } else failure
  else failure

/-- All of the bytes are read. -/
def Settings.decode (bytes : List UInt8) : Option Settings :=
  match settings bytes with
  | some (s, []) => some s
  | _ => none

theorem reads_settingValue (v : SettingValue) : Reads (settingValue v.type) v.encode v := by
  cases v with
  | integer n => exact (reads_card32 n).map SettingValue.integer
  | text t => exact (reads_number t.property).bind ((reads_textOf t).map SettingValue.text)

theorem reads_setting (s : Setting) : Reads setting s.encode s := by
  have htype : s.value.type < 256 ^ 1 := by
    cases s.value with
    | integer _ => exact (by decide : 0 < 256 ^ 1)
    | text _ => exact (by decide : 1 < 256 ^ 1)
  exact (reads_number htype).bind ((reads_takeBytes [0]).bind ((reads_number s.name.property).bind
    ((reads_textOf s.name).bind ((reads_card32 s.serial).bind ((reads_settingValue s.value).map _)))))

theorem reads_settings (s : Settings) : Reads settings s.encode s := by
  have hlist : Reads (repeated setting s.list.length) (s.list.flatMap Setting.encode) s.list :=
    reads_repeated fun a _ => reads_setting a
  refine (reads_takeBytes [0]).bind ?_
  rw [if_pos rfl]
  refine (reads_takeBytes [0, 0, 0]).bind ((reads_card32 s.serial).bind ((reads_number s.fits).bind ?_))
  rw [← List.append_nil (List.flatMap _ _)]
  refine hlist.bind ?_
  rw [dif_pos s.fits]
  exact .pure s

/-- **Settings are read back from their bytes.** -/
theorem Settings.decode_encode (s : Settings) : Settings.decode s.encode = some s := by
  have h := reads_settings s []
  rw [List.append_nil] at h
  unfold Settings.decode
  rw [h]

end Lorie.Lib.XSettings
