import Lorie.DataExchange.Targets
import Lorie.Lib.XSettings

/-!
# The density settings as bytes

`lorieDensitySettings` writes the settings of toolkits into a buffer of fixed size. A write outside of the buffer has no result,
so that a call with a result stays inside.

- `densitySettings`: what toolkits are to read, for a density and a colour scheme;
- `lorieDensitySettings_eq`: the buffer holds the bytes of these settings;
- `lorieDensitySettings_decode`: read again, they are the settings of the density;
- `windowScale_near`: what the scale in them is for.
-/

namespace Lorie.Managers

open Lorie.Lib Lorie.Lib.XSettings
open Lorie.DataExchange.Targets (ascii)

/-! ## Writing into a buffer -/

/-- `memcpy(bytes + i, data, length)` -/
def put (bytes : List UInt8) (i : Nat) (data : List UInt8) : Option (List UInt8) :=
  if i + data.length ≤ bytes.length then some (bytes.take i ++ data ++ bytes.drop (i + data.length)) else none

/-- A buffer that is zero behind its front -/
def page (size : Nat) (front : List UInt8) : List UInt8 := front ++ List.replicate (size - front.length) 0

theorem page_length {size : Nat} {front : List UInt8} (h : front.length ≤ size) : (page size front).length = size := by
  unfold page
  rw [List.length_append, List.length_replicate]
  omega

/-- Zeros may be counted to the front. -/
theorem page_zeros {size k : Nat} {front : List UInt8} (h : front.length + k ≤ size) :
    page size (front ++ List.replicate k 0) = page size front := by
  unfold page
  rw [List.length_append, List.length_replicate, List.append_assoc, List.replicate_append_replicate]
  have hk : k + (size - (front.length + k)) = size - front.length := by omega
  rw [hk]

/-- A write at the end of the front -/
theorem put_page {size : Nat} {front data : List UInt8} (h : front.length + data.length ≤ size) :
    put (page size front) front.length data = some (page size (front ++ data)) := by
  unfold put
  rw [page_length (by omega), if_pos h]
  refine congrArg some ?_
  unfold page
  rw [List.take_left, List.drop_append, List.drop_eq_nil_of_le (Nat.le_add_right _ _), List.nil_append, List.drop_replicate,
    List.length_append]
  have hk : size - front.length - (front.length + data.length - front.length) = size - (front.length + data.length) := by omega
  rw [hk]

/-- A write behind some zeros -/
theorem put_zeros {size k : Nat} {front data : List UInt8} (h : front.length + k + data.length ≤ size) :
    put (page size front) (front.length + k) data = some (page size (front ++ List.replicate k 0 ++ data)) := by
  have hput := @put_page size (front ++ List.replicate k 0) data
    (by rw [List.length_append, List.length_replicate]; exact h)
  rwa [page_zeros (by omega), List.length_append, List.length_replicate] at hput

/-! ## The source -/

/-- `LORIE_DENSITY_SETTINGS_SIZE` -/
def densitySettingsSize : Nat := 160

/-- `densityCard32` at `bytes + i` -/
def densityCard32 (bytes : List UInt8) (i : Nat) (value : UInt32) : Option (List UInt8) :=
  put bytes i ((List.range 4).map fun k => (value >>> UInt32.ofNat (k * 8)).toUInt8)

/-- The length of a text with the zeros behind it -/
def padded (length : Nat) : Nat := (length + 3) / 4 * 4

/-- One round of the loop over `names` -/
def putInteger (serial : UInt32) (state : List UInt8 × Nat) (entry : List UInt8 × UInt32) : Option (List UInt8 × Nat) := do
  let (bytes, offset) := state
  let (name, value) := entry
  let bytes ← put bytes (offset + 2) [name.length.toUInt8]
  let bytes ← put bytes (offset + 4) name
  let offset := offset + (4 + padded name.length)
  let bytes ← densityCard32 bytes offset serial
  let bytes ← densityCard32 bytes (offset + 4) value
  return (bytes, offset + 8)

/-- The setting of the theme -/
def putText (serial : UInt32) (state : List UInt8 × Nat) (name theme : List UInt8) : Option (List UInt8 × Nat) := do
  let (bytes, offset) := state
  let bytes ← put bytes offset [1]
  let bytes ← put bytes (offset + 2) [name.length.toUInt8]
  let bytes ← put bytes (offset + 4) name
  let offset := offset + (4 + padded name.length)
  let bytes ← densityCard32 bytes offset serial
  let bytes ← densityCard32 bytes (offset + 4) (UInt32.ofNat theme.length)
  let bytes ← put bytes (offset + 8) theme
  return (bytes, offset + (8 + padded theme.length))

/-- `scale` -/
def densityScale (dpi : Int) : Int := if (dpi + 48) / 96 < 1 then 1 else (dpi + 48) / 96

/-- `names` and `values` -/
def densityIntegers (dpi : Int) : List (List UInt8 × UInt32) :=
  let scale := densityScale dpi
  [(ascii "Xft/DPI", UInt32.ofInt dpi * 1024), (ascii "Gdk/WindowScalingFactor", UInt32.ofInt scale),
    (ascii "Gdk/UnscaledDPI", UInt32.ofInt (dpi * 1024 + scale / 2) / UInt32.ofInt scale)]

def themeName : List UInt8 := ascii "Net/ThemeName"

def theme (scheme : Int) : List UInt8 := if scheme = 1 then ascii "Adwaita-dark" else ascii "Adwaita"

/-- What `lorieDensitySettings` writes settings for -/
def InRange (dpi scheme : Int) : Prop := (24 ≤ dpi ∧ dpi ≤ 1536) ∧ 0 ≤ scheme ∧ scheme ≤ 2

instance (dpi scheme : Int) : Decidable (InRange dpi scheme) := by
  unfold InRange
  infer_instance

/-- `lorieDensitySettings`, with the buffer of the caller. -/
def lorieDensitySettings (bytes : List UInt8) (dpi : Int) (serial : UInt32) (scheme : Int) : Option (List UInt8 × Nat) :=
  if dpi < 24 ∨ dpi > 1536 ∨ scheme < 0 ∨ scheme > 2 then some (bytes, 0)
  else do
    let bytes ← put bytes 0 (List.replicate densitySettingsSize 0)
    let bytes ← densityCard32 bytes 4 serial
    let bytes ← densityCard32 bytes 8 (if scheme ≠ 0 then 4 else 3)
    let state ← (densityIntegers dpi).foldlM (putInteger serial) (bytes, 12)
    if scheme ≠ 0 then putText serial state themeName (theme scheme) else return state


/-! ## What is written -/

theorem card32_byte (value : UInt32) {k : Nat} (hk : k < 4) :
    (value >>> UInt32.ofNat (k * 8)).toUInt8 = UInt8.ofNat (value.toNat / 256 ^ k % 256) := by
  have hshift : (UInt32.ofNat (k * 8)).toNat % 32 = 8 * k := by
    rw [UInt32.toNat_ofNat']
    omega
  have hlow : (UInt8.ofNat (value.toNat / 256 ^ k % 256)).toNat = value.toNat / 256 ^ k % 256 :=
    UInt8.toNat_ofNat_of_lt' (Nat.mod_lt _ (by decide))
  apply UInt8.toNat_inj.1
  rw [UInt32.toNat_toUInt8, UInt32.toNat_shiftRight, hshift, hlow, Nat.shiftRight_eq_div_pow, Nat.pow_mul]

theorem card32_bytes (value : UInt32) :
    ((List.range 4).map fun k => (value >>> UInt32.ofNat (k * 8)).toUInt8) = littleEndian 4 value.toNat := by
  have hbytes : ((List.range 4).map fun k => (value >>> UInt32.ofNat (k * 8)).toUInt8) =
      (List.range 4).map fun k => UInt8.ofNat (value.toNat / 256 ^ k % 256) :=
    List.map_congr_left fun k hk => card32_byte value (List.mem_range.1 hk)
  rw [hbytes]
  simp [littleEndian, Nat.div_div_eq_div_mul, List.range_succ]

/-- A write at a place behind the front -/
theorem put_at {size i k : Nat} {front data : List UInt8} (hi : i = front.length + k) (h : i + data.length ≤ size) :
    put (page size front) i data = some (page size (front ++ List.replicate k 0 ++ data)) := by
  subst hi
  exact put_zeros h

theorem densityCard32_at {size i k : Nat} {front : List UInt8} (value : UInt32) (hi : i = front.length + k)
    (h : i + 4 ≤ size) :
    densityCard32 (page size front) i value = some (page size (front ++ List.replicate k 0 ++ littleEndian 4 value.toNat)) := by
  unfold densityCard32
  rw [card32_bytes]
  exact put_at hi (by rwa [littleEndian_length])

/-- The two bytes of a short length -/
theorem littleEndian_short {n : Nat} (h : n < 256) : littleEndian 2 n = [n.toUInt8, 0] := by
  have hn : n / 256 = 0 := Nat.div_eq_of_lt h
  simp only [littleEndian, Nat.mod_eq_of_lt h, hn]
  rfl

theorem integer_encode {name : Text 2} (serial value : UInt32) (hname : name.val.length < 256) :
    Setting.encode ⟨name, serial, .integer value⟩ = List.replicate 2 0 ++ [name.val.length.toUInt8] ++ List.replicate 1 0 ++
      name.val ++ List.replicate (padding name.val.length) 0 ++ littleEndian 4 serial.toNat ++ littleEndian 4 value.toNat := by
  simp only [Setting.encode, SettingValue.encode, SettingValue.type, Text.encode, littleEndian_short hname, List.append_assoc]
  rfl

/-- **One round of the loop** writes a setting behind the others. -/
theorem putInteger_page {size : Nat} {front : List UInt8} {name : Text 2} {serial value : UInt32}
    (hname : name.val.length < 256) (hroom : front.length + (Setting.encode ⟨name, serial, .integer value⟩).length ≤ size) :
    putInteger serial (page size front, front.length) (name.val, value) =
      some (page size (front ++ Setting.encode ⟨name, serial, .integer value⟩),
        (front ++ Setting.encode ⟨name, serial, .integer value⟩).length) := by
  have hpad : padded name.val.length = name.val.length + padding name.val.length := (padding_add _).symm
  simp only [integer_encode serial value hname] at hroom ⊢
  simp only [List.length_append, List.length_replicate, List.length_singleton, littleEndian_length] at hroom
  unfold putInteger
  simp only [hpad, Option.pure_def, Option.bind_eq_bind]
  rw [@put_at _ _ 2 front _ rfl (by simp only [List.length_singleton]; omega), Option.bind_some]
  rw [@put_at _ _ 1 (front ++ List.replicate 2 0 ++ [name.val.length.toUInt8]) _
    (by simp only [List.length_append, List.length_replicate, List.length_singleton]) (by omega), Option.bind_some]
  rw [@densityCard32_at _ _ (padding name.val.length) _ serial
    (by simp only [List.length_append, List.length_replicate, List.length_singleton]; omega) (by omega), Option.bind_some]
  rw [@densityCard32_at _ _ 0 _ value
    (by simp only [List.length_append, List.length_replicate, List.length_singleton, littleEndian_length]; omega) (by omega),
    Option.bind_some]
  simp only [List.append_assoc, List.length_append, List.length_replicate, List.length_singleton, littleEndian_length,
    List.replicate_zero, List.nil_append, Option.some.injEq, Prod.mk.injEq, true_and]
  omega

/-- **The loop** writes one setting for each entry. -/
theorem foldlM_putInteger {size : Nat} {serial : UInt32} {entries : List (Text 2 × UInt32)} {front : List UInt8}
    (hshort : ∀ e ∈ entries, e.1.val.length < 256)
    (hroom : (front ++ entries.flatMap fun e => Setting.encode ⟨e.1, serial, .integer e.2⟩).length ≤ size) :
    (entries.map fun e => (e.1.val, e.2)).foldlM (putInteger serial) (page size front, front.length) =
      some (page size (front ++ entries.flatMap fun e => Setting.encode ⟨e.1, serial, .integer e.2⟩),
        (front ++ entries.flatMap fun e => Setting.encode ⟨e.1, serial, .integer e.2⟩).length) := by
  induction entries generalizing front with
  | nil => simp only [List.flatMap_nil, List.append_nil, List.map_nil, List.foldlM_nil, Option.pure_def]
  | cons e entries ih =>
    rw [List.flatMap_cons, ← List.append_assoc] at hroom ⊢
    have hfirst : front.length + (Setting.encode ⟨e.1, serial, .integer e.2⟩).length ≤ size := by
      rw [List.length_append, List.length_append] at hroom
      omega
    rw [List.map_cons, List.foldlM_cons, putInteger_page (hshort e List.mem_cons_self) hfirst]
    exact ih (fun e he => hshort e (List.mem_cons_of_mem _ he)) hroom

theorem text_encode {name : Text 2} (serial : UInt32) (theme : Text 4) (hname : name.val.length < 256) :
    Setting.encode ⟨name, serial, .text theme⟩ = [1] ++ List.replicate 1 0 ++ [name.val.length.toUInt8] ++
      List.replicate 1 0 ++ name.val ++ List.replicate (padding name.val.length) 0 ++ littleEndian 4 serial.toNat ++
      littleEndian 4 theme.val.length ++ theme.val ++ List.replicate (padding theme.val.length) 0 := by
  simp only [Setting.encode, SettingValue.encode, SettingValue.type, Text.encode, littleEndian_short hname, List.append_assoc]
  rfl

/-- **The setting of the theme** -/
theorem putText_page {size : Nat} {front : List UInt8} {name : Text 2} {theme : Text 4} {serial : UInt32}
    (hname : name.val.length < 256) (hroom : front.length + (Setting.encode ⟨name, serial, .text theme⟩).length ≤ size) :
    putText serial (page size front, front.length) name.val theme.val =
      some (page size (front ++ Setting.encode ⟨name, serial, .text theme⟩),
        (front ++ Setting.encode ⟨name, serial, .text theme⟩).length) := by
  have hpad (n : Nat) : padded n = n + padding n := (padding_add n).symm
  have htheme : (UInt32.ofNat theme.val.length).toNat = theme.val.length := UInt32.toNat_ofNat_of_lt' theme.property
  simp only [text_encode serial theme hname] at hroom ⊢
  simp only [List.length_append, List.length_replicate, List.length_singleton, littleEndian_length] at hroom
  unfold putText
  simp only [hpad, Option.pure_def, Option.bind_eq_bind]
  rw [@put_at _ _ 0 front _ (Nat.add_zero _).symm (by simp only [List.length_singleton]; omega), Option.bind_some]
  rw [@put_at _ _ 1 _ _ (by simp only [List.length_append, List.length_replicate, List.length_singleton])
    (by simp only [List.length_singleton]; omega), Option.bind_some]
  rw [@put_at _ _ 1 _ _ (by simp only [List.length_append, List.length_replicate, List.length_singleton])
    (by omega), Option.bind_some]
  rw [@densityCard32_at _ _ (padding name.val.length) _ serial
    (by simp only [List.length_append, List.length_replicate, List.length_singleton]; omega) (by omega), Option.bind_some]
  rw [@densityCard32_at _ _ 0 _ (UInt32.ofNat theme.val.length)
    (by simp only [List.length_append, List.length_replicate, List.length_singleton, littleEndian_length]; omega) (by omega),
    Option.bind_some]
  rw [@put_at _ _ 0 _ theme.val
    (by simp only [List.length_append, List.length_replicate, List.length_singleton, littleEndian_length]; omega) (by omega),
    Option.bind_some, htheme]
  simp only [← List.append_assoc, List.replicate_zero, List.append_nil]
  have hzeros := @page_zeros size (padding theme.val.length) (front ++ [1] ++ List.replicate 1 0 ++ [name.val.length.toUInt8] ++
    List.replicate 1 0 ++ name.val ++ List.replicate (padding name.val.length) 0 ++ littleEndian 4 serial.toNat ++
      littleEndian 4 theme.val.length ++ theme.val)
    (by simp only [List.length_append, List.length_replicate, List.length_singleton, littleEndian_length]; omega)
  simp only [hzeros, Option.some.injEq, Prod.mk.injEq, true_and, List.length_append, List.length_replicate,
    List.length_singleton, littleEndian_length]
  omega

/-! ## The settings that toolkits read -/

/-- The number next to a quotient -/
def rounded (a b : Int) : Int := (2 * a + b) / (2 * b)

theorem rounded_near (a : Int) {b : Int} (hb : 0 < b) :
    -b ≤ 2 * (rounded a b * b - a) ∧ 2 * (rounded a b * b - a) ≤ b := by
  unfold rounded
  have hdiv := Int.mul_ediv_add_emod (2 * a + b) (2 * b)
  have hlow := Int.emod_nonneg (2 * a + b) (by omega : 2 * b ≠ 0)
  have hhigh := Int.emod_lt_of_pos (2 * a + b) (by omega : 0 < 2 * b)
  have hmul : 2 * ((2 * a + b) / (2 * b) * b) = 2 * b * ((2 * a + b) / (2 * b)) := by
    rw [Int.mul_comm _ b, ← Int.mul_assoc]
  omega

/-- How many pixels of the screen are one of a window, at 96 dots an inch -/
def windowScale (dpi : Int) : Int := max 1 (rounded dpi 96)

def dpiName : Text 2 := ⟨ascii "Xft/DPI", by simp [ascii]⟩

def scaleName : Text 2 := ⟨ascii "Gdk/WindowScalingFactor", by simp [ascii]⟩

def unscaledName : Text 2 := ⟨ascii "Gdk/UnscaledDPI", by simp [ascii]⟩

/-- Densities are in 1024ths of a dot an inch. -/
def integerSettings (dpi : Int) : List (Text 2 × UInt32) :=
  [(dpiName, UInt32.ofInt (1024 * dpi)), (scaleName, UInt32.ofInt (windowScale dpi)),
    (unscaledName, UInt32.ofInt (rounded (1024 * dpi) (windowScale dpi)))]

/-- The theme for a scheme: dark or light -/
def themeText (scheme : Int) : Text 4 :=
  if scheme = 1 then ⟨ascii "Adwaita-dark", by simp [ascii]⟩ else ⟨ascii "Adwaita", by simp [ascii]⟩

theorem themeText_val (scheme : Int) : (themeText scheme).val = theme scheme := by
  unfold themeText theme
  split <;> rfl

def themeSetting (serial : UInt32) (scheme : Int) : Setting where
  name := ⟨ascii "Net/ThemeName", by simp [ascii]⟩
  serial := serial
  value := .text (themeText scheme)

def settingList (dpi : Int) (serial : UInt32) (scheme : Int) : List Setting :=
  ((integerSettings dpi).map fun e => ⟨e.1, serial, .integer e.2⟩) ++ if scheme ≠ 0 then [themeSetting serial scheme] else []

theorem settingList_length (dpi : Int) (serial : UInt32) (scheme : Int) :
    (settingList dpi serial scheme).length = if scheme ≠ 0 then 4 else 3 := by
  unfold settingList
  split <;> rfl

/-- The settings for a density and a colour scheme -/
def densitySettings (dpi : Int) (serial : UInt32) (scheme : Int) : Settings where
  serial := serial
  list := settingList dpi serial scheme
  fits := by
    rw [settingList_length]
    split <;> omega

theorem densityScale_eq (dpi : Int) : densityScale dpi = windowScale dpi := by
  unfold densityScale windowScale rounded
  split <;> omega

theorem toNat_ofInt {n : Int} (hlow : 0 ≤ n) (hhigh : n < 4294967296) : (UInt32.ofInt n).toNat = n.toNat := by
  unfold UInt32.ofInt
  rw [Int.emod_eq_of_lt hlow (by omega)]
  exact UInt32.toNat_ofNat_of_lt' (by rw [UInt32.size]; omega)

/-- The source adds half of the scale before the division. -/
theorem div_rounded {a b : Int} (ha : 0 ≤ a) (hb : 0 < b) (h : 2 * a + b < 4294967296) :
    UInt32.ofInt (a + b / 2) / UInt32.ofInt b = UInt32.ofInt (rounded a b) := by
  have hhalf : (a + b / 2) / b = rounded a b := by
    unfold rounded
    have hdouble : 2 * ((2 * a + b) / 2) = 2 * a + b ∨ 2 * ((2 * a + b) / 2) + 1 = 2 * a + b := by omega
    have hsum : a + b / 2 = (2 * a + b) / 2 := by omega
    rw [hsum, Int.ediv_ediv_of_nonneg (by decide)]
  have hnonneg : 0 ≤ rounded a b := hhalf ▸ Int.ediv_nonneg (by omega) hb.le
  have hle : rounded a b ≤ a + b / 2 := hhalf ▸ Int.ediv_le_self b (by omega)
  apply UInt32.toNat_inj.1
  rw [UInt32.toNat_div, toNat_ofInt (by omega) (by omega), toNat_ofInt hb.le (by omega), toNat_ofInt hnonneg (by omega),
    ← hhalf]
  have hquotient : (((a + b / 2).toNat / b.toNat : Nat) : Int) = (a + b / 2) / b := by
    rw [Int.natCast_ediv, Int.toNat_of_nonneg (by omega), Int.toNat_of_nonneg hb.le]
  omega

theorem densityIntegers_eq {dpi : Int} (h : 24 ≤ dpi ∧ dpi ≤ 1536) :
    densityIntegers dpi = (integerSettings dpi).map fun e => (e.1.val, e.2) := by
  have hlow : 1 ≤ windowScale dpi := le_max_left _ _
  have hhigh : windowScale dpi ≤ 16 := by
    unfold windowScale rounded
    omega
  have hunscaled : UInt32.ofInt (dpi * 1024 + windowScale dpi / 2) / UInt32.ofInt (windowScale dpi) =
      UInt32.ofInt (rounded (1024 * dpi) (windowScale dpi)) := by
    rw [Int.mul_comm dpi]
    exact div_rounded (by omega) (by omega) (by omega)
  have hdpi : UInt32.ofInt dpi * 1024 = UInt32.ofInt (1024 * dpi) := by
    rw [Int.mul_comm 1024, UInt32.ofInt_mul]
    rfl
  simp only [densityIntegers, integerSettings, densityScale_eq, hunscaled, hdpi, List.map_cons, List.map_nil]
  rfl

/-- What stands in front of the settings -/
theorem settings_encode (dpi : Int) (serial : UInt32) (scheme : Int) :
    (densitySettings dpi serial scheme).encode = List.replicate 4 0 ++ littleEndian 4 serial.toNat ++
      littleEndian 4 (if scheme ≠ 0 then 4 else 3) ++ (settingList dpi serial scheme).flatMap Setting.encode := by
  simp only [Settings.encode, densitySettings, settingList_length, List.append_assoc]
  rfl

theorem integerSettings_short (dpi : Int) : ∀ e ∈ integerSettings dpi, e.1.val.length < 256 := by
  intro e he
  simp only [integerSettings, List.mem_cons, List.not_mem_nil, or_false] at he
  rcases he with rfl | rfl | rfl
  · exact (by decide : 7 < 256)
  · exact (by decide : 23 < 256)
  · exact (by decide : 15 < 256)

theorem integer_length {name : Text 2} (serial value : UInt32) :
    (Setting.encode ⟨name, serial, .integer value⟩).length = 12 + padded name.val.length := by
  have hpad := padding_add name.val.length
  simp only [Setting.encode, SettingValue.encode, Text.encode, List.length_append, List.length_replicate, littleEndian_length,
    List.length_singleton, padded]
  omega

theorem text_length {name : Text 2} (serial : UInt32) (theme : Text 4) :
    (Setting.encode ⟨name, serial, .text theme⟩).length = 12 + padded name.val.length + padded theme.val.length := by
  have hname := padding_add name.val.length
  have htheme := padding_add theme.val.length
  simp only [Setting.encode, SettingValue.encode, Text.encode, List.length_append, List.length_replicate, littleEndian_length,
    List.length_singleton, padded]
  omega

theorem integerSettings_length (dpi : Int) (serial : UInt32) :
    ((integerSettings dpi).flatMap fun e => Setting.encode ⟨e.1, serial, .integer e.2⟩).length = 84 := by
  simp only [integerSettings, List.flatMap_cons, List.flatMap_nil, List.length_append, integer_length, List.length_nil]
  rfl

theorem themeSetting_length (serial : UInt32) (scheme : Int) : (themeSetting serial scheme).encode.length ≤ 40 := by
  unfold themeSetting themeText
  rw [text_length]
  split
  · exact (by decide : 12 + 16 + 12 ≤ 40)
  · exact (by decide : 12 + 16 + 8 ≤ 40)

theorem densitySettings_length (dpi : Int) (serial : UInt32) (scheme : Int) :
    (densitySettings dpi serial scheme).encode.length ≤ 136 := by
  rw [settings_encode, settingList, List.flatMap_append, List.flatMap_map]
  simp only [List.length_append, List.length_replicate, littleEndian_length, integerSettings_length]
  by_cases hzero : scheme = 0
  · simp only [hzero, ne_eq, not_true_eq_false, if_false, List.flatMap_nil, List.length_nil]
    omega
  · have htheme := themeSetting_length serial scheme
    simp only [hzero, ne_eq, not_false_eq_true, if_true, List.flatMap_cons, List.flatMap_nil, List.append_nil]
    omega

/-- **The buffer holds the settings**, and is zero behind them. -/
theorem lorieDensitySettings_eq {bytes : List UInt8} {dpi scheme : Int} {serial : UInt32}
    (hbytes : bytes.length = densitySettingsSize) (h : InRange dpi scheme) :
    lorieDensitySettings bytes dpi serial scheme = some (page densitySettingsSize (densitySettings dpi serial scheme).encode,
      (densitySettings dpi serial scheme).encode.length) := by
  obtain ⟨hdpi, hscheme⟩ := h
  have hguard : ¬(dpi < 24 ∨ dpi > 1536 ∨ scheme < 0 ∨ scheme > 2) := by omega
  have hcount : (if scheme ≠ 0 then (4 : UInt32) else 3).toNat = if scheme ≠ 0 then 4 else 3 := by
    split <;> rfl
  have hmemset : put bytes 0 (List.replicate densitySettingsSize 0) = some (page densitySettingsSize []) := by
    unfold put
    rw [List.length_replicate, if_pos (by omega), List.drop_eq_nil_of_le (by omega)]
    simp [page]
  unfold lorieDensitySettings
  rw [if_neg hguard]
  simp only [Option.pure_def, Option.bind_eq_bind, hmemset, Option.bind_some]
  rw [@densityCard32_at densitySettingsSize 4 4 [] serial rfl (by decide), Option.bind_some]
  rw [@densityCard32_at densitySettingsSize 8 0 _ _ rfl (by decide), Option.bind_some, hcount]
  obtain ⟨front, hfront⟩ : ∃ front, front = List.replicate 4 0 ++ littleEndian 4 serial.toNat ++
      littleEndian 4 (if scheme ≠ 0 then 4 else 3) := ⟨_, rfl⟩
  have hlength : front.length = 12 := by
    rw [hfront]
    simp only [List.length_append, List.length_replicate, littleEndian_length]
  have hloop := @foldlM_putInteger densitySettingsSize serial (integerSettings dpi) front (integerSettings_short dpi)
    (by rw [List.length_append, hlength, integerSettings_length]; decide)
  rw [hlength, ← densityIntegers_eq hdpi] at hloop
  have hnil : [] ++ List.replicate 4 0 ++ littleEndian 4 serial.toNat ++ List.replicate 0 0 ++
      littleEndian 4 (if scheme ≠ 0 then 4 else 3) = front := by
    rw [hfront]
    simp only [List.nil_append, List.replicate_zero, List.append_nil]
  rw [hnil, hloop, Option.bind_some]
  have hencode := settings_encode dpi serial scheme
  rw [← hfront, settingList, List.flatMap_append, List.flatMap_map] at hencode
  by_cases hzero : scheme = 0
  · simp only [hzero, ne_eq, not_true_eq_false, if_false, List.flatMap_nil, List.append_nil] at hencode ⊢
    rw [hencode]
  · simp only [hzero, ne_eq, not_false_eq_true, if_true] at hencode ⊢
    have hroom : (front ++ (integerSettings dpi).flatMap fun e => Setting.encode ⟨e.1, serial, .integer e.2⟩).length +
        (themeSetting serial scheme).encode.length ≤ densitySettingsSize := by
      have htheme := themeSetting_length serial scheme
      rw [List.length_append, hlength, integerSettings_length]
      unfold densitySettingsSize
      omega
    rw [hencode, List.flatMap_cons, List.flatMap_nil, List.append_nil, ← List.append_assoc]
    have htext := putText_page (by decide : themeName.length < 256) hroom
    rw [themeText_val] at htext
    exact htext

/-- **The scales are the nearest ones**: a window pixel has the density of 96 dots an inch as near as whole scales allow, from
half of it on, and its density times the scale is that of the screen up to half of the scale. -/
theorem windowScale_near {dpi : Int} (h : 48 ≤ dpi) :
    (-96 ≤ 2 * (windowScale dpi * 96 - dpi) ∧ 2 * (windowScale dpi * 96 - dpi) ≤ 96) ∧
      -windowScale dpi ≤ 2 * (rounded (1024 * dpi) (windowScale dpi) * windowScale dpi - 1024 * dpi) ∧
      2 * (rounded (1024 * dpi) (windowScale dpi) * windowScale dpi - 1024 * dpi) ≤ windowScale dpi := by
  have hpos : 0 < windowScale dpi := lt_of_lt_of_le (by decide) (le_max_left 1 _)
  have hscale : windowScale dpi = rounded dpi 96 := by
    unfold windowScale rounded
    omega
  refine ⟨?_, rounded_near _ hpos⟩
  rw [hscale]
  exact rounded_near dpi (by decide)

/-- **The settings are well formed, and those that were asked for**: in a buffer of 160 bytes every write is inside, and a
reader of the format gets the density in 1024ths, the nearest whole scale, the density of one window pixel and the theme.
Outside of the range nothing is written. -/
theorem lorieDensitySettings_decode {bytes : List UInt8} {dpi scheme : Int} {serial : UInt32}
    (hbytes : bytes.length = densitySettingsSize) :
    ∃ written length, lorieDensitySettings bytes dpi serial scheme = some (written, length) ∧
      written.length = densitySettingsSize ∧ length ≤ densitySettingsSize ∧
      if InRange dpi scheme then Settings.decode (written.take length) = some (densitySettings dpi serial scheme) ∧
        ∀ b ∈ written.drop length, b = 0
      else written = bytes ∧ length = 0 := by
  by_cases h : InRange dpi scheme
  · have hroom : (densitySettings dpi serial scheme).encode.length ≤ densitySettingsSize :=
      (densitySettings_length dpi serial scheme).trans (by decide)
    refine ⟨_, _, lorieDensitySettings_eq hbytes h, page_length hroom, hroom, ?_⟩
    rw [if_pos h]
    unfold page
    rw [List.take_left, List.drop_left]
    exact ⟨Settings.decode_encode _, fun b hb => List.eq_of_mem_replicate hb⟩
  · refine ⟨bytes, 0, ?_, hbytes, Nat.zero_le _, ?_⟩
    · unfold lorieDensitySettings
      unfold InRange at h
      rw [if_pos (by omega)]
    · rw [if_neg h]
      exact ⟨rfl, rfl⟩

/-- A dark theme at twice the usual density -/
theorem lorieDensitySettings_decode_dark : ∃ written length,
    lorieDensitySettings (List.replicate 160 7) 192 5 1 = some (written, length) ∧
      Settings.decode (written.take length) = some (densitySettings 192 5 1) := by
  have hrange : InRange 192 1 := by decide
  obtain ⟨written, length, hwritten, -, -, h⟩ :=
    @lorieDensitySettings_decode (List.replicate 160 7) 192 1 5 (List.length_replicate)
  rw [if_pos hrange] at h
  exact ⟨written, length, hwritten, h.1⟩

end Lorie.Managers
