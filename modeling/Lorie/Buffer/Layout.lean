import Lorie.Buffer.Storage
import Mathlib.Algebra.Group.Int.Defs

/-!
# The layout of an image, and the buffer that maps it

`lorieBufferLayout` (`buffer_layout.h`) with the widths of its types, and `allocate` (`buffer.c`), through which every
buffer is made that another process sent or a DRI3 client owns. `off_t` has 64 bits; one of 32 bits is a part of it.

- `layout_iff`: the exact condition of a layout, and its bytes; `layout_pixel`: where the pixels are;
- `allocate_fd`: what an accepted file looks like;
- `layout_exact`: both.
-/

namespace Lorie.Buffer.Layout

/-! ## Layouts -/

/-- `INT32_MAX` -/
def int32Max : Int32 := 2147483647

/-- `INT64_MAX` -/
def int64Max : UInt64 := 9223372036854775807

/-- `lorieBufferLayout`: the bytes of an image. A `size_t` is below or at `sizeMax`. -/
def lorieBufferLayout (sizeMax : UInt64) (width stride height : Int32) (offset : UInt64) : Option UInt64 :=
  if width ≤ 0 ∨ height ≤ 0 ∨ stride < width ∨ stride > int32Max / 4 ∨ offset % 4 ≠ 0 then none
  else
    let size := ((height - 1).toInt64.toUInt64 * stride.toInt64.toUInt64 + width.toInt64.toUInt64) * 4
    if size > sizeMax ∨ offset > int64Max ∨ size > int64Max - offset then none else some size

/-- The bytes of an image, in exact integers -/
def imageBytes (width stride height : Int32) : Int := ((height.toInt - 1) * stride.toInt + width.toInt) * 4

/-- An image that can be laid out at an offset -/
def Acceptable (sizeMax : UInt64) (width stride height : Int32) (offset : UInt64) : Prop :=
  0 < width.toInt ∧ 0 < height.toInt ∧ width.toInt ≤ stride.toInt ∧ stride.toInt ≤ (2 ^ 31 - 1) / 4 ∧
    offset.toNat % 4 = 0 ∧ offset.toNat ≤ 2 ^ 63 - 1 ∧
    (offset.toNat : Int) + imageBytes width stride height ≤ 2 ^ 63 - 1 ∧
    imageBytes width stride height ≤ sizeMax.toNat

/-- A number that is not negative keeps its value in `uint64_t`. -/
theorem toNat_toUInt64 {x : Int64} (h : 0 ≤ x.toInt) : (x.toUInt64.toNat : Int) = x.toInt := by
  have hle : (0 : Int64) ≤ x := by
    rw [Int64.le_iff_toInt_le]
    exact h
  rw [Int64.toNat_toUInt64_of_le hle, Int64.toNatClampNeg]
  exact Int.toNat_of_nonneg h

theorem toNat_widen {x : Int32} (h : 0 ≤ x.toInt) : (x.toInt64.toUInt64.toNat : Int) = x.toInt := by
  rw [toNat_toUInt64 (by rwa [Int32.toInt_toInt64]), Int32.toInt_toInt64]

/-- The arithmetic of the size does not wrap. -/
theorem size_exact {width stride height : Int32} (hw : 0 < width.toInt) (hh : 0 < height.toInt)
    (hws : width.toInt ≤ stride.toInt) (hs : stride.toInt ≤ (2 ^ 31 - 1) / 4) :
    ((((height - 1).toInt64.toUInt64 * stride.toInt64.toUInt64 + width.toInt64.toUInt64) * 4 : UInt64).toNat : Int) =
      imageBytes width stride height := by
  have hh' := height.toInt_lt
  have hpred : (height - 1).toInt = height.toInt - 1 := by
    rw [Int32.toInt_sub]
    exact Int.bmod_eq_of_le (by simp; omega) (by simp; omega)
  have hrow : ((height - 1).toInt64.toUInt64.toNat : Int) = height.toInt - 1 := by
    rw [toNat_widen (by omega), hpred]
  have hstride : (stride.toInt64.toUInt64.toNat : Int) = stride.toInt := toNat_widen (by omega)
  have hwidth : (width.toInt64.toUInt64.toNat : Int) = width.toInt := toNat_widen (by omega)
  -- the product of two numbers below `2 ^ 31` and `2 ^ 29`
  have hprod : (height.toInt - 1) * stride.toInt ≤ 2147483646 * 536870911 :=
    Int.mul_le_mul (by omega) (by omega) (by omega) (by omega)
  have hnonneg : 0 ≤ (height.toInt - 1) * stride.toInt := Int.mul_nonneg (by omega) (by omega)
  have hmul : (((height - 1).toInt64.toUInt64.toNat * stride.toInt64.toUInt64.toNat : Nat) : Int) =
      (height.toInt - 1) * stride.toInt := by
    rw [Int.natCast_mul, hrow, hstride]
  unfold imageBytes
  generalize (height.toInt - 1) * stride.toInt = rows at *
  simp only [UInt64.toNat_mul, UInt64.toNat_add, UInt64.reduceToNat]
  omega

/-- **When there is a layout, and its bytes.** -/
theorem layout_iff (sizeMax : UInt64) (width stride height : Int32) (offset bytes : UInt64) :
    lorieBufferLayout sizeMax width stride height offset = some bytes ↔
      Acceptable sizeMax width stride height offset ∧ (bytes.toNat : Int) = imageBytes width stride height := by
  have hmax : (int32Max / 4).toInt = 536870911 := by decide
  have h64 : int64Max.toNat = 9223372036854775807 := rfl
  unfold lorieBufferLayout
  by_cases hbad : width ≤ 0 ∨ height ≤ 0 ∨ stride < width ∨ stride > int32Max / 4 ∨ offset % 4 ≠ 0
  · rw [if_pos hbad]
    simp only [Int32.le_iff_toInt_le, Int32.lt_iff_toInt_lt, gt_iff_lt, hmax, ne_eq, ← UInt64.toNat_inj,
      UInt64.toNat_mod, UInt64.reduceToNat, Int32.toInt_zero] at hbad
    constructor
    · intro h
      cases h
    · rintro ⟨⟨hw, hh, hws, hs, ho, -⟩, -⟩
      omega
  · rw [if_neg hbad]
    simp only [Int32.le_iff_toInt_le, Int32.lt_iff_toInt_lt, gt_iff_lt, hmax, ne_eq, ← UInt64.toNat_inj,
      UInt64.toNat_mod, UInt64.reduceToNat, Int32.toInt_zero] at hbad
    have hexact := @size_exact width stride height (by omega) (by omega) (by omega)
      (by omega)
    dsimp only
    generalize ((height - 1).toInt64.toUInt64 * stride.toInt64.toUInt64 + width.toInt64.toUInt64) * 4 = size at *
    unfold Acceptable
    split
    · rename_i hlarge
      simp only [gt_iff_lt, UInt64.lt_iff_toNat_lt] at hlarge
      constructor
      · intro h
        cases h
      · rintro ⟨⟨-, -, -, -, -, ho, hend, hfits⟩, -⟩
        rw [UInt64.toNat_sub_of_le _ _ (by rw [UInt64.le_iff_toNat_le]; omega)] at hlarge
        omega
    · rename_i hlarge
      simp only [gt_iff_lt, UInt64.lt_iff_toNat_lt, not_or, Nat.not_lt] at hlarge
      rw [UInt64.toNat_sub_of_le _ _ (by rw [UInt64.le_iff_toNat_le]; omega)] at hlarge
      rw [Option.some_inj, ← UInt64.toNat_inj]
      omega

/-- The byte at which a pixel starts, in the file -/
def pixelAt (stride : Int32) (offset : UInt64) (x y : Int) : Int := offset.toNat + (y * stride.toInt + x) * 4

/-- Every pixel is in the bytes of the image. -/
theorem layout_pixel {sizeMax : UInt64} {width stride height : Int32} {offset : UInt64}
    (h : Acceptable sizeMax width stride height offset) {x y : Int} (hx : 0 ≤ x) (hxw : x < width.toInt) (hy : 0 ≤ y)
    (hyh : y < height.toInt) :
    offset.toNat ≤ pixelAt stride offset x y ∧
      pixelAt stride offset x y + 4 ≤ offset.toNat + imageBytes width stride height := by
  obtain ⟨hw, hh, hws, -⟩ := h
  have hfirst : 0 ≤ y * stride.toInt := Int.mul_nonneg hy (by omega)
  have hlast : y * stride.toInt ≤ (height.toInt - 1) * stride.toInt :=
    Int.mul_le_mul_of_nonneg_right (by omega) (by omega)
  unfold pixelAt imageBytes
  omega

/-- The layout with natural numbers is the one with the widths of the types. -/
theorem lorieBufferLayout_eq {sizeMax : UInt64} {width stride height : Int32} (hw : 0 ≤ width.toInt)
    (hs : 0 ≤ stride.toInt) (hh : 0 ≤ height.toInt) (offset : UInt64) :
    Buffer.lorieBufferLayout sizeMax.toNat width.toInt.toNat stride.toInt.toNat height.toInt.toNat offset.toNat =
      (lorieBufferLayout sizeMax width stride height offset).map UInt64.toNat := by
  have hcast : (((height.toInt.toNat - 1) * stride.toInt.toNat + width.toInt.toNat) * 4 : Nat) =
      ((height.toInt.toNat - 1 : Nat) * stride.toInt + width.toInt) * 4 := by
    rw [Int.natCast_mul, Int.natCast_add, Int.natCast_mul, Int.toNat_of_nonneg hs, Int.toNat_of_nonneg hw]
    rfl
  have hmax : Buffer.int32Max / 4 = 536870911 := rfl
  have h64 : Buffer.int64Max = 9223372036854775807 := rfl
  cases hl : lorieBufferLayout sizeMax width stride height offset with
  | some bytes =>
    obtain ⟨⟨hw', hh', hws, hs', ho, hmax', hend, hfits⟩, hbytes⟩ := (layout_iff _ _ _ _ _ _).1 hl
    unfold Buffer.lorieBufferLayout
    rw [if_neg (by omega), Option.map_some]
    have hpred : ((height.toInt.toNat - 1 : Nat) : Int) = height.toInt - 1 := by omega
    rw [hpred] at hcast
    unfold imageBytes at hbytes hend hfits
    generalize (height.toInt - 1) * stride.toInt = rows at *
    dsimp only
    rw [if_neg (by omega), Option.some_inj]
    omega
  | none =>
    unfold Buffer.lorieBufferLayout
    rw [Option.map_none]
    by_cases hbad : width.toInt.toNat = 0 ∨ height.toInt.toNat = 0 ∨ stride.toInt.toNat < width.toInt.toNat ∨
        stride.toInt.toNat > Buffer.int32Max / 4 ∨ offset.toNat % 4 ≠ 0
    · rw [if_pos hbad]
    · rw [if_neg hbad]
      have hpred : ((height.toInt.toNat - 1 : Nat) : Int) = height.toInt - 1 := by omega
      have hnot : ¬ Acceptable sizeMax width stride height offset := by
        intro hacc
        have hbytes : 0 ≤ imageBytes width stride height := by
          have hrows : 0 ≤ (height.toInt - 1) * stride.toInt := Int.mul_nonneg (by omega) hs
          unfold imageBytes
          omega
        have hlt : imageBytes width stride height < 2 ^ 64 := by
          have := sizeMax.toNat_lt
          have := hacc.2.2.2.2.2.2.2
          omega
        have hsome := (layout_iff sizeMax width stride height offset
          (UInt64.ofNat (imageBytes width stride height).toNat)).2 ⟨hacc, by
            rw [UInt64.toNat_ofNat_of_lt' (by simp only [UInt64.size]; omega)]
            exact Int.toNat_of_nonneg hbytes⟩
        rw [hl] at hsome
        cases hsome
      rw [hpred] at hcast
      unfold Acceptable imageBytes at hnot
      generalize (height.toInt - 1) * stride.toInt = rows at *
      dsimp only
      rw [if_pos (by omega)]

/-! ## Buffers -/

/-- `LORIEBUFFER_*` as a byte -/
def typeRegular : UInt8 := 1
def typeFd : UInt8 := 2
def typeAHardwareBuffer : UInt8 := 3

/-- `AHARDWAREBUFFER_FORMAT_*` as a byte: the formats of 32 bits -/
def acceptedFormats : List UInt8 := [5, 1, 2]

/-- `AHardwareBuffer_Desc` -/
structure HardwareDesc where
  width : UInt32
  height : UInt32
  layers : UInt32
  format : UInt32
  stride : UInt32
  deriving DecidableEq, Repr

/-- What `mmap` mapped. -/
structure Mapping where
  base : Nat
  /-- Where it starts in the file -/
  start : Int64
  size : UInt64
  deriving DecidableEq, Repr

/-- `LorieBuffer` with its `LorieBuffer_Desc`; no descriptor and no pointer is `none`. -/
structure SharedBuffer where
  refcount : Int
  width : Int32
  height : Int32
  stride : Int32
  format : UInt8
  type : UInt8
  id : UInt64
  buffer : Option Nat
  data : Option Nat
  locked : Bool
  lockedData : Option Nat
  fd : Option Nat
  size : UInt64
  offset : Int64
  mapping : Option Mapping
  dmaBuf : Bool
  graphicsImage : Option Nat
  deriving DecidableEq, Repr

/-- What a failed call gives back. -/
inductive Release where
  | munmap (base : Nat) (size : UInt64)
  | close (fd : Nat)
  | free (data : Nat)
  | hardware (buffer : Nat)
  deriving DecidableEq, Repr

/-- The answers to the calls of `allocate`; `none` is a failure. -/
structure Answers where
  /-- `SIZE_MAX` -/
  sizeMax : UInt64
  /-- `fcntl(F_DUPFD_CLOEXEC)` -/
  dup : Option Nat
  /-- `st_size` of `fstat` -/
  fstat : Option Int64
  /-- `ioctl(ASHMEM_GET_SIZE)` -/
  ashmemSize : Int32
  /-- `sysconf(_SC_PAGE_SIZE)` -/
  page : Int64
  /-- A `long` is no wider than a `size_t`. -/
  page_le : page.toInt ≤ sizeMax.toNat
  mmap : Option Nat
  syncStart : Bool
  syncEnd : Bool
  /-- `calloc` of the pixels -/
  pixels : Option Nat
  /-- `calloc` of the structure -/
  buffer : Bool
  /-- `AHardwareBuffer_describe` -/
  describe : HardwareDesc

namespace Answers

variable (a : Answers)

/-- The size of the file, or of the ashmem region behind it -/
def extent : UInt64 :=
  match a.fstat with
  | some st_size =>
    if st_size > 0 then st_size.toUInt64 else if a.ashmemSize > 0 then a.ashmemSize.toInt64.toUInt64 else 0
  | none => 0

/-- What `allocate` gives back when it fails. -/
def failed (type : UInt8) (buf : Option Nat) (b : SharedBuffer) : List Release :=
  (b.mapping.map fun m => Release.munmap m.base b.size).toList ++ (b.fd.map Release.close).toList ++
    (if type = typeRegular then (b.data.map Release.free).toList else []) ++ (buf.map Release.hardware).toList

/-- The shape of a hardware buffer -/
def describeHardware (buf : Option Nat) (b : SharedBuffer) : Option SharedBuffer :=
  match buf with
  | none => none
  | some _ =>
    let desc := a.describe
    if desc.layers ≠ 1 ∨ desc.width > 2147483647 ∨ desc.height > 2147483647 ∨ desc.stride > 2147483647 ∨
        desc.format > 255 then none
    else some { b with
      width := desc.width.toInt32
      height := desc.height.toInt32
      stride := desc.stride.toInt32
      format := desc.format.toUInt8 }

/-- The file of a buffer is mapped; an error carries what has to be given back. -/
def mapFile (bytes : UInt64) (takeFd : Bool) (b : SharedBuffer) : Except SharedBuffer SharedBuffer :=
  let b := if takeFd then b else { b with fd := a.dup }
  if b.fd.isNone ∨ a.fstat.isNone then .error b
  else if b.offset.toUInt64 + bytes > a.extent then .error b
  else if a.page ≤ 0 then .error b
  else
    let delta := (b.offset % a.page).toUInt64
    if bytes > a.sizeMax - delta then .error b
    else
      let b := { b with size := bytes + delta }
      match a.mmap with
      | none => .error b
      | some base =>
        let b := { b with
          mapping := some ⟨base, b.offset - delta.toInt64, b.size⟩
          data := some (base + delta.toNat) }
        if !a.syncStart then .ok b
        else if !a.syncEnd then .error { b with dmaBuf := true }
        else .ok { b with dmaBuf := true }

/-- The storage of a buffer of each type -/
def attach (type : UInt8) (bytes : UInt64) (takeFd : Bool) (b : SharedBuffer) : Except SharedBuffer SharedBuffer :=
  if type = typeRegular then
    match a.pixels with
    | none => .error b
    | some data => .ok { b with data := some data }
  else if type = typeFd then a.mapFile bytes takeFd b
  else if type = typeAHardwareBuffer then .ok b
  else .error b

/-- `allocate`: the buffer, and what was given back when there is none -/
def allocate (id : UInt64) (width stride height : Int32) (format type : UInt8) (buf fd : Option Nat) (offset : Int64)
    (takeFd : Bool) : Option SharedBuffer × List Release :=
  let b : SharedBuffer :=
    { refcount := 1
      width := width
      height := height
      stride := stride
      format := format
      type := type
      id := id
      buffer := buf
      data := none
      locked := false
      lockedData := none
      fd := if takeFd then fd else none
      size := 0
      offset := offset
      mapping := none
      dmaBuf := false
      graphicsImage := none }
  match if type = typeAHardwareBuffer then a.describeHardware buf b else some b with
  | none => (none, failed type buf b)
  | some b =>
    if b.format ∉ acceptedFormats then (none, failed type buf b)
    else
      match lorieBufferLayout a.sizeMax b.width b.stride b.height offset.toUInt64 with
      | none => (none, failed type buf b)
      | some bytes =>
        match a.attach type bytes takeFd b with
        | .error b => (none, failed type buf b)
        | .ok b => if a.buffer then (some b, []) else (none, failed type buf b)

/-- `LorieBuffer_wrapFileDescriptor` -/
def wrapFileDescriptor (id : UInt64) (width stride height : Int32) (format : UInt8) (fd : Option Nat) (offset : Int64) :
    Option SharedBuffer × List Release :=
  a.allocate id width stride height format typeFd none fd offset false

/-- `LorieBuffer_wrapAHardwareBuffer` -/
def wrapAHardwareBuffer (id : UInt64) (buffer : Option Nat) : Option SharedBuffer × List Release :=
  a.allocate id 0 0 0 0 typeAHardwareBuffer buffer none 0 false

/-- `loriePixmapFromFds` for a buffer that is a file -/
def pixmapFromFd (id : UInt64) (width height : UInt16) (stride offset : UInt32) (fd : Option Nat) : Option SharedBuffer :=
  if stride % 4 ≠ 0 ∨ stride > 2147483647 then none
  else
    (a.wrapFileDescriptor id width.toUInt32.toInt32 (stride / 4).toInt32 height.toUInt32.toInt32 5 fd
      offset.toUInt64.toInt64).1

end Answers

/-! ## Mapped files -/

/-- The mapping holds the bytes of an image at an offset, and no more of the file than it has. -/
structure Mapping.Covers (m : Mapping) (page : Int64) (extent offset bytes : UInt64) (data : Nat) : Prop where
  aligned : m.start.toInt % page.toInt = 0
  start_nonneg : 0 ≤ m.start.toInt
  start_le : m.start.toInt ≤ offset.toNat
  delta_lt : offset.toNat - m.start.toInt < page.toInt
  size : (m.size.toNat : Int) = bytes.toNat + (offset.toNat - m.start.toInt)
  within : m.start.toInt + m.size.toNat ≤ extent.toNat
  data : (data : Int) = m.base + (offset.toNat - m.start.toInt)

/-- An offset that has a layout is not negative. -/
theorem offset_nonneg {offset : Int64} (h : offset.toUInt64.toNat ≤ 2 ^ 63 - 1) : 0 ≤ offset.toInt := by
  have hcond : offset.toInt = if 2 * offset.toUInt64.toNat < 2 ^ 64 then (offset.toUInt64.toNat : Int)
      else offset.toUInt64.toNat - (2 ^ 64 : Nat) := BitVec.toInt_eq_toNat_cond offset.toBitVec
  rw [if_pos (by omega)] at hcond
  omega

/-- What a file that was accepted looks like. -/
theorem mapFile_covers {a : Answers} {bytes : UInt64} {takeFd : Bool} {b b' : SharedBuffer} {sizeMax : UInt64}
    {width stride height : Int32} (hl : lorieBufferLayout sizeMax width stride height b.offset.toUInt64 = some bytes)
    (h : a.mapFile bytes takeFd b = .ok b') :
    ∃ m data, b'.mapping = some m ∧ b'.data = some data ∧
      m.Covers a.page a.extent b.offset.toUInt64 bytes data := by
  obtain ⟨⟨-, -, -, -, -, hmax, hend, -⟩, hbytes⟩ := (layout_iff _ _ _ _ _ _).1 hl
  have hoffset := offset_nonneg hmax
  have hcast := toNat_toUInt64 hoffset
  unfold Answers.mapFile at h
  have hkeep : (if takeFd then b else { b with fd := a.dup }).offset = b.offset := by split <;> rfl
  generalize (if takeFd then b else { b with fd := a.dup }) = b₀ at h hkeep
  dsimp only at h
  rw [hkeep] at h
  by_cases hfile : b₀.fd.isNone ∨ a.fstat.isNone
  · rw [if_pos hfile] at h
    cases h
  rw [if_neg hfile] at h
  by_cases hextent : b.offset.toUInt64 + bytes > a.extent
  · rw [if_pos hextent] at h
    cases h
  rw [if_neg hextent] at h
  by_cases hpage : a.page ≤ 0
  · rw [if_pos hpage] at h
    cases h
  rw [if_neg hpage] at h
  by_cases hroom : bytes > a.sizeMax - (b.offset % a.page).toUInt64
  · rw [if_pos hroom] at h
    cases h
  rw [if_neg hroom] at h
  -- the remainder of the offset, and what is left of it
  have hpos : 0 < a.page.toInt := by
    rw [Int64.le_iff_toInt_le] at hpage
    simpa using hpage
  have hmod : (b.offset % a.page).toInt = b.offset.toInt % a.page.toInt := by
    rw [Int64.toInt_mod, Int.tmod_eq_emod_of_nonneg hoffset]
  have hnonneg := Int.emod_nonneg b.offset.toInt (Int.ne_of_gt hpos)
  have hlt := Int.emod_lt_of_pos b.offset.toInt hpos
  have hle : b.offset.toInt % a.page.toInt ≤ b.offset.toInt := by
    have hdiv := Int.mul_nonneg (Int.le_of_lt hpos) (Int.ediv_nonneg hoffset (Int.le_of_lt hpos))
    have hsplit := Int.mul_ediv_add_emod b.offset.toInt a.page.toInt
    omega
  have hdelta : ((b.offset % a.page).toUInt64.toNat : Int) = b.offset.toInt % a.page.toInt := by
    rw [toNat_toUInt64 (by rw [hmod]; exact hnonneg), hmod]
  have hback : (b.offset % a.page).toUInt64.toInt64 = b.offset % a.page := rfl
  have hbound := b.offset.toInt_lt
  have hstart : (b.offset - (b.offset % a.page).toUInt64.toInt64).toInt = b.offset.toInt - b.offset.toInt % a.page.toInt := by
    rw [hback, Int64.toInt_sub, hmod]
    exact Int.bmod_eq_of_le (by simp; omega) (by simp; omega)
  have halign : (b.offset.toInt - b.offset.toInt % a.page.toInt) % a.page.toInt = 0 :=
    Int.emod_eq_zero_of_dvd (Int.dvd_self_sub_emod)
  have hfits := a.page_le
  have hsizeMax := a.sizeMax.toNat_lt
  simp only [gt_iff_lt, UInt64.lt_iff_toNat_lt, Nat.not_lt] at hroom hextent
  rw [UInt64.toNat_sub_of_le _ _ (by rw [UInt64.le_iff_toNat_le]; omega)] at hroom
  have hsize : ((bytes + (b.offset % a.page).toUInt64).toNat : Int) = bytes.toNat + b.offset.toInt % a.page.toInt := by
    rw [UInt64.toNat_add, Nat.mod_eq_of_lt (by omega)]
    omega
  have hsum : (b.offset.toUInt64 + bytes).toNat = b.offset.toUInt64.toNat + bytes.toNat := by
    rw [UInt64.toNat_add, Nat.mod_eq_of_lt (by omega)]
  rw [hsum] at hextent
  cases hm : a.mmap with
  | none =>
    rw [hm] at h
    cases h
  | some base =>
    rw [hm] at h
    dsimp only at h
    have hmapped : ∃ m data, b'.mapping = some m ∧ b'.data = some data ∧
        m = ⟨base, b.offset - (b.offset % a.page).toUInt64.toInt64, bytes + (b.offset % a.page).toUInt64⟩ ∧
        data = base + (b.offset % a.page).toUInt64.toNat := by
      split at h
      · cases h
        exact ⟨_, _, rfl, rfl, rfl, rfl⟩
      · split at h
        · cases h
        · cases h
          exact ⟨_, _, rfl, rfl, rfl, rfl⟩
    obtain ⟨m, data, hmapping, hdata, rfl, rfl⟩ := hmapped
    refine ⟨_, _, hmapping, hdata, ⟨?_, ?_, ?_, ?_, ?_, ?_, ?_⟩⟩ <;> dsimp only <;> simp only [hstart, hsize]
    · exact halign
    all_goals omega

/-- A file that `allocate` accepts has a layout, and its mapping covers it. -/
theorem allocate_fd {a : Answers} {id : UInt64} {width stride height : Int32} {format : UInt8} {buf fd : Option Nat}
    {offset : Int64} {takeFd : Bool} {b : SharedBuffer}
    (h : (a.allocate id width stride height format typeFd buf fd offset takeFd).1 = some b) :
    ∃ bytes m data, lorieBufferLayout a.sizeMax width stride height offset.toUInt64 = some bytes ∧
      b.mapping = some m ∧ b.data = some data ∧ m.Covers a.page a.extent offset.toUInt64 bytes data := by
  have hfd : typeFd ≠ typeAHardwareBuffer ∧ typeFd ≠ typeRegular := by decide
  unfold Answers.allocate at h
  dsimp only at h
  rw [if_neg hfd.1] at h
  dsimp only at h
  by_cases hformat : format ∉ acceptedFormats
  · rw [if_pos hformat] at h
    cases h
  rw [if_neg hformat] at h
  cases hl : lorieBufferLayout a.sizeMax width stride height offset.toUInt64 with
  | none =>
    rw [hl] at h
    cases h
  | some bytes =>
    rw [hl] at h
    dsimp only at h
    unfold Answers.attach at h
    rw [if_neg hfd.2, if_pos rfl] at h
    split at h
    · cases h
    · rename_i b' hmap
      split at h
      · cases h
        obtain ⟨m, data, hm, hdata, hcovers⟩ := mapFile_covers hl hmap
        exact ⟨bytes, m, data, rfl, hm, hdata, hcovers⟩
      · cases h

/-- **Layout arithmetic is exact and safe**: `lorieBufferLayout` accepts exactly what can be laid out, the bytes are
those of the image, and every pixel is in them; a file that `allocate` accepts is mapped from the start of a page to the
last byte of the image, inside the file, with the data at the offset. -/
theorem layout_exact (a : Answers) (width stride height : Int32) :
    (∀ offset bytes, lorieBufferLayout a.sizeMax width stride height offset = some bytes ↔
      Acceptable a.sizeMax width stride height offset ∧ (bytes.toNat : Int) = imageBytes width stride height) ∧
    (∀ offset bytes, lorieBufferLayout a.sizeMax width stride height offset = some bytes →
      ∀ x y, 0 ≤ x → x < width.toInt → 0 ≤ y → y < height.toInt →
        offset.toNat ≤ pixelAt stride offset x y ∧ pixelAt stride offset x y + 4 ≤ offset.toNat + bytes.toNat) ∧
    ∀ id format buf fd (offset : Int64) takeFd b,
      (a.allocate id width stride height format typeFd buf fd offset takeFd).1 = some b →
        ∃ bytes m data, lorieBufferLayout a.sizeMax width stride height offset.toUInt64 = some bytes ∧
          b.mapping = some m ∧ b.data = some data ∧ m.Covers a.page a.extent offset.toUInt64 bytes data := by
  refine ⟨fun offset bytes => layout_iff _ _ _ _ _ _, ?_, fun _ _ _ _ _ _ _ => allocate_fd⟩
  intro offset bytes hl x y hx hxw hy hyh
  obtain ⟨hacc, hbytes⟩ := (layout_iff _ _ _ _ _ _).1 hl
  rw [hbytes]
  exact layout_pixel hacc hx hxw hy hyh

/-- A file of 8192 bytes, with pages of 4096 -/
def twoPages : Answers where
  sizeMax := 18446744073709551615
  dup := some 9
  fstat := some 8192
  ashmemSize := 0
  page := 4096
  page_le := by decide
  mmap := some 65536
  syncStart := false
  syncEnd := false
  pixels := none
  buffer := true
  describe := ⟨0, 0, 0, 0, 0⟩

/-- Two rows of three pixels that start behind the first page -/
theorem layout_exact_two_pages :
    lorieBufferLayout twoPages.sizeMax 3 8 2 4104 = some 44 ∧
      ∃ b, (twoPages.allocate 7 3 8 2 5 typeFd none (some 9) 4104 true).1 = some b ∧
        ∃ bytes m data, lorieBufferLayout twoPages.sizeMax 3 8 2 (4104 : Int64).toUInt64 = some bytes ∧
          b.mapping = some m ∧ b.data = some data ∧
          m.Covers twoPages.page twoPages.extent (4104 : Int64).toUInt64 bytes data :=
  ⟨by decide, _, rfl, (layout_exact twoPages 3 8 2).2.2 7 5 none (some 9) 4104 true _ rfl⟩

/-- What a DRI3 client sends is mapped with the rows that the header of the pixmap has. -/
theorem pixmapFromFd_stride {a : Answers} {id : UInt64} {width height : UInt16} {stride offset : UInt32}
    {fd : Option Nat} {b : SharedBuffer} (h : a.pixmapFromFd id width height stride offset fd = some b) :
    (stride / 4).toInt32.toInt * 4 = stride.toNat ∧ ∃ bytes m data,
      lorieBufferLayout a.sizeMax width.toUInt32.toInt32 (stride / 4).toInt32 height.toUInt32.toInt32
        offset.toUInt64.toInt64.toUInt64 = some bytes ∧
      b.mapping = some m ∧ b.data = some data ∧
      m.Covers a.page a.extent offset.toUInt64.toInt64.toUInt64 bytes data := by
  unfold Answers.pixmapFromFd at h
  by_cases hbad : stride % 4 ≠ 0 ∨ stride > 2147483647
  · rw [if_pos hbad] at h
    cases h
  · rw [if_neg hbad] at h
    refine ⟨?_, allocate_fd h⟩
    simp only [gt_iff_lt, ne_eq, not_or, not_not, ← UInt32.toNat_inj, UInt32.lt_iff_toNat_lt, UInt32.toNat_mod,
      UInt32.reduceToNat] at hbad
    have hquot : (stride / 4).toNat = stride.toNat / 4 := UInt32.toNat_div stride 4
    have hcond : (stride / 4).toInt32.toInt = if 2 * (stride / 4).toNat < 2 ^ 32 then ((stride / 4).toNat : Int)
        else (stride / 4).toNat - (2 ^ 32 : Nat) := BitVec.toInt_eq_toNat_cond _
    rw [if_pos (by omega)] at hcond
    omega

end Lorie.Buffer.Layout
