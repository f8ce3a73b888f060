import Lorie.Buffer.Receive

/-!
# Shared buffers survive the wire

The buffers that a process can send are made by `LorieBuffer_allocate`, around a descriptor or a hardware buffer of somebody
else, or from a buffer in the heap by `LorieBuffer_makeDmaBuf` and `LorieBuffer_convert` (`buffer.c`). The first ones went
through `allocate`; the last function checks nothing of what it made.

- `Object`: what a descriptor or a hardware buffer stands for in every process;
- `Made`: a buffer with its object, and where it comes from;
- `made_fits`: when the record of the buffer describes its object;
- `buffers_cross`: what is sent is received as it was sent, and nothing else is.
-/

namespace Lorie.Buffer.Wire

open Layout
open Resources.Ancillary (ancilRecvFd)

/-! ## What is shared -/

/-- What is the same in every process: the file behind a descriptor, as `fstat` and `ASHMEM_GET_SIZE` answer, and the
description of a hardware buffer. -/
inductive Object where
  | file (size : Int64) (ashmemSize : Int32)
  | hardware (d : HardwareDesc)
  deriving DecidableEq, Repr

/-- A process has the object before it. -/
def Sees (r : Layout.Answers) : Object → Prop
  | .file size ashmemSize => r.fstat = some size ∧ r.ashmemSize = ashmemSize
  | .hardware d => r.describe = d

/-- What `allocate` has before it -/
def seen (a : Layout.Answers) (type : UInt8) : Object :=
  if type = typeFd then .file (a.fstat.getD 0) a.ashmemSize else .hardware a.describe

/-- A region of so many bytes: `fstat` tells the size of a memfd. Of ashmem only the `ioctl` tells it, as an `int`. -/
def regionObject (ashmem : Bool) (bytes : Nat) : Object :=
  if ashmem then .file 0 (.ofNat bytes) else .file (.ofNat bytes) (-1)

/-- `LorieBuffer_createRegion` gives ashmem; `platform`: `ASharedMemory_create` does. -/
def regionIsAshmem (env : Env) (platform : Bool) : Bool :=
  if env.sharedMemory then platform else !(env.memfd && env.truncate)

/-- `LorieBuffer_allocate` of a buffer that can be shared, with what `LorieBuffer_createRegion` and
`AHardwareBuffer_allocate` return -/
def allocateShared (a : Layout.Answers) (id : UInt64) (width height : Int32) (format type : UInt8)
    (region hardware : Option Nat) : Option SharedBuffer :=
  match Layout.lorieBufferLayout a.sizeMax width width height 0 with
  | none => none
  | some size =>
    if size > a.sizeMax - a.page.toUInt64 then none
    else if type = typeFd ∧ region.isNone then none
    else
      (a.allocate id width width height format type (if type = typeAHardwareBuffer then hardware else none)
        (if type = typeFd then region else none) 0 true).1

/-! ## Buffers from the heap -/

/-- `LORIEBUFFER_*` as a byte -/
def typeByte : BufferType → UInt8
  | .unknown => 0
  | .regular => typeRegular
  | .fd => typeFd
  | .ahardwarebuffer => typeAHardwareBuffer

/-- A buffer of `Storage`, with the widths of its fields -/
def shared (b : LorieBuffer) : SharedBuffer :=
  { refcount := b.refcount
    width := .ofNat b.width
    height := .ofNat b.height
    stride := .ofNat b.stride
    format := .ofNat b.format
    type := typeByte b.type
    id := .ofNat b.id
    buffer := b.buffer
    data := b.data
    locked := b.locked
    lockedData := b.lockedData
    fd := b.fd
    size := .ofNat b.size
    offset := .ofNat b.offset
    mapping := b.mapping.map fun base => ⟨base, 0, .ofNat b.size⟩
    dmaBuf := b.dmaBuf
    graphicsImage := b.graphicsImage }

/-- The locks, references, images and copies of a buffer -/
structure Use where
  refcount : Int
  locked : Bool
  lockedData : Option Nat
  graphicsImage : Option Nat
  gpuCopyPending : Int

def Use.of (u : Use) (b : LorieBuffer) : LorieBuffer :=
  { b with
    refcount := u.refcount
    locked := u.locked
    lockedData := u.lockedData
    graphicsImage := u.graphicsImage
    gpuCopyPending := u.gpuCopyPending }

/-- `LorieBuffer_allocate` of a buffer in the heap, that was used since -/
def Heap (sizeMax : UInt64) (b : LorieBuffer) : Prop :=
  ∃ (page : Nat) (pixels buffer : Bool) (width height : Int32) (format : Nat) (id : UInt64) (w : World) (b₀ : LorieBuffer)
    (u : Use), (LorieBuffer.allocate sizeMax.toNat page pixels buffer width.toInt.toNat height.toInt.toNat format id.toNat w).1 =
      some b₀ ∧ b = u.of b₀

/-! ## Where a buffer comes from -/

inductive Origin where
  /-- `allocate` looked at it, or `makeDmaBuf` asked for all of it. -/
  | checked
  /-- `convert`, to a region of so many bytes -/
  | region (ashmem : Bool) (bytes : Nat)
  /-- `convert`, to a hardware buffer with rows of such a stride -/
  | hardware (width stride height : Int32)

/-- A region in ashmem is below 2 GiB, and a hardware buffer has a layout. -/
def Origin.Survives (sizeMax : UInt64) : Origin → Prop
  | .checked => True
  | .region ashmem bytes => ashmem = true → bytes < 2 ^ 31
  | .hardware width stride height => Acceptable sizeMax width stride height 0

/-- A buffer that can be sent, the object that is sent with it, and where it comes from -/
inductive Made (sizeMax : UInt64) (page : Int64) : SharedBuffer → Object → Origin → Prop
  | allocated {a : Layout.Answers} {id : UInt64} {width height : Int32} {format type : UInt8} {region hardware : Option Nat}
      {b : SharedBuffer} : a.sizeMax = sizeMax → a.page = page → type = typeFd ∨ type = typeAHardwareBuffer →
      allocateShared a id width height format type region hardware = some b → Made sizeMax page b (seen a type) .checked
  | wrappedFile {a : Layout.Answers} {id : UInt64} {width stride height : Int32} {format : UInt8} {fd : Option Nat}
      {offset : Int64} {b : SharedBuffer} : a.sizeMax = sizeMax → a.page = page →
      (a.wrapFileDescriptor id width stride height format fd offset).1 = some b → Made sizeMax page b (seen a typeFd) .checked
  | wrappedHardware {a : Layout.Answers} {id : UInt64} {buffer : Option Nat} {b : SharedBuffer} :
      a.sizeMax = sizeMax → a.page = page → (a.wrapAHardwareBuffer id buffer).1 = some b →
      Made sizeMax page b (seen a typeAHardwareBuffer) .checked
  /-- A DMA buffer has at least the bytes that `lorieDmaAllocate` asked for. -/
  | promoted {env : Env} {b c : LorieBuffer} {w v : World} {size : Int64} {ashmemSize : Int32} : env.sizeMax = sizeMax.toNat →
      Heap sizeMax b → b.makeDmaBuf env w = some (true, c, v) → (c.size : Int) ≤ size.toInt →
      Made sizeMax page (shared c) (.file size ashmemSize) .checked
  | convertedFile {env : Env} {b c : LorieBuffer} {w v : World} {format : Nat} (platform : Bool) : env.sizeMax = sizeMax.toNat →
      Heap sizeMax b → b.convert env .fd format w = some (c, v) → c.type = .fd →
      Made sizeMax page (shared c) (regionObject (regionIsAshmem env platform) c.size)
        (.region (regionIsAshmem env platform) c.size)
  /-- `AHardwareBuffer_allocate` gives the size, the layer and the format that it was asked for. -/
  | convertedHardware {env : Env} {b c : LorieBuffer} {w v : World} {format : Nat} : env.sizeMax = sizeMax.toNat →
      Heap sizeMax b → b.convert env .ahardwarebuffer format w = some (c, v) → c.type = .ahardwarebuffer →
      Made sizeMax page (shared c)
        (.hardware ⟨.ofNat b.width, .ofNat b.height, 1, .ofNat format, .ofNat env.hardwareStride⟩)
        (.hardware (.ofNat b.width) (.ofNat env.hardwareStride) (.ofNat b.height))
  /-- In any lock, reference and image state -/
  | used {b : SharedBuffer} {o : Object} {origin : Origin} (refcount : Int) (locked : Bool)
      (lockedData graphicsImage : Option Nat) : Made sizeMax page b o origin → Made sizeMax page
        { b with refcount := refcount, locked := locked, lockedData := lockedData, graphicsImage := graphicsImage } o origin

/-! ## What the heap gives -/

/-- What `LorieBuffer_allocate` makes sure of, and no use changes -/
structure Shape (sizeMax : UInt64) (b : LorieBuffer) : Prop where
  type : b.type = .regular
  dmaBuf : b.dmaBuf = false
  offset : b.offset = 0
  format : b.format = formatB8G8R8A8 ∨ b.format = formatR8G8B8A8 ∨ b.format = formatR8G8B8X8
  width : 0 < b.width
  limit : b.width ≤ Buffer.int32Max / 4
  height : 0 < b.height
  height_lt : b.height < 2 ^ 31
  stride : b.stride = b.width

theorem heap_shape {sizeMax : UInt64} {b : LorieBuffer} (h : Heap sizeMax b) : Shape sizeMax b := by
  obtain ⟨page, pixels, buffer, width, height, format, id, w, b₀, u, hb₀, rfl⟩ := h
  have hlt := height.toInt_lt
  unfold LorieBuffer.allocate at hb₀
  split at hb₀
  · cases hb₀
  · rename_i size hlayout
    obtain ⟨-, hw, hh, -, hlimit⟩ := LorieBuffer.layout_some hlayout
    split at hb₀
    · cases hb₀
    · split at hb₀
      · cases hb₀
      · rename_i hformat
        split at hb₀
        · cases hb₀
        · dsimp only at hb₀
          split at hb₀
          · cases hb₀
          · cases hb₀
            have hbound : height.toInt.toNat < 2 ^ 31 := by omega
            refine ⟨rfl, rfl, rfl, ?_, hw, hlimit, hh, hbound, rfl⟩
            show format = formatB8G8R8A8 ∨ format = formatR8G8B8A8 ∨ format = formatR8G8B8X8
            tauto

section Heap

variable {env : Env} {b c : LorieBuffer} {w v : World} {format : Nat}

/-- What `convert` gives of shared memory -/
theorem convert_file (hb : b.type = .regular) (h : b.convert env .fd format w = some (c, v)) (hc : c.type = .fd) :
    Buffer.lorieBufferLayout env.sizeMax b.width b.stride b.height 0 = some c.size ∧
      (format = formatR8G8B8X8 ∨ format = formatB8G8R8A8) ∧ c.width = b.width ∧ c.height = b.height ∧ c.stride = b.stride ∧
      c.format = format ∧ c.offset = 0 := by
  have hkept : ∀ {u : World}, some (b, u) ≠ some (c, v) := by
    intro u hu
    cases hu
    rw [hb] at hc
    cases hc
  unfold LorieBuffer.convert at h
  split at h
  · exact absurd h hkept
  · rename_i hguard
    have hformat : format = formatR8G8B8X8 ∨ format = formatB8G8R8A8 := by
      have hrest := (not_or.1 (not_or.1 hguard).2).2
      tauto
    rw [if_pos rfl] at h
    cases hlayout : Buffer.lorieBufferLayout env.sizeMax b.width b.stride b.height 0 with
    | none =>
      rw [hlayout] at h
      exact absurd h hkept
    | some size =>
      rw [hlayout] at h
      dsimp only at h
      split at h
      · exact absurd h hkept
      · split at h
        · exact absurd h hkept
        · obtain ⟨data, -, h⟩ := Option.bind_eq_some_iff.1 h
          obtain ⟨pixels, -, h⟩ := Option.bind_eq_some_iff.1 h
          cases h
          exact ⟨rfl, hformat, rfl, rfl, rfl, rfl, rfl⟩

/-- Where shared memory can be had and mapped, `convert` moves the buffer there. -/
theorem convert_shared {size : Nat} (hb : b.type = .regular) (hformat : format = formatR8G8B8X8)
    (hlayout : Buffer.lorieBufferLayout env.sizeMax b.width b.stride b.height 0 = some size)
    (hcalls : env.sharedMemory = true ∧ env.mmap = true) (h : b.convert env .fd format w = some (c, v)) :
    c.type = .fd ∧ c.size = size := by
  have hregion : createRegion env size w = (some w.next, w.openFile env size) := if_pos hcalls.1
  unfold LorieBuffer.convert at h
  rw [if_neg (by simp [hb, hformat]), if_pos rfl, hlayout] at h
  dsimp only at h
  rw [hregion] at h
  dsimp only at h
  rw [hcalls.2, if_neg (by decide)] at h
  obtain ⟨data, -, h⟩ := Option.bind_eq_some_iff.1 h
  obtain ⟨pixels, -, h⟩ := Option.bind_eq_some_iff.1 h
  cases h
  exact ⟨rfl, rfl⟩

/-- What `convert` gives of a hardware buffer -/
theorem convert_hardware (hb : b.type = .regular) (h : b.convert env .ahardwarebuffer format w = some (c, v))
    (hc : c.type = .ahardwarebuffer) :
    env.hardwareStride ≤ Buffer.int32Max ∧ (format = formatR8G8B8X8 ∨ format = formatB8G8R8A8) ∧ c.width = b.width ∧
      c.height = b.height ∧ c.stride = env.hardwareStride ∧ c.format = format ∧ c.offset = b.offset := by
  have hkept : ∀ {u : World}, some (b, u) ≠ some (c, v) := by
    intro u hu
    cases hu
    rw [hb] at hc
    cases hc
  unfold LorieBuffer.convert at h
  split at h
  · exact absurd h hkept
  · rename_i hguard
    have hformat : format = formatR8G8B8X8 ∨ format = formatB8G8R8A8 := by
      have hrest := (not_or.1 (not_or.1 hguard).2).2
      tauto
    rw [if_neg (by decide)] at h
    split at h
    · exact absurd h hkept
    · dsimp only at h
      split at h
      · exact absurd h hkept
      · obtain ⟨data, -, h⟩ := Option.bind_eq_some_iff.1 h
        obtain ⟨stride, hstride, h⟩ := Option.bind_eq_some_iff.1 h
        obtain ⟨pixels, -, h⟩ := Option.bind_eq_some_iff.1 h
        cases h
        unfold int32 at hstride
        split at hstride
        · cases hstride
          exact ⟨‹_›, hformat, rfl, rfl, rfl, rfl, rfl⟩
        · cases hstride

/-- What `makeDmaBuf` gives -/
theorem makeDmaBuf_file (hb : b.dmaBuf = false) (h : b.makeDmaBuf env w = some (true, c, v)) :
    Buffer.lorieBufferLayout env.sizeMax c.stride c.stride b.height 0 = some c.size ∧ b.width ≤ c.stride ∧
      c.type = .fd ∧ c.width = b.width ∧ c.height = b.height ∧ c.format = b.format ∧ c.offset = b.offset := by
  unfold LorieBuffer.makeDmaBuf at h
  rw [hb, if_neg (by decide)] at h
  split at h
  · cases h
  · split at h
    · cases h
    · have hstride : b.width ≤ (b.width + 63) / 64 * 64 := by omega
      dsimp only at h
      cases hlayout : Buffer.lorieBufferLayout env.sizeMax ((b.width + 63) / 64 * 64) ((b.width + 63) / 64 * 64) b.height 0 with
      | none =>
        rw [hlayout] at h
        cases h
      | some size =>
        rw [hlayout] at h
        dsimp only at h
        split at h
        · cases h
        · split at h
          · cases h
          · split at h
            · cases h
            · obtain ⟨data, -, h⟩ := Option.bind_eq_some_iff.1 h
              obtain ⟨pixels, -, h⟩ := Option.bind_eq_some_iff.1 h
              split at h
              · cases h
              · cases h
                exact ⟨hlayout, hstride, rfl, rfl, rfl, rfl, rfl⟩

end Heap

/-! ## Natural numbers and the widths of the fields -/

/-- A layout with natural numbers is one with the widths of the fields. -/
theorem acceptable_ofNat {sizeMax : UInt64} {width stride height size : Nat}
    (h : Buffer.lorieBufferLayout sizeMax.toNat width stride height 0 = some size) (hheight : height < 2 ^ 31) :
    Acceptable sizeMax (.ofNat width) (.ofNat stride) (.ofNat height) 0 ∧
      (size : Int) = imageBytes (.ofNat width) (.ofNat stride) (.ofNat height) := by
  obtain ⟨-, hw, hh, hws, hs⟩ := LorieBuffer.layout_some h
  have hmax : Buffer.int32Max / 4 = 536870911 := rfl
  have hwidth : (Int32.ofNat width).toInt = width := Int32.toInt_ofNat_of_lt (by omega)
  have hstride : (Int32.ofNat stride).toInt = stride := Int32.toInt_ofNat_of_lt (by omega)
  have hheight' : (Int32.ofNat height).toInt = height := Int32.toInt_ofNat_of_lt hheight
  have heq := @lorieBufferLayout_eq sizeMax (.ofNat width) (.ofNat stride) (.ofNat height) (by omega) (by omega)
    (by omega) 0
  rw [hwidth, hstride, hheight', Int.toNat_natCast, Int.toNat_natCast, Int.toNat_natCast] at heq
  obtain ⟨bytes, hbytes, rfl⟩ := Option.map_eq_some_iff.1 (heq.symm.trans h)
  exact (layout_iff _ _ _ _ _ _).1 hbytes

/-- The size of a file, or of the ashmem region behind it -/
def fileExtent (size : Int64) (ashmemSize : Int32) : UInt64 :=
  if size > 0 then size.toUInt64 else if ashmemSize > 0 then ashmemSize.toInt64.toUInt64 else 0

theorem fileExtent_size {size : Int64} (h : 0 < size.toInt) (ashmemSize : Int32) :
    ((fileExtent size ashmemSize).toNat : Int) = size.toInt := by
  unfold fileExtent
  have hpos : size > 0 := by
    rw [gt_iff_lt, Int64.lt_iff_toInt_lt]
    exact h
  rw [if_pos hpos]
  exact toNat_toUInt64 (by omega)

/-- An ashmem region has its size up to 2 GiB, and then less than that. -/
theorem fileExtent_ashmem {bytes : Nat} (h : 0 < bytes) :
    (bytes < 2 ^ 31 → (fileExtent 0 (.ofNat bytes)).toNat = bytes) ∧ (fileExtent 0 (.ofNat bytes)).toNat < 2 ^ 31 := by
  unfold fileExtent
  rw [if_neg (by decide)]
  have hlt := (Int32.ofNat bytes).toInt_lt
  split
  · rename_i hpos
    rw [gt_iff_lt, Int32.lt_iff_toInt_lt, Int32.toInt_zero] at hpos
    have hwiden := toNat_widen (Int.le_of_lt hpos)
    refine ⟨fun hsmall => ?_, by omega⟩
    rw [Int32.toInt_ofNat_of_lt hsmall] at hwiden
    exact Int.ofNat.inj hwiden
  · rename_i hneg
    refine ⟨fun hsmall => absurd ?_ hneg, by decide⟩
    rw [gt_iff_lt, Int32.lt_iff_toInt_lt, Int32.toInt_zero, Int32.toInt_ofNat_of_lt hsmall]
    omega

/-! ## Which buffers survive -/

/-- The record describes the object. -/
def Object.Fits (sizeMax : UInt64) (page : Int64) (w : LorieBufferWire) : Object → Prop
  | .file size ashmemSize => w.type = typeFd ∧ w.FitsFile sizeMax page (fileExtent size ashmemSize)
  | .hardware d => w.type = typeAHardwareBuffer ∧ w.FitsHardware sizeMax d

/-- The object is of the type of the buffer. -/
def Object.Kind (b : SharedBuffer) : Object → Prop
  | .file _ _ => b.type = typeFd
  | .hardware _ => b.type = typeAHardwareBuffer

theorem seen_file (a : Layout.Answers) : seen a typeFd = .file (a.fstat.getD 0) a.ashmemSize := rfl

theorem extent_eq {a : Layout.Answers} {size : Int64} (h : a.fstat = some size) : a.extent = fileExtent size a.ashmemSize := by
  unfold Layout.Answers.extent
  rw [h]
  rfl

/-- What `allocate` makes describes what was before it. -/
theorem allocate_seen {a : Layout.Answers} {id : UInt64} {width stride height : Int32} {format type : UInt8}
    {buf fd : Option Nat} {offset : Int64} {takeFd : Bool} {b : SharedBuffer}
    (h : (a.allocate id width stride height format type buf fd offset takeFd).1 = some b)
    (htype : type = typeFd ∨ type = typeAHardwareBuffer ∧ offset = 0) :
    (seen a type).Kind b ∧ (seen a type).Fits a.sizeMax a.page (wireOf b) := by
  have hmade : a.allocate id width stride height format type buf fd offset takeFd = (some b, _) := Prod.ext h rfl
  have hnothing := (allocate_iff.1 hmade).1
  rw [hnothing] at hmade
  obtain ⟨-, hid, hbtype, hoffset, -, hshape⟩ := allocate_new hmade
  rcases htype with rfl | ⟨rfl, rfl⟩
  · obtain ⟨-, hstat, -, hfits⟩ := allocate_file_iff.1 ⟨b, hmade⟩
    obtain ⟨size, hsize⟩ := Option.isSome_iff_exists.1 hstat
    obtain ⟨hw, hh, hs, hf⟩ := hshape (by decide)
    have hwire : wireOf b = ⟨id, offset.toUInt64, width, height, stride, format, typeFd, 0⟩ := by
      unfold wireOf
      rw [hid, hoffset, hw, hh, hs, hf, hbtype]
    rw [seen_file, hsize, Option.getD_some, hwire]
    rw [extent_eq hsize] at hfits
    exact ⟨hbtype, rfl, hfits⟩
  · exact ⟨hbtype, hbtype, allocate_hardware_fits hmade⟩

/-- An image at the start of a file fits when the file has its bytes. -/
theorem fitsFile_iff {sizeMax extent : UInt64} {page : Int64} {w : LorieBufferWire} {bytes : Nat}
    (hformat : w.format ∈ acceptedFormats) (hoffset : w.offset = 0) (h : Acceptable sizeMax w.width w.stride w.height 0)
    (hbytes : (bytes : Int) = imageBytes w.width w.stride w.height) :
    w.FitsFile sizeMax page extent ↔ bytes ≤ extent.toNat := by
  have hzero : (w.offset.toNat : Int) = 0 := by
    rw [hoffset]
    rfl
  constructor
  · intro hfits
    have hwithin := hfits.within
    omega
  · intro hle
    refine ⟨hformat, hoffset ▸ h, by omega, ?_⟩
    have hroom := h.2.2.2.2.2.2.2
    rw [hzero, Int.zero_emod]
    omega

/-- Fewer columns of the same rows -/
theorem acceptable_narrow {sizeMax : UInt64} {width columns stride height : Int32}
    (h : Acceptable sizeMax columns stride height 0) (hw : 0 < width.toInt) (hle : width.toInt ≤ columns.toInt) :
    Acceptable sizeMax width stride height 0 ∧ 0 < imageBytes width stride height ∧
      imageBytes width stride height ≤ imageBytes columns stride height := by
  obtain ⟨hc, hh, hcs, hs, ho, hmax, hend, hfits⟩ := h
  have hrows : 0 ≤ (height.toInt - 1) * stride.toInt := Int.mul_nonneg (by omega) (by omega)
  unfold imageBytes at hend hfits ⊢
  refine ⟨⟨hw, hh, by omega, hs, ho, hmax, ?_, ?_⟩, by omega, by omega⟩
  · unfold imageBytes
    omega
  · unfold imageBytes
    omega

theorem format_accepted {format : Nat} (h : format = formatB8G8R8A8 ∨ format = formatR8G8B8A8 ∨ format = formatR8G8B8X8) :
    UInt8.ofNat format ∈ acceptedFormats := by
  rcases h with rfl | rfl | rfl <;> decide

/-- The record of a buffer of `Storage` -/
theorem wireOf_shared (c : LorieBuffer) :
    wireOf (shared c) = ⟨.ofNat c.id, (Int64.ofNat c.offset).toUInt64, .ofNat c.width, .ofNat c.height, .ofNat c.stride,
      .ofNat c.format, typeByte c.type, 0⟩ := rfl

section Heap

variable {sizeMax : UInt64} {env : Env} {b c : LorieBuffer} {w v : World} {format : Nat}

/-- A DMA buffer has all of the pixels. -/
theorem promoted_fits {size : Int64} (hmax : env.sizeMax = sizeMax.toNat) (hheap : Heap sizeMax b)
    (h : b.makeDmaBuf env w = some (true, c, v)) (hsize : (c.size : Int) ≤ size.toInt) (page : Int64) (ashmemSize : Int32) :
    c.type = .fd ∧ (wireOf (shared c)).FitsFile sizeMax page (fileExtent size ashmemSize) := by
  have hshape := heap_shape hheap
  obtain ⟨hlayout, hle, htype, hwidth, hheight, hformat, hoffset⟩ := makeDmaBuf_file hshape.dmaBuf h
  rw [hmax] at hlayout
  obtain ⟨hacc, hbytes⟩ := acceptable_ofNat hlayout hshape.height_lt
  obtain ⟨-, -, -, -, hlimit⟩ := LorieBuffer.layout_some hlayout
  have hmax' : Buffer.int32Max / 4 = 536870911 := rfl
  have hwidth' : (Int32.ofNat b.width).toInt = b.width := Int32.toInt_ofNat_of_lt (by omega)
  have hstride' : (Int32.ofNat c.stride).toInt = c.stride := Int32.toInt_ofNat_of_lt (by omega)
  have hpos := hshape.width
  obtain ⟨hnarrow, hsome, hfewer⟩ := @acceptable_narrow _ (.ofNat b.width) _ _ _ hacc (by omega) (by omega)
  have hextent := @fileExtent_size size (by omega) ashmemSize
  have hnat := Int.toNat_of_nonneg (Int.le_of_lt hsome)
  have hwithin : (imageBytes (.ofNat b.width) (.ofNat c.stride) (.ofNat b.height)).toNat ≤
      (fileExtent size ashmemSize).toNat := by omega
  refine ⟨htype, ?_⟩
  rw [wireOf_shared, hoffset, hshape.offset, hwidth, hheight, hformat, htype]
  exact Iff.mpr (fitsFile_iff (format_accepted hshape.format) rfl hnarrow hnat) hwithin

/-- A region has all of the pixels, as far as its size can be told. -/
theorem convertedFile_fits (hmax : env.sizeMax = sizeMax.toNat) (hheap : Heap sizeMax b)
    (h : b.convert env .fd format w = some (c, v)) (htype : c.type = .fd) (page : Int64) (ashmem : Bool) :
    (regionObject ashmem c.size).Fits sizeMax page (wireOf (shared c)) ↔ (Origin.region ashmem c.size).Survives sizeMax := by
  have hshape := heap_shape hheap
  obtain ⟨hlayout, hformat, hwidth, hheight, hstride, hcformat, hoffset⟩ := convert_file hshape.type h htype
  rw [hmax] at hlayout
  obtain ⟨hacc, hbytes⟩ := acceptable_ofNat hlayout hshape.height_lt
  obtain ⟨hsize, hpos, -⟩ := LorieBuffer.layout_some hlayout
  have h64 : Buffer.int64Max = 9223372036854775807 := rfl
  have hlarge : c.size ≤ Buffer.int64Max := by
    have hend := hacc.2.2.2.2.2.2.1
    rw [← hbytes] at hend
    have hzero : ((0 : UInt64).toNat : Int) = 0 := rfl
    omega
  have hwire : (wireOf (shared c)).type = typeFd := by
    rw [wireOf_shared, htype]
    rfl
  have hfits : ∀ extent, (wireOf (shared c)).FitsFile sizeMax page extent ↔ c.size ≤ extent.toNat := by
    intro extent
    rw [wireOf_shared, hoffset, hwidth, hheight, hstride, hcformat]
    exact fitsFile_iff (format_accepted (hformat.symm.imp_right .inr)) rfl hacc hbytes
  unfold regionObject
  split
  · -- ashmem
    rename_i hashmem
    obtain ⟨hsmall, hlt⟩ := @fileExtent_ashmem c.size (by omega)
    constructor
    · exact fun hall _ => Nat.lt_of_le_of_lt ((hfits _).1 hall.2) hlt
    · exact fun hsurvives => ⟨hwire, (hfits _).2 (Nat.le_of_eq (hsmall (hsurvives hashmem)).symm)⟩
  · -- the file of a memfd has all of the bytes
    rename_i hmemfd
    have hint : (Int64.ofNat c.size).toInt = c.size := Int64.toInt_ofNat_of_lt (by omega)
    have hextent := @fileExtent_size (.ofNat c.size) (by omega) (-1)
    constructor
    · exact fun _ hashmem => absurd hashmem hmemfd
    · exact fun _ => ⟨hwire, (hfits _).2 (by omega)⟩

/-- A field of a description of a hardware buffer is that of the record. -/
theorem toNat_ofNat_field {n : Nat} (h : n < 2 ^ 31) : ((UInt32.ofNat n).toNat : Int) = (Int32.ofNat n).toInt := by
  rw [UInt32.toNat_ofNat_of_lt' (by simp only [UInt32.size]; omega), Int32.toInt_ofNat_of_lt h]

/-- A hardware buffer is described as it was asked for: only its layout is still to be checked. -/
theorem convertedHardware_fits (hheap : Heap sizeMax b) (h : b.convert env .ahardwarebuffer format w = some (c, v))
    (htype : c.type = .ahardwarebuffer) :
    (wireOf (shared c)).FitsHardware sizeMax
        ⟨.ofNat b.width, .ofNat b.height, 1, .ofNat format, .ofNat env.hardwareStride⟩ ↔
      (Origin.hardware (.ofNat b.width) (.ofNat env.hardwareStride) (.ofNat b.height)).Survives sizeMax := by
  have hshape := heap_shape hheap
  obtain ⟨hstride, hformat, hwidth, hheight, hcstride, hcformat, hoffset⟩ := convert_hardware hshape.type h htype
  have hint32 : Buffer.int32Max = 2147483647 := rfl
  have hlimit := hshape.limit
  rw [wireOf_shared, hoffset, hshape.offset, hwidth, hheight, hcstride, hcformat]
  constructor
  · exact fun hfits => hfits.layout
  · exact fun hlayout =>
      { format := format_accepted (hformat.symm.imp_right .inr)
        layout := hlayout
        offset := rfl
        layers := rfl
        width := toNat_ofNat_field (by omega)
        height := toNat_ofNat_field hshape.height_lt
        stride := toNat_ofNat_field (by omega)
        described := by rcases hformat with rfl | rfl <;> rfl }

end Heap

/-- **When the record of a buffer describes its object.** -/
theorem made_fits {sizeMax : UInt64} {page : Int64} {b : SharedBuffer} {o : Object} {origin : Origin}
    (h : Made sizeMax page b o origin) : o.Kind b ∧ (o.Fits sizeMax page (wireOf b) ↔ origin.Survives sizeMax) := by
  induction h with
  | @allocated a id width height format type region hardware b hmax hpage htype hb =>
    unfold allocateShared at hb
    split at hb
    · cases hb
    · split at hb
      · cases hb
      · split at hb
        · cases hb
        · obtain ⟨hkind, hfits⟩ := allocate_seen hb (htype.imp_right fun h => ⟨h, rfl⟩)
          rw [hmax, hpage] at hfits
          exact ⟨hkind, fun _ => trivial, fun _ => hfits⟩
  | wrappedFile hmax hpage hb =>
    obtain ⟨hkind, hfits⟩ := allocate_seen hb (.inl rfl)
    rw [hmax, hpage] at hfits
    exact ⟨hkind, fun _ => trivial, fun _ => hfits⟩
  | wrappedHardware hmax hpage hb =>
    obtain ⟨hkind, hfits⟩ := allocate_seen hb (.inr ⟨rfl, rfl⟩)
    rw [hmax, hpage] at hfits
    exact ⟨hkind, fun _ => trivial, fun _ => hfits⟩
  | promoted hmax hheap hmake hsize =>
    obtain ⟨htype, hfits⟩ := promoted_fits hmax hheap hmake hsize page _
    have hkind := congrArg typeByte htype
    exact ⟨hkind, fun _ => trivial, fun _ => ⟨hkind, hfits⟩⟩
  | @convertedFile env b c w v format platform hmax hheap hconvert htype =>
    refine ⟨?_, convertedFile_fits hmax hheap hconvert htype page _⟩
    unfold regionObject
    split <;> exact congrArg typeByte htype
  | convertedHardware hmax hheap hconvert htype =>
    have hkind := congrArg typeByte htype
    have hfits := convertedHardware_fits hheap hconvert htype
    exact ⟨hkind, fun h => hfits.1 h.2, fun h => ⟨hkind, hfits.2 h⟩⟩
  | used refcount locked lockedData graphicsImage _ ih => exact ih

/-- A process where nothing else fails, and the object arrives -/
structure Arrives {header : Nat} (sizeMax : UInt64) (page : Int64) (b : SharedBuffer) (o : Object) (r : Layout.Answers)
    (s : Arrival header) : Prop where
  sizeMax : r.sizeMax = sizeMax
  page : r.page = page
  sees : Sees r o
  calls : Succeeds r
  sent : ∃ answers written, sendHandle b answers true = some (true, written) ∧ Fragments s.record written
  carries : ∃ n, Carries s b n

theorem made_received {sizeMax : UInt64} {page : Int64} {b : SharedBuffer} {o : Object} {origin : Origin} {header : Nat}
    {r : Layout.Answers} {s : Arrival header} (h : Made sizeMax page b o origin) (ha : Arrives sizeMax page b o r s)
    (id : UInt64) :
    (∃ out c, recvHandle r id s = some out ∧ out.buffer = some c ∧ Restored b c) ↔ origin.Survives sizeMax := by
  obtain ⟨hkind, hfits⟩ := made_fits h
  obtain ⟨hmax, hpage, hsees, hcalls, ⟨answers, written, hsend, hrecord⟩, n, hcarries⟩ := ha
  rw [← hfits]
  cases o with
  | file size ashmemSize =>
    rw [recvHandle_iff hsend hrecord hcarries hcalls fun _ => by rw [hsees.1]; rfl]
    have hextent := extent_eq hsees.1
    rw [hsees.2] at hextent
    unfold Describes Object.Fits
    rw [hmax, hpage, hextent]
    constructor
    · rintro ⟨-, hfile | ⟨htype, -⟩⟩
      · exact hfile
      · exact absurd (hkind.symm.trans htype) (by decide)
    · exact fun hfile => ⟨rfl, .inl hfile⟩
  | hardware d =>
    rw [recvHandle_iff hsend hrecord hcarries hcalls fun htype => absurd (hkind.symm.trans htype) (by decide)]
    unfold Describes Object.Fits
    rw [hmax, show r.describe = d from hsees]
    constructor
    · rintro ⟨-, ⟨htype, -⟩ | hhardware⟩
      · exact absurd (hkind.symm.trans htype) (by decide)
      · exact hhardware
    · exact fun hhardware => ⟨rfl, .inr hhardware⟩

/-- **Shared buffers cross the socket as they are**, in any pieces: exactly those that survive. A record that ends too early
gives no buffer, and one that does not describe what is received gives none and closes every descriptor that was received. -/
theorem buffers_cross {sizeMax : UInt64} {page : Int64} {b : SharedBuffer} {o : Object} {origin : Origin} {header : Nat}
    {r : Layout.Answers} {s : Arrival header} (h : Made sizeMax page b o origin) (ha : Arrives sizeMax page b o r s)
    (id : UInt64) :
    ((∃ out c, recvHandle r id s = some out ∧ out.buffer = some c ∧ Restored b c) ↔ origin.Survives sizeMax) ∧
    (∀ (r : Layout.Answers) id (s : Arrival header), Truncated s.record wireSize →
      recvHandle r id s = some ⟨none, [], []⟩) ∧
    ∀ (r : Layout.Answers) id (s : Arrival header) bytes, Fragments s.record bytes → bytes.length = wireSize →
      ancilRecvFd s.ancillary ≠ none → ¬ Describes r (.ofBytes bytes) →
      ∃ out, recvHandle r id s = some out ∧ out.buffer = none ∧ (out.released.filter isHandle).Perm out.received :=
  ⟨made_received h ha id, fun _ _ _ => recvHandle_truncated, fun _ _ _ _ => recvHandle_rejects⟩

/-- The record of a buffer in two pieces, with an interruption between them, and a descriptor -/
def twoPieces (b : SharedBuffer) : Arrival 16 :=
  { record := [.data ((wireOf b).bytes.take 10), .failed 4, .data ((wireOf b).bytes.drop 10)]
    ancillary := [.message 1 33 false false [⟨1, 1, 20, [5], fun _ _ => rfl⟩]]
    hardware := none }

theorem twoPieces_fragments (b : SharedBuffer) : Fragments (twoPieces b).record (wireOf b).bytes := by
  have hlength := (wireOf b).bytes_length
  have hne : ∀ {bytes : List UInt8}, bytes.length ≠ 0 → bytes ≠ [] := fun h e => h (List.length_eq_zero_iff.2 e)
  have hrest : Fragments [.data ((wireOf b).bytes.drop 10)] ((wireOf b).bytes.drop 10 ++ []) :=
    .piece (hne (by rw [List.length_drop, hlength]; decide)) (.done [])
  rw [List.append_nil] at hrest
  have hall : Fragments (twoPieces b).record ((wireOf b).bytes.take 10 ++ (wireOf b).bytes.drop 10) :=
    .piece (hne (by rw [List.length_take, hlength]; decide)) (.interrupted hrest)
  rwa [List.take_append_drop] at hall

/-- The record is written at once. -/
theorem sendHandle_whole {b : SharedBuffer} (h : b.type = typeFd) :
    sendHandle b [.count 32] true = some (true, (wireOf b).bytes) := by
  have hlength : (wireOf b).bytes.length = 32 := (wireOf b).bytes_length
  have hwrite : lorieWriteFully (wireOf b).bytes [.count 32] = some (true, (wireOf b).bytes) := by
    unfold lorieWriteFully
    rw [if_neg (fun e => by rw [e] at hlength; cases hlength)]
    dsimp only
    rw [if_neg (by decide), List.drop_eq_nil_of_le (Nat.le_of_eq hlength), List.take_of_length_le (Nat.le_of_eq hlength)]
    unfold lorieWriteFully
    rw [if_pos rfl, Option.map_some, List.append_nil]
  unfold sendHandle
  rw [if_neg (fun hne => hne.1 h), hwrite]
  rfl

/-- The two pieces bring a file to a process where nothing else fails. -/
theorem twoPieces_arrive {sizeMax : UInt64} {page : Int64} {b : SharedBuffer} {o : Object} {r : Layout.Answers}
    (h : b.type = typeFd) (hmax : r.sizeMax = sizeMax) (hpage : r.page = page) (hsees : Sees r o) (hcalls : Succeeds r) :
    Arrives sizeMax page b o r (twoPieces b) where
  sizeMax := hmax
  page := hpage
  sees := hsees
  calls := hcalls
  sent := ⟨[.count 32], _, sendHandle_whole h, twoPieces_fragments b⟩
  carries := ⟨5, fun _ => ⟨[], _, [], rfl, List.forall_mem_nil _, rfl, rfl, rfl, rfl⟩,
    fun htype => absurd (h.symm.trans htype) (by decide)⟩

/-- A file with pixels behind its first page -/
theorem buffers_cross_offset :
    ∃ b, (twoPages.wrapFileDescriptor 7 3 8 2 5 (some 9) 4104).1 = some b ∧
      ∃ out c, recvHandle twoPages 0 (twoPieces b) = some out ∧ out.buffer = some c ∧ Restored b c := by
  obtain ⟨b, hb, htype⟩ : ∃ b, (twoPages.wrapFileDescriptor 7 3 8 2 5 (some 9) 4104).1 = some b ∧ b.type = typeFd :=
    ⟨_, rfl, rfl⟩
  have hcalls : Succeeds twoPages := ⟨by decide, rfl, fun h => (by cases h), rfl⟩
  have harrives := twoPieces_arrive (o := seen twoPages typeFd) htype rfl rfl ⟨rfl, rfl⟩ hcalls
  exact ⟨b, hb, (buffers_cross (.wrappedFile rfl rfl hb) harrives 0).1.2 trivial⟩

/-! ## 2 GiB in ashmem -/

/-- A device without memfd and without DMA-BUF, whose hardware buffers have rows of 32767 pixels -/
def ashmemDevice : Env :=
  { sharedMemory := true
    memfd := false
    truncate := false
    ashmem := true
    setName := true
    setSize := true
    heap := false
    heapAlloc := false
    mmap := true
    syncStart := false
    syncEnd := false
    hardwareAllocate := false
    hardwareLock := false
    hardwareUnlock := false
    hardwareStride := 32767
    contents := fun _ => 0
    sizeMax := 2 ^ 64 - 1 }

def freshWorld : World :=
  { memory := fun _ => []
    blocks := []
    files := []
    mappings := []
    hardware := []
    locked := []
    next := 0 }

/-- A buffer in the heap of 32767 by 16385 pixels -/
def largeBuffer : LorieBuffer :=
  { refcount := 1
    width := 32767
    height := 16385
    stride := 32767
    format := formatR8G8B8X8
    type := .regular
    id := 1
    buffer := none
    data := some 0
    locked := false
    lockedData := none
    fd := none
    size := 0
    offset := 0
    mapping := none
    dmaBuf := false
    graphicsImage := none
    gpuCopyPending := 0 }

theorem largeBuffer_allocated :
    (LorieBuffer.allocate (18446744073709551615 : UInt64).toNat 4096 true true (32767 : Int32).toInt.toNat
      (16385 : Int32).toInt.toNat formatR8G8B8X8 (1 : UInt64).toNat freshWorld).1 = some largeBuffer := rfl

/-- `convert` moves it to shared memory. -/
theorem largeBuffer_converted : ∃ c w v, largeBuffer.convert ashmemDevice .fd formatR8G8B8X8 w = some (c, v) ∧ c.type = .fd ∧
    c.size = 2147549180 := by
  obtain ⟨w, hw⟩ : ∃ w, LorieBuffer.allocate (18446744073709551615 : UInt64).toNat 4096 true true (32767 : Int32).toInt.toNat
      (16385 : Int32).toInt.toNat formatR8G8B8X8 (1 : UInt64).toNat freshWorld = (some largeBuffer, w) := by
    have hfirst := largeBuffer_allocated
    generalize LorieBuffer.allocate _ _ _ _ _ _ _ _ _ = made at hfirst ⊢
    exact ⟨made.2, Prod.ext hfirst rfl⟩
  obtain ⟨c, v, hconvert, -⟩ := LorieBuffer.convert_atomic ashmemDevice (LorieBuffer.allocate_regular hw) (by decide) .fd
    formatR8G8B8X8
  have hlayout : Buffer.lorieBufferLayout ashmemDevice.sizeMax largeBuffer.width largeBuffer.stride largeBuffer.height 0 =
      some 2147549180 := by decide
  exact ⟨c, w, v, hconvert, convert_shared rfl rfl hlayout ⟨rfl, rfl⟩ hconvert⟩

/-- The host, that has the region before it -/
def ashmemHost : Layout.Answers :=
  { twoPages with dup := none, fstat := some 0, ashmemSize := .ofNat 2147549180 }

/-- The buffer is sent, and not received: as an `int`, the size of the region is negative. -/
theorem large_region_lost : ¬ ∀ sizeMax page b o origin, Made sizeMax page b o origin →
    ∀ r (s : Arrival 16), Arrives sizeMax page b o r s → ∀ id,
      ∃ out c, recvHandle r id s = some out ∧ out.buffer = some c ∧ Restored b c := by
  intro h
  obtain ⟨c, w, v, hconvert, htype, hsize⟩ := largeBuffer_converted
  have hheap : Heap 18446744073709551615 largeBuffer :=
    ⟨4096, true, true, 32767, 16385, formatR8G8B8X8, 1, freshWorld, largeBuffer, ⟨1, false, none, none, 0⟩,
      largeBuffer_allocated, rfl⟩
  have hmade := @Made.convertedFile 18446744073709551615 4096 _ _ _ _ _ _ true rfl hheap hconvert htype
  have hfile : (shared c).type = typeFd := by
    unfold shared
    rw [htype]
    rfl
  have hsees : Sees ashmemHost (regionObject (regionIsAshmem ashmemDevice true) c.size) := by
    rw [hsize]
    exact ⟨rfl, rfl⟩
  have harrives := @twoPieces_arrive 18446744073709551615 4096 _ _ _ hfile rfl rfl hsees
    ⟨by decide, rfl, fun h => (by cases h), rfl⟩
  have hsmall := (made_received hmade harrives 0).1 (h _ _ _ _ _ hmade _ _ harrives 0) rfl
  rw [hsize] at hsmall
  omega

end Lorie.Buffer.Wire
