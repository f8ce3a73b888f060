import Lorie.Lib.Numbers

/-!
# Copies out of a DMA buffer

`dmaCopyImportSource` imports the image behind a descriptor into Vulkan, as many rows of it as the driver takes, and `dmaCopyRect`
copies a rectangle of it: the rows below `gpuRows` from the imported buffer, the others from a buffer that is staged by the CPU
(`dma_copy.c`). `lorieDmaCopy` falls back to `pixman_blt` (`InitOutput.c`). Arithmetic is checked (`Lib.Checked`).

- `importSource_split`: where the image is cut;
- `copyRect_exact`: the copies of a rectangle, against the bytes that `pixman_blt` reads;
- `dma_copy_exact`: both, for the arguments of the functions.
-/

namespace Lorie.Buffer

open Lib (unsigned signed minus quotient unsigned_eq signed_eq minus_eq quotient_eq)

namespace DmaCopy

/-! ## Sources -/

/-- `VkMemoryRequirements` -/
structure Requirements where
  size : UInt64
  memoryTypeBits : BitVec 32

/-- The answers of the system and of Vulkan while a source is imported. -/
structure Driver where
  ready : Bool
  /-- `st_size` of `fstat` -/
  fileSize : Option Int64
  syncStart : Bool
  syncEnd : Bool
  /-- `memoryTypeBits` of `GetMemoryFdPropertiesKHR` -/
  fdProperties : Option (BitVec 32)
  calloc : Bool
  /-- `CreateBuffer` for the imported memory and `GetBufferMemoryRequirements`, for each size -/
  imported : Nat → Option Requirements
  /-- The same for the staged rows -/
  tail : Nat → Option Requirements
  /-- `memoryProperties`: the flags of each memory type -/
  memoryTypes : List (BitVec 32)
  allocateTail : Bool
  bindTail : Bool
  mapTail : Bool
  dup : Bool
  allocate : Bool
  bind : Bool

/-- `requirements.size` is no less than the size of the buffer. -/
def Driver.Sound (driver : Driver) : Prop :=
  (∀ size r, driver.imported size = some r → size ≤ r.size.toNat) ∧ ∀ size r, driver.tail size = some r → size ≤ r.size.toNat

/-- `DmaCopySource`, with the sizes of its buffers; `pixels` is where the descriptor is mapped from `offset` on. -/
structure DmaCopySource where
  offset : Nat
  tailSize : Nat
  width : Nat
  height : Nat
  strideBytes : Nat
  gpuRows : Nat
  imported : Nat
  tail : Option Nat
  deriving DecidableEq, Repr

/-- `HOST_VISIBLE` and `HOST_COHERENT` -/
def hostFlags : BitVec 32 := 6

/-- The loop over the memory types finds one. -/
def hasHostType (driver : Driver) (requirements : Requirements) : Bool :=
  (List.range driver.memoryTypes.length).any fun type =>
    requirements.memoryTypeBits.getLsbD type && driver.memoryTypes[type]?.any fun flags => flags &&& hostFlags = hostFlags

/-- `createTail` -/
def createTail (driver : Driver) (s : DmaCopySource) : Option (Option DmaCopySource) := do
  let rows ← minus (← minus s.height s.gpuRows) 1
  let tailSize ← unsigned 64 ((← unsigned 64 (rows * s.strideBytes)) + (← unsigned 32 (s.width * 4)))
  match driver.tail tailSize with
  | none => return none
  | some requirements =>
    if !hasHostType driver requirements then return none
    else if driver.allocateTail && driver.bindTail && driver.mapTail then
      return some { s with tailSize := tailSize, tail := some tailSize }
    else return none

/-- `requirements.size > st_size`: only the rows are imported that fit with the padding of the driver. -/
def cutRows (driver : Driver) (fileSize required : Nat) (requirements : Requirements) (s : DmaCopySource) :
    Option (Option (DmaCopySource × Requirements)) := do
  let overhead ← minus requirements.size.toNat required
  let row ← unsigned 64 (s.width * 4)
  let used ← unsigned 64 ((← unsigned 64 (overhead + s.offset)) + row)
  if used ≥ fileSize then return none
  else
    let rest ← minus (← minus (← minus fileSize overhead) s.offset) row
    let gpuRows ← unsigned 32 (← unsigned 64 ((← quotient rest s.strideBytes) + 1))
    if gpuRows = 0 ∨ gpuRows ≥ s.height then return none
    else
      let rows ← unsigned 64 ((← minus gpuRows 1) * s.strideBytes)
      let size ← unsigned 64 ((← unsigned 64 (s.offset + rows)) + (← signed 32 (s.width * 4)))
      match driver.imported size with
      | none => return none
      | some requirements =>
        if requirements.size.toNat > fileSize then return none
        else
          let cut ← createTail driver { s with gpuRows := gpuRows, imported := size }
          return cut.map fun s => (s, requirements)

/-- `mask`, `AllocateMemory` and `BindBufferMemory` -/
def bindSource (driver : Driver) (fdProperties : BitVec 32) (s : DmaCopySource) (requirements : Requirements) :
    Option DmaCopySource :=
  if requirements.memoryTypeBits &&& fdProperties = 0 then none
  else if driver.dup && driver.allocate && driver.bind then some s
  else none

/-- `dmaCopyImportSource` behind the checks of its arguments -/
def importSource (driver : Driver) (offset width height strideBytes fileSize : Nat) : Option (Option DmaCopySource) := do
  let rows ← unsigned 64 ((← minus height 1) * strideBytes)
  let required ← unsigned 64 ((← unsigned 64 (offset + rows)) + (← unsigned 64 (width * 4)))
  if required > fileSize then return none
  else if !driver.syncStart || !driver.syncEnd then return none
  else
    match driver.fdProperties, driver.calloc, driver.imported required with
    | some fdProperties, true, some requirements =>
      let s : DmaCopySource := ⟨offset, 0, width, height, strideBytes, height, required, none⟩
      if requirements.size.toNat > fileSize then
        let cut ← cutRows driver fileSize required requirements s
        return cut.bind fun r => bindSource driver fdProperties r.1 r.2
      else return bindSource driver fdProperties s requirements
    | _, _, _ => return none

/-- `dmaCopyImportSource` -/
def dmaCopyImportSource (driver : Driver) (offset : Int64) (width height strideBytes : Int32) (pixels : Bool) :
    Option (Option DmaCopySource) :=
  match driver.fileSize with
  | none => some none
  | some fileSize =>
    if !driver.ready ∨ !pixels ∨ offset.toInt < 0 ∨ offset.toInt % 4 ≠ 0 ∨ width.toInt ≤ 0 ∨ height.toInt ≤ 0 ∨
        strideBytes.toInt < width.toInt * 4 ∨ strideBytes.toInt % 4 ≠ 0 ∨ fileSize.toInt ≤ 0 then some none
    else
      importSource driver offset.toInt.toNat width.toInt.toNat height.toInt.toNat strideBytes.toInt.toNat fileSize.toInt.toNat

/-! ## Rectangles -/

/-- The answers of Vulkan while a rectangle is copied. -/
structure Device where
  /-- `dmaCopyReady`, for the context that the source and the destination have in common -/
  ready : Bool
  reset : Bool
  start : Bool
  finish : Bool
  submit : Bool
  wait : Bool
  /-- `DeviceWaitIdle` succeeds, or the device is lost. -/
  idle : Bool

/-- `DmaCopyDestination`, of a buffer that `LorieBuffer` accepts -/
structure DmaCopyDestination where
  width : UInt32
  height : UInt32
  /-- `desc.width > INT32_MAX || desc.height > INT32_MAX` -/
  small : width.toNat < 2 ^ 31 ∧ height.toNat < 2 ^ 31

/-- `VkBufferImageCopy`, out of the tail or out of the imported buffer -/
structure BufferImageCopy where
  tail : Bool
  bufferOffset : Nat
  bufferRowLength : Nat
  imageX : Nat
  imageY : Nat
  width : Nat
  height : Nat
  deriving DecidableEq, Repr

/-- `DmaCopyResult` -/
inductive DmaCopyResult where
  | declined
  | complete
  | unconfirmed
  deriving DecidableEq, Repr

/-- What `dmaCopyRect` returns, which bytes behind `pixels` it stages, and what it records. -/
structure CopyRun where
  result : DmaCopyResult
  staged : Option (Nat × Nat)
  copies : List BufferImageCopy
  deriving DecidableEq, Repr

/-- `recordCopy` -/
def recordCopy (s : DmaCopySource) (sx sy dx dy width height : Nat) (tail : Bool) : Option BufferImageCopy := do
  let row ← minus sy (if tail then s.gpuRows else 0)
  let line ← unsigned 64 (row * s.strideBytes)
  let column ← signed 32 (sx * 4)
  let bufferOffset ← unsigned 64 ((if tail then 0 else s.offset) + (← unsigned 64 (line + column)))
  return ⟨tail, bufferOffset, s.strideBytes / 4, dx, dy, width, height⟩

/-- `memcpy(s->tail.mapped, ...)` -/
def stage (s : DmaCopySource) (bottom : Nat) : Option (Option (Nat × Nat)) :=
  if bottom > s.gpuRows then (unsigned 64 (s.gpuRows * s.strideBytes)).map fun start => some (start, s.tailSize)
  else some none

/-- The rows that the imported buffer has -/
def gpuHeight (s : DmaCopySource) (sy height : Nat) : Nat :=
  let gpuHeight := if sy < s.gpuRows then s.gpuRows - sy else 0
  if gpuHeight > height then height else gpuHeight

def recordGpu (s : DmaCopySource) (sx sy dx dy width gpuHeight : Nat) : Option (List BufferImageCopy) :=
  if gpuHeight ≠ 0 then (recordCopy s sx sy dx dy width gpuHeight false).map ([·]) else some []

def recordTail (s : DmaCopySource) (sx sy dx dy width height gpuHeight : Nat) : Option (List BufferImageCopy) :=
  if gpuHeight < height then do
    let sy ← signed 32 (← unsigned 32 (sy + gpuHeight))
    let dy ← signed 32 (← unsigned 32 (dy + gpuHeight))
    let rows ← minus height gpuHeight
    return [← recordCopy s sx sy dx dy width rows true]
  else some []

/-- `dmaCopyRect` behind the checks of its arguments -/
def copyRect (device : Device) (s : DmaCopySource) (sx sy dx dy width height : Nat) : Option CopyRun := do
  let staged ← stage s (← signed 32 (sy + height))
  let failed := if device.idle then DmaCopyResult.declined else .unconfirmed
  if !device.reset || !device.start then return ⟨failed, staged, []⟩
  else
    let gpu ← recordGpu s sx sy dx dy width (gpuHeight s sy height)
    let tail ← recordTail s sx sy dx dy width height (gpuHeight s sy height)
    let copied := device.finish && device.submit && device.wait
    return ⟨if copied then .complete else failed, staged, gpu ++ tail⟩

/-- The rectangle is inside the source and the destination. -/
def accepted (s : DmaCopySource) (d : DmaCopyDestination) (sx sy dx dy width height : Int) : Prop :=
  0 ≤ sx ∧ 0 ≤ sy ∧ 0 ≤ dx ∧ 0 ≤ dy ∧ 0 < width ∧ 0 < height ∧ sx + width ≤ s.width ∧ sy + height ≤ s.height ∧
    dx + width ≤ d.width.toNat ∧ dy + height ≤ d.height.toNat

instance (s : DmaCopySource) (d : DmaCopyDestination) (sx sy dx dy width height : Int) :
    Decidable (accepted s d sx sy dx dy width height) := by
  unfold accepted
  infer_instance

/-- `dmaCopyRect` -/
def dmaCopyRect (device : Device) (s : DmaCopySource) (d : DmaCopyDestination) (sx sy dx dy width height : Int32) :
    Option CopyRun :=
  if !device.ready ∨ ¬accepted s d sx.toInt sy.toInt dx.toInt dy.toInt width.toInt height.toInt then
    some ⟨.declined, none, []⟩
  else
    copyRect device s sx.toInt.toNat sy.toInt.toNat dx.toInt.toNat dy.toInt.toNat width.toInt.toNat height.toInt.toNat

/-! ## Bytes -/

/-- The byte of the buffer that a copy reads a pixel from: `bufferOffset + (y * bufferRowLength + x) * 4` -/
def BufferImageCopy.byte (c : BufferImageCopy) (x y : Nat) : Nat := c.bufferOffset + (y * c.bufferRowLength + x) * 4

namespace DmaCopySource

variable (s : DmaCopySource)

/-- The bytes of the image from its first pixel to its last -/
def bytes : Nat := (s.height - 1) * s.strideBytes + s.width * 4

/-- The byte of the file that a byte of a buffer stands for. The tail has the bytes behind the imported rows. -/
def fileByte (tail : Bool) (a : Nat) : Nat := if tail then s.offset + (s.gpuRows * s.strideBytes + a) else a

/-- The byte behind `pixels` that `pixman_blt` reads a pixel from; its stride is counted in words. -/
def pixmanByte (x y : Nat) : Nat := (y * (s.strideBytes / 4) + x) * 4

/-- The size of a buffer -/
def bufferSize (tail : Bool) : Nat := if tail then s.tail.getD 0 else s.imported

end DmaCopySource

/-! ## Where the image is cut -/

/-- The arguments of an image that is in a file of so many bytes. -/
structure Fits (offset width height strideBytes fileSize : Nat) : Prop where
  width_pos : 0 < width
  height_pos : 0 < height
  stride : width * 4 ≤ strideBytes
  aligned : strideBytes % 4 = 0 ∧ offset % 4 = 0
  small : strideBytes < 2 ^ 31 ∧ height < 2 ^ 31
  long : offset < 2 ^ 63 ∧ fileSize < 2 ^ 63

/-- A source whose rows are divided between its two buffers. -/
structure Split (s : DmaCopySource) (fileSize : Nat) : Prop where
  fits : Fits s.offset s.width s.height s.strideBytes fileSize
  file : s.offset + s.bytes ≤ fileSize
  rows : 1 ≤ s.gpuRows ∧ s.gpuRows ≤ s.height
  imported : s.imported = s.offset + (s.gpuRows - 1) * s.strideBytes + s.width * 4
  /-- There is a tail exactly if some rows are not imported. -/
  tail : if s.gpuRows < s.height then
      s.tail = some s.tailSize ∧ s.tailSize = (s.height - s.gpuRows - 1) * s.strideBytes + s.width * 4
    else s.tail = none ∧ s.tailSize = 0

section Import

variable {driver : Driver} {offset width height strideBytes fileSize : Nat}

theorem Fits.rows_lt (h : Fits offset width height strideBytes fileSize) {rows : Nat} (hr : rows ≤ height) :
    rows * strideBytes < 2 ^ 62 := by
  have hproduct : rows * strideBytes ≤ (2 ^ 31 - 1) * (2 ^ 31 - 1) := by
    obtain ⟨hs, hh⟩ := h.small
    exact Nat.mul_le_mul (by omega) (by omega)
  omega

/-- The rows that are not imported are staged. -/
theorem createTail_eq (driver : Driver) (s : DmaCopySource) (h : Fits s.offset s.width s.height s.strideBytes fileSize)
    (hrows : s.gpuRows < s.height) :
    ∃ r, createTail driver s = some r ∧ ∀ t ∈ r, t = { s with
      tailSize := (s.height - s.gpuRows - 1) * s.strideBytes + s.width * 4
      tail := some ((s.height - s.gpuRows - 1) * s.strideBytes + s.width * 4) } := by
  have hrest := h.rows_lt (show s.height - s.gpuRows - 1 ≤ s.height by omega)
  have hwidth : s.width * 4 < 2 ^ 31 := h.stride.trans_lt h.small.1
  unfold createTail
  simp only [Option.bind_eq_bind]
  rw [minus_eq hrows.le, Option.bind_some, minus_eq (by omega), Option.bind_some, unsigned_eq (by omega), Option.bind_some,
    unsigned_eq (by omega), Option.bind_some, unsigned_eq (by omega), Option.bind_some]
  split
  · exact ⟨none, rfl, fun t ht => absurd ht (Option.not_mem_none t)⟩
  · split
    · exact ⟨none, rfl, fun t ht => absurd ht (Option.not_mem_none t)⟩
    · split
      · exact ⟨_, rfl, fun t ht => (Option.some.inj ht).symm⟩
      · exact ⟨none, rfl, fun t ht => absurd ht (Option.not_mem_none t)⟩

/-- Where the image is cut for the padding of the driver. -/
theorem cutRows_split (driver : Driver) (requirements : Requirements) (s : DmaCopySource)
    (h : Fits s.offset s.width s.height s.strideBytes fileSize) (hfile : s.offset + s.bytes ≤ fileSize)
    (hsound : s.offset + s.bytes ≤ requirements.size.toNat) (hlarge : fileSize < requirements.size.toNat) :
    ∃ r, cutRows driver fileSize (s.offset + s.bytes) requirements s = some r ∧
      ∀ t ∈ r, Split t.1 fileSize ∧ t.1.offset = s.offset ∧ t.1.width = s.width ∧ t.1.height = s.height ∧
        t.1.strideBytes = s.strideBytes := by
  have hnone : ∃ r, some (none : Option (DmaCopySource × Requirements)) = some r ∧
      ∀ t ∈ r, Split t.1 fileSize ∧ t.1.offset = s.offset ∧ t.1.width = s.width ∧ t.1.height = s.height ∧
        t.1.strideBytes = s.strideBytes := ⟨none, rfl, fun t ht => absurd ht (Option.not_mem_none t)⟩
  have hsize := requirements.size.toNat_lt
  have hrows := h.rows_lt (show s.height - 1 ≤ s.height by omega)
  obtain ⟨hwidth, hheight, hstride, haligned, hsmall, hlong⟩ := id h
  unfold DmaCopySource.bytes at hfile hsound ⊢
  unfold cutRows
  simp only [Option.bind_eq_bind]
  generalize requirements.size.toNat = required at hsound hlarge hsize ⊢
  rw [minus_eq hsound, Option.bind_some, unsigned_eq (by omega), Option.bind_some, unsigned_eq (by omega), Option.bind_some,
    unsigned_eq (by omega), Option.bind_some]
  by_cases hused : required - (s.offset + ((s.height - 1) * s.strideBytes + s.width * 4)) + s.offset + s.width * 4 ≥ fileSize
  · rw [if_pos hused]
    exact hnone
  · rw [if_neg hused]
    rw [minus_eq (by omega), Option.bind_some, minus_eq (by omega), Option.bind_some, minus_eq (by omega), Option.bind_some,
      quotient_eq (by omega), Option.bind_some]
    -- what is left for whole rows is less than all rows but the last
    obtain ⟨rest, hrest⟩ : ∃ rest, rest = fileSize - (required - (s.offset + ((s.height - 1) * s.strideBytes + s.width * 4))) -
        s.offset - s.width * 4 := ⟨_, rfl⟩
    have hless : rest < (s.height - 1) * s.strideBytes := by omega
    rw [← hrest]
    have hfloor : rest / s.strideBytes * s.strideBytes ≤ rest := Nat.div_mul_le_self _ _
    have hfew : rest / s.strideBytes < s.height - 1 := by
      rw [Nat.div_lt_iff_lt_mul (by omega)]
      exact hless
    generalize rest / s.strideBytes = rows at hfloor hfew ⊢
    rw [unsigned_eq (by omega), Option.bind_some, unsigned_eq (by omega), Option.bind_some]
    split
    · exact hnone
    · rw [minus_eq (by omega), Option.bind_some, Nat.add_sub_cancel, unsigned_eq (by omega), Option.bind_some,
        unsigned_eq (by omega), Option.bind_some, signed_eq (by omega), Option.bind_some, unsigned_eq (by omega),
        Option.bind_some]
      split
      · exact hnone
      · split
        · exact hnone
        · rename_i requirements' _ _
          obtain ⟨r, hr, htail⟩ := createTail_eq driver
            { s with gpuRows := rows + 1, imported := s.offset + rows * s.strideBytes + s.width * 4 } h
            (show rows + 1 < s.height by omega)
          rw [hr]
          refine ⟨_, rfl, ?_⟩
          rintro ⟨t, requirements''⟩ ht
          obtain ⟨u, hu, heq⟩ := Option.map_eq_some_iff.1 ht
          obtain ⟨rfl, rfl⟩ := Prod.mk.inj heq
          obtain rfl := htail u hu
          refine ⟨⟨h, hfile, ⟨Nat.succ_le_succ (Nat.zero_le _), by dsimp only; omega⟩, ?_, ?_⟩, rfl, rfl, rfl, rfl⟩
          · dsimp only
            rw [Nat.add_sub_cancel]
          · rw [if_pos (by dsimp only; omega)]
            exact ⟨rfl, rfl⟩

/-- **Where an image is cut**: an imported source has all of its rows in the imported buffer, or the others in its tail. -/
theorem importSource_split (hd : driver.Sound) (h : Fits offset width height strideBytes fileSize) :
    ∃ r, importSource driver offset width height strideBytes fileSize = some r ∧
      ∀ s ∈ r, Split s fileSize ∧ s.offset = offset ∧ s.width = width ∧ s.height = height ∧ s.strideBytes = strideBytes := by
  have hnone : ∃ r, some (none : Option DmaCopySource) = some r ∧ ∀ s ∈ r, Split s fileSize ∧ s.offset = offset ∧
      s.width = width ∧ s.height = height ∧ s.strideBytes = strideBytes :=
    ⟨none, rfl, fun t ht => absurd ht (Option.not_mem_none t)⟩
  have hbind : ∀ {fdProperties : BitVec 32} {s t : DmaCopySource} {requirements : Requirements},
      t ∈ bindSource driver fdProperties s requirements → t = s := by
    intro fdProperties s t requirements ht
    unfold bindSource at ht
    split at ht
    · cases ht
    · split at ht
      · exact (Option.some.inj ht).symm
      · cases ht
  have hrows := h.rows_lt (show height - 1 ≤ height by omega)
  obtain ⟨hwidth, hheight, hstride, haligned, hsmall, hlong⟩ := id h
  unfold importSource
  simp only [Option.bind_eq_bind]
  rw [minus_eq (by omega), Option.bind_some, unsigned_eq (by omega), Option.bind_some, unsigned_eq (by omega), Option.bind_some,
    unsigned_eq (by omega), Option.bind_some, unsigned_eq (by omega), Option.bind_some]
  split
  · exact hnone
  · rename_i hfile
    split
    · exact hnone
    · split
      · rename_i fdProperties requirements _ _ hrequirements
        have hsize := hd.1 _ _ hrequirements
        split
        · -- the driver needs more than there is
          rename_i hlarge
          obtain ⟨r, hr, hcut⟩ := cutRows_split driver requirements
            ⟨offset, 0, width, height, strideBytes, height, offset + (height - 1) * strideBytes + width * 4, none⟩ h
            (by unfold DmaCopySource.bytes; dsimp only; omega) (by unfold DmaCopySource.bytes; dsimp only; omega) hlarge
          have hrequired : offset + (height - 1) * strideBytes + width * 4 = offset + DmaCopySource.bytes
              ⟨offset, 0, width, height, strideBytes, height, offset + (height - 1) * strideBytes + width * 4, none⟩ := by
            unfold DmaCopySource.bytes
            exact Nat.add_assoc _ _ _
          rw [← hrequired] at hr
          rw [hr, Option.bind_some]
          refine ⟨_, rfl, fun s hs => ?_⟩
          obtain ⟨t, ht, hs⟩ := Option.bind_eq_some_iff.1 hs
          obtain rfl := hbind hs
          exact hcut t ht
        · refine ⟨_, rfl, fun s hs => ?_⟩
          obtain rfl := hbind hs
          refine ⟨⟨h, ?_, ⟨hheight, le_rfl⟩, rfl, ?_⟩, rfl, rfl, rfl, rfl⟩
          · unfold DmaCopySource.bytes
            dsimp only
            omega
          · rw [if_neg (lt_irrefl height)]
            exact ⟨rfl, rfl⟩
      · exact hnone

end Import

/-! ## The copies of a rectangle -/

/-- What a run over a rectangle reads, against `pixman_blt`. -/
structure Exact (s : DmaCopySource) (sx sy dx dy width height : Nat) (run : CopyRun) : Prop where
  /-- `pixman_blt` reads inside the mapped pixels. -/
  mapped : ∀ x < width, ∀ y < height, s.pixmanByte (sx + x) (sy + y) + 4 ≤ s.bytes
  /-- Each copy is valid, reads inside its buffer, and reads the bytes that `pixman_blt` reads for the same pixel. -/
  copies : ∀ c ∈ run.copies, c.bufferOffset % 4 = 0 ∧ c.width ≤ c.bufferRowLength ∧
    ∀ x < c.width, ∀ y < c.height, c.byte x y + 4 ≤ s.bufferSize c.tail ∧
      ∃ x' < width, ∃ y' < height, c.imageX + x = dx + x' ∧ c.imageY + y = dy + y' ∧
        s.fileByte c.tail (c.byte x y) = s.offset + s.pixmanByte (sx + x') (sy + y')
  /-- Each pixel of the rectangle is copied, -/
  complete : run.result = .complete → ∀ x < width, ∀ y < height,
    ∃ c ∈ run.copies, ∃ i < c.width, ∃ j < c.height, c.imageX + i = dx + x ∧ c.imageY + j = dy + y
  /-- and none of them twice. -/
  once : run.copies.Pairwise fun c c' => c.imageY + c.height ≤ c'.imageY
  /-- The staged bytes are mapped pixels and fill the tail. -/
  staged : ∀ r ∈ run.staged, r = (s.gpuRows * s.strideBytes, s.tailSize) ∧ r.1 + r.2 ≤ s.bytes ∧ s.tail = some r.2
  fresh : ∀ c ∈ run.copies, c.tail = true → run.staged.isSome

section Rectangle

variable {s : DmaCopySource} {fileSize sx sy dx dy width height : Nat}

theorem word_byte {stride : Nat} (h : stride % 4 = 0) (x y : Nat) : (y * (stride / 4) + x) * 4 = y * stride + x * 4 := by
  obtain ⟨words, rfl⟩ := Nat.dvd_of_mod_eq_zero h
  rw [Nat.mul_div_cancel_left _ (by decide), Nat.add_mul, Nat.mul_assoc, Nat.mul_comm words 4]

/-- Rows up to some row -/
theorem row_le {y rows stride : Nat} (h : y < rows) : y * stride ≤ (rows - 1) * stride := Nat.mul_le_mul_right _ (by omega)

theorem Split.pixman_lt (h : Split s fileSize) {x y : Nat} (hx : x < s.width) (hy : y < s.height) :
    s.pixmanByte x y = y * s.strideBytes + x * 4 ∧ s.pixmanByte x y + 4 ≤ s.bytes := by
  have hbyte : s.pixmanByte x y = y * s.strideBytes + x * 4 := word_byte h.fits.aligned.1 x y
  have hrow : y * s.strideBytes ≤ (s.height - 1) * s.strideBytes := row_le hy
  refine ⟨hbyte, ?_⟩
  rw [hbyte]
  unfold DmaCopySource.bytes
  omega

/-- One copy of a part of the rectangle: rows of the imported buffer or of the tail. -/
theorem recordCopy_exact (h : Split s fileSize) (tail : Bool) (sx sy dx dy width height : Nat) (hw : 0 < width)
    (hx : sx + width ≤ s.width) (hy : sy + height ≤ if tail then s.height else s.gpuRows)
    (hg : tail = true → s.gpuRows ≤ sy ∧ s.gpuRows < s.height) :
    ∃ c, recordCopy s sx sy dx dy width height tail = some c ∧ c.tail = tail ∧ c.imageX = dx ∧ c.imageY = dy ∧
      c.width = width ∧ c.height = height ∧ c.bufferOffset % 4 = 0 ∧ c.width ≤ c.bufferRowLength ∧
      ∀ x < width, ∀ y < height, c.byte x y + 4 ≤ s.bufferSize tail ∧
        s.fileByte tail (c.byte x y) = s.offset + s.pixmanByte (sx + x) (sy + y) := by
  obtain ⟨base, hbase⟩ : ∃ base, base = if tail then s.gpuRows else 0 := ⟨_, rfl⟩
  have hle : base ≤ sy := by
    cases tail with
    | false => exact hbase ▸ Nat.zero_le sy
    | true => exact hbase ▸ (hg rfl).1
  have hrows : sy + height ≤ s.height := by
    cases tail with
    | false => exact hy.trans h.rows.2
    | true => exact hy
  have hline := h.fits.rows_lt (show sy - base ≤ s.height by omega)
  have hmod : (sy - base) * s.strideBytes % 4 = 0 := by rw [Nat.mul_mod, h.fits.aligned.1, Nat.mul_zero]
  obtain ⟨-, -, hstride, haligned, hsmall, hlong⟩ := h.fits
  have hstart : (if tail then 0 else s.offset) % 4 = 0 ∧ (if tail then 0 else s.offset) < 2 ^ 63 := by
    cases tail with
    | false => exact ⟨haligned.2, hlong.1⟩
    | true => exact ⟨rfl, Nat.two_pow_pos 63⟩
  refine ⟨⟨tail, (if tail then 0 else s.offset) + ((sy - base) * s.strideBytes + sx * 4), s.strideBytes / 4, dx, dy, width,
    height⟩, ?_, rfl, rfl, rfl, rfl, rfl, by dsimp only; omega, by dsimp only; omega, fun x hx' y hy' => ?_⟩
  · unfold recordCopy
    simp only [Option.bind_eq_bind]
    rw [← hbase, minus_eq hle, Option.bind_some, unsigned_eq (by omega), Option.bind_some, signed_eq (by omega),
      Option.bind_some, unsigned_eq (by omega), Option.bind_some, unsigned_eq (by omega), Option.bind_some]
    rfl
  · -- the row of the pixel in its buffer
    have hsum : (sy - base) * s.strideBytes + y * s.strideBytes = (sy + y - base) * s.strideBytes := by
      rw [← Nat.add_mul]
      exact congrArg (· * s.strideBytes) (by omega)
    rw [(h.pixman_lt (show sx + x < s.width by omega) (show sy + y < s.height by omega)).1]
    unfold BufferImageCopy.byte
    dsimp only
    rw [word_byte haligned.1]
    cases tail with
    | false =>
      have hrow : (sy + y) * s.strideBytes ≤ (s.gpuRows - 1) * s.strideBytes := row_le (by have : _ ≤ s.gpuRows := hy; omega)
      rw [show base = 0 from hbase] at hsum ⊢
      unfold DmaCopySource.fileByte DmaCopySource.bufferSize
      rw [h.imported]
      simp only [Bool.false_eq_true, if_false, Nat.sub_zero] at hsum ⊢
      omega
    | true =>
      obtain ⟨hcut, hsome⟩ := hg rfl
      have htail := h.tail
      rw [if_pos hsome] at htail
      rw [show base = s.gpuRows from hbase] at hsum ⊢
      have hrow : (sy + y - s.gpuRows) * s.strideBytes ≤ (s.height - s.gpuRows - 1) * s.strideBytes :=
        Nat.mul_le_mul_right _ (by omega)
      have hall : s.gpuRows * s.strideBytes + (sy + y - s.gpuRows) * s.strideBytes = (sy + y) * s.strideBytes := by
        rw [← Nat.add_mul]
        exact congrArg (· * s.strideBytes) (by omega)
      unfold DmaCopySource.fileByte DmaCopySource.bufferSize
      rw [htail.1, htail.2]
      simp only [if_true, Option.getD_some]
      omega

/-- What is staged -/
theorem Split.stage_eq (h : Split s fileSize) {bottom : Nat} (hb : bottom ≤ s.height) :
    ∃ staged, stage s bottom = some staged ∧ (staged.isSome ↔ s.gpuRows < bottom) ∧
      ∀ r ∈ staged, r = (s.gpuRows * s.strideBytes, s.tailSize) ∧ r.1 + r.2 ≤ s.bytes ∧ s.tail = some r.2 := by
  unfold stage
  by_cases hrows : bottom > s.gpuRows
  · have hsmall := h.fits.rows_lt h.rows.2
    have htail := h.tail
    rw [if_pos (by omega)] at htail
    rw [if_pos hrows, unsigned_eq (by omega)]
    refine ⟨_, rfl, iff_of_true rfl hrows, ?_⟩
    rintro r ⟨⟩
    refine ⟨rfl, ?_, htail.1⟩
    have hall : s.gpuRows * s.strideBytes + (s.height - s.gpuRows - 1) * s.strideBytes = (s.height - 1) * s.strideBytes := by
      rw [← Nat.add_mul]
      exact congrArg (· * s.strideBytes) (by omega)
    unfold DmaCopySource.bytes
    rw [htail.2]
    dsimp only
    omega
  · rw [if_neg hrows]
    exact ⟨none, rfl, iff_of_false Bool.false_ne_true hrows, fun r hr => absurd hr (Option.not_mem_none r)⟩

/-- The rectangle is divided at the row where the image is cut. -/
theorem gpuHeight_cases (s : DmaCopySource) (sy height : Nat) :
    gpuHeight s sy height ≤ height ∧ (gpuHeight s sy height ≠ 0 → sy + gpuHeight s sy height ≤ s.gpuRows) ∧
      (gpuHeight s sy height < height → s.gpuRows ≤ sy + gpuHeight s sy height) := by
  unfold gpuHeight
  dsimp only
  split <;> split <;> omega

/-- The rows out of the imported buffer. -/
theorem recordGpu_exact (h : Split s fileSize) (hw : 0 < width) (hx : sx + width ≤ s.width) {rows : Nat}
    (hr : rows ≠ 0 → sy + rows ≤ s.gpuRows) (dx dy : Nat) :
    ∃ copies, recordGpu s sx sy dx dy width rows = some copies ∧
      (∀ c ∈ copies, c.tail = false ∧ c.imageX = dx ∧ c.imageY = dy ∧ c.width = width ∧ c.height = rows ∧
        c.bufferOffset % 4 = 0 ∧ c.width ≤ c.bufferRowLength ∧
        ∀ x < width, ∀ y < rows, c.byte x y + 4 ≤ s.bufferSize c.tail ∧
          s.fileByte c.tail (c.byte x y) = s.offset + s.pixmanByte (sx + x) (sy + y)) ∧
      copies.length ≤ 1 ∧ (rows ≠ 0 → copies ≠ []) := by
  unfold recordGpu
  by_cases hrows : rows ≠ 0
  · obtain ⟨c, hc, htail, hcx, hcy, hcw, hch, hmod, hlength, hbytes⟩ :=
      recordCopy_exact h false sx sy dx dy width rows hw hx (hr hrows) fun e => absurd e Bool.false_ne_true
    rw [if_pos hrows, hc]
    refine ⟨[c], rfl, fun c' hc' => ?_, le_rfl, fun _ => List.cons_ne_nil _ _⟩
    obtain rfl := List.mem_singleton.1 hc'
    exact ⟨htail, hcx, hcy, hcw, hch, hmod, hlength, htail ▸ hbytes⟩
  · rw [if_neg hrows]
    exact ⟨[], rfl, fun c hc => absurd hc List.not_mem_nil, Nat.zero_le _, fun e => absurd e hrows⟩

/-- The rows out of the tail. -/
theorem recordTail_exact (h : Split s fileSize) (hw : 0 < width) (hx : sx + width ≤ s.width) (hy : sy + height ≤ s.height)
    {rows : Nat} (hr : rows < height → s.gpuRows ≤ sy + rows) (hdy : dy + height < 2 ^ 31) (dx : Nat) :
    ∃ copies, recordTail s sx sy dx dy width height rows = some copies ∧
      (∀ c ∈ copies, rows < height ∧ c.tail = true ∧ c.imageX = dx ∧ c.imageY = dy + rows ∧ c.width = width ∧
        rows + c.height = height ∧
        c.bufferOffset % 4 = 0 ∧ c.width ≤ c.bufferRowLength ∧
        ∀ x < width, ∀ y < c.height, c.byte x y + 4 ≤ s.bufferSize c.tail ∧
          s.fileByte c.tail (c.byte x y) = s.offset + s.pixmanByte (sx + x) (sy + rows + y)) ∧
      copies.length ≤ 1 ∧ (rows < height → copies ≠ []) := by
  unfold recordTail
  by_cases hrows : rows < height
  · have hsmall := h.fits.small.2
    have hcut := hr hrows
    obtain ⟨c, hc, htail, hcx, hcy, hcw, hch, hmod, hlength, hbytes⟩ :=
      recordCopy_exact h true sx (sy + rows) dx (dy + rows) width (height - rows) hw hx (by rw [if_pos rfl]; omega)
        fun _ => ⟨hcut, by omega⟩
    rw [if_pos hrows]
    simp only [Option.bind_eq_bind]
    rw [unsigned_eq (by omega), Option.bind_some, signed_eq (by omega), Option.bind_some, unsigned_eq (by omega),
      Option.bind_some, signed_eq (by omega), Option.bind_some, minus_eq hrows.le, Option.bind_some, hc]
    refine ⟨[c], rfl, fun c' hc' => ?_, le_rfl, fun _ => List.cons_ne_nil _ _⟩
    obtain rfl := List.mem_singleton.1 hc'
    exact ⟨hrows, htail, hcx, hcy, hcw, by omega, hmod, hlength, by rw [hch, htail]; exact hbytes⟩
  · rw [if_neg hrows]
    exact ⟨[], rfl, fun c hc => absurd hc List.not_mem_nil, Nat.zero_le _, fun e => absurd e hrows⟩

/-- **A rectangle is copied as `pixman_blt` copies it**, if it is inside the source. -/
theorem copyRect_exact (h : Split s fileSize) (device : Device) (sx sy dx dy width height : Nat) (hw : 0 < width)
    (hh : 0 < height) (hx : sx + width ≤ s.width) (hy : sy + height ≤ s.height) (hdy : dy + height < 2 ^ 31) :
    ∃ run, copyRect device s sx sy dx dy width height = some run ∧ Exact s sx sy dx dy width height run := by
  have hsmall := h.fits.small.2
  obtain ⟨staged, hstage, hsome, hstaged⟩ := h.stage_eq hy
  obtain ⟨hle, hupper, hlower⟩ := gpuHeight_cases s sy height
  generalize hrows : gpuHeight s sy height = rows at hle hupper hlower
  obtain ⟨gpu, hgpu, hgpus, hone, hgpu_ne⟩ := recordGpu_exact h hw hx hupper dx dy
  obtain ⟨tail, htail, htails, hone', htail_ne⟩ := recordTail_exact h hw hx hy hlower hdy dx
  have hmapped : ∀ x < width, ∀ y < height, s.pixmanByte (sx + x) (sy + y) + 4 ≤ s.bytes :=
    fun x hx' y hy' => (h.pixman_lt (by omega) (by omega)).2
  unfold copyRect
  simp only [Option.bind_eq_bind]
  rw [signed_eq (by omega), Option.bind_some, hstage, Option.bind_some]
  split
  · -- nothing is recorded
    refine ⟨_, rfl, hmapped, fun c hc => absurd hc List.not_mem_nil, fun hcomplete => ?_, List.Pairwise.nil, hstaged,
      fun c hc => absurd hc List.not_mem_nil⟩
    cases hidle : device.idle <;> rw [hidle] at hcomplete <;> cases hcomplete
  · rw [hrows, hgpu, Option.bind_some, htail, Option.bind_some]
    refine ⟨_, rfl, hmapped, fun c hc => ?_, fun _ x hx' y hy' => ?_, ?_, hstaged, fun c hc htailed => ?_⟩
    · rcases List.mem_append.1 hc with hc | hc
      · obtain ⟨-, hcx, hcy, hcw, hch, hmod, hlength, hbytes⟩ := hgpus c hc
        refine ⟨hmod, hlength, fun x hx' y hy' => ?_⟩
        rw [hcw] at hx'
        rw [hch] at hy'
        exact ⟨(hbytes x hx' y hy').1, x, hx', y, by omega, by rw [hcx], by rw [hcy], (hbytes x hx' y hy').2⟩
      · obtain ⟨-, -, hcx, hcy, hcw, hch, hmod, hlength, hbytes⟩ := htails c hc
        refine ⟨hmod, hlength, fun x hx' y hy' => ?_⟩
        rw [hcw] at hx'
        obtain ⟨hin, hbyte⟩ := hbytes x hx' y hy'
        exact ⟨hin, x, hx', rows + y, by omega, by rw [hcx], by omega, by rw [hbyte, Nat.add_assoc sy]⟩
    · by_cases hy'' : y < rows
      · obtain ⟨c, hc⟩ := List.exists_mem_of_ne_nil gpu (hgpu_ne (by omega))
        obtain ⟨-, hcx, hcy, hcw, hch, -⟩ := hgpus c hc
        exact ⟨c, List.mem_append_left _ hc, x, by omega, y, by omega, by omega, by omega⟩
      · obtain ⟨c, hc⟩ := List.exists_mem_of_ne_nil tail (htail_ne (by omega))
        obtain ⟨-, -, hcx, hcy, hcw, hch, -⟩ := htails c hc
        exact ⟨c, List.mem_append_right _ hc, x, by omega, y - rows, by omega, by omega, by omega⟩
    · have hsingle : ∀ {l : List BufferImageCopy}, l.length ≤ 1 → l.Pairwise fun c c' => c.imageY + c.height ≤ c'.imageY := by
        intro l hl
        match l, hl with
        | [], _ => exact List.Pairwise.nil
        | [c], _ => exact List.pairwise_singleton _ c
      refine List.pairwise_append.2 ⟨hsingle hone, hsingle hone', fun c hc c' hc' => ?_⟩
      obtain ⟨-, -, hcy, -, hch, -⟩ := hgpus c hc
      obtain ⟨-, -, -, hcy', -⟩ := htails c' hc'
      omega
    · rcases List.mem_append.1 hc with hc | hc
      · exact absurd ((hgpus c hc).1.symm.trans htailed) Bool.false_ne_true
      · have hrest := (htails c hc).1
        exact hsome.2 (by omega)

end Rectangle

/-! ## The functions -/

/-- **The split copy reads the pixels of `pixman_blt`**: whatever the driver needs, the import and every copy end without a wrap.
An imported image is cut between its first and its last row, and each pixel of a rectangle comes from the byte of the file that
`pixman_blt` reads for it, inside the buffer that the copy names. -/
theorem dma_copy_exact (driver : Driver) (hdriver : driver.Sound) (offset : Int64) (width height strideBytes : Int32)
    (pixels : Bool) :
    ∃ imported, dmaCopyImportSource driver offset width height strideBytes pixels = some imported ∧
      ∀ s ∈ imported, (∃ fileSize, driver.fileSize = some fileSize ∧ Split s fileSize.toInt.toNat) ∧
        (s.offset : Int) = offset.toInt ∧ (s.width : Int) = width.toInt ∧ (s.height : Int) = height.toInt ∧
        (s.strideBytes : Int) = strideBytes.toInt ∧
        ∀ (device : Device) (d : DmaCopyDestination) (sx sy dx dy w h : Int32),
          ∃ run, dmaCopyRect device s d sx sy dx dy w h = some run ∧
            (device.ready = true → accepted s d sx.toInt sy.toInt dx.toInt dy.toInt w.toInt h.toInt →
              Exact s sx.toInt.toNat sy.toInt.toNat dx.toInt.toNat dy.toInt.toNat w.toInt.toNat h.toInt.toNat run) ∧
            (¬(device.ready = true ∧ accepted s d sx.toInt sy.toInt dx.toInt dy.toInt w.toInt h.toInt) →
              run = ⟨.declined, none, []⟩) := by
  have hnone : ∀ {P : DmaCopySource → Prop}, ∃ imported, some (none : Option DmaCopySource) = some imported ∧
      ∀ s ∈ imported, P s := ⟨none, rfl, fun s hs => absurd hs (Option.not_mem_none s)⟩
  unfold dmaCopyImportSource
  cases driver.fileSize with
  | none => exact hnone
  | some fileSize =>
    dsimp only
    split
    · exact hnone
    · rename_i hguard
      simp only [not_or, Decidable.not_not] at hguard
      obtain ⟨-, -, hoffset, hoffset', hwidth, hheight, hstride, hstride', hfile⟩ := hguard
      have hbounds := And.intro strideBytes.toInt_lt height.toInt_lt
      have hlong := And.intro offset.toInt_lt fileSize.toInt_lt
      have hfits : Fits offset.toInt.toNat width.toInt.toNat height.toInt.toNat strideBytes.toInt.toNat
          fileSize.toInt.toNat :=
        ⟨by omega, by omega, by omega, by omega, by omega, by omega⟩
      obtain ⟨imported, himported, hsplit⟩ := importSource_split hdriver hfits
      refine ⟨imported, himported, fun s hs => ?_⟩
      obtain ⟨hs, hso, hsw, hsh, hss⟩ := hsplit s hs
      refine ⟨⟨fileSize, rfl, hs⟩, by omega, by omega, by omega, by omega, fun device d sx sy dx dy w h => ?_⟩
      unfold dmaCopyRect
      by_cases hguard : (!device.ready) = true ∨
          ¬accepted s d sx.toInt sy.toInt dx.toInt dy.toInt w.toInt h.toInt
      · rw [if_pos hguard]
        refine ⟨_, rfl, fun hready hrect => ?_, fun _ => rfl⟩
        rcases hguard with hnot | hnot
        · rw [hready] at hnot
          exact absurd hnot (by decide)
        · exact absurd hrect hnot
      · rw [if_neg hguard]
        obtain ⟨hready, hrect⟩ := not_or.1 hguard
        have hrect := Decidable.not_not.1 hrect
        obtain ⟨hsx, hsy, hdx, hdy, hw, hh, hright, hbottom, -, hdbottom⟩ := id hrect
        have hsmall := d.small.2
        obtain ⟨run, hrun, hexact⟩ := copyRect_exact hs device sx.toInt.toNat sy.toInt.toNat dx.toInt.toNat dy.toInt.toNat
          w.toInt.toNat h.toInt.toNat (by omega) (by omega) (by omega) (by omega) (by omega)
        exact ⟨run, hrun, fun _ _ => hexact, fun hnot => absurd ⟨by simpa using hready, hrect⟩ hnot⟩

/-- A driver that wants 64 bytes behind a buffer -/
def paddedDriver : Driver where
  ready := true
  fileSize := some 144
  syncStart := true
  syncEnd := true
  fdProperties := some 1
  calloc := true
  imported := fun size => if size < 2 ^ 63 then some ⟨UInt64.ofNat (size + 64), 1⟩ else none
  tail := fun size => if size < 2 ^ 63 then some ⟨UInt64.ofNat size, 1⟩ else none
  memoryTypes := [hostFlags]
  allocateTail := true
  bindTail := true
  mapTail := true
  dup := true
  allocate := true
  bind := true

theorem paddedDriver_sound : paddedDriver.Sound := by
  refine ⟨fun size r hr => ?_, fun size r hr => ?_⟩
  · obtain ⟨hsize, he⟩ := Option.ite_none_right_eq_some.1 hr
    obtain rfl := Option.some.inj he
    rw [UInt64.toNat_ofNat_of_lt' (by unfold UInt64.size; omega)]
    exact Nat.le_add_right _ _
  · obtain ⟨hsize, he⟩ := Option.ite_none_right_eq_some.1 hr
    obtain rfl := Option.some.inj he
    rw [UInt64.toNat_ofNat_of_lt' (by unfold UInt64.size; omega)]

/-- Two of 4 rows are staged. -/
theorem dma_copy_exact_padded :
    ∃ s, dmaCopyImportSource paddedDriver 16 8 4 32 true = some (some s) ∧ s.gpuRows = 2 ∧ s.tailSize = 64 ∧
      Split s 144 := by
  obtain ⟨imported, himported, hsplit⟩ := dma_copy_exact paddedDriver paddedDriver_sound 16 8 4 32 true
  have hs : dmaCopyImportSource paddedDriver 16 8 4 32 true = some (some ⟨16, 64, 8, 4, 32, 2, 80, some 64⟩) := by decide
  obtain rfl := Option.some.inj (himported.symm.trans hs)
  obtain ⟨⟨fileSize, hfile, hcut⟩, -⟩ := hsplit _ rfl
  obtain rfl := Option.some.inj hfile
  exact ⟨_, hs, rfl, rfl, hcut⟩

end DmaCopy

end Lorie.Buffer
