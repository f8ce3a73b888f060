import Lorie.Lib.Paint
import Mathlib.Algebra.Group.Nat.Defs
import Mathlib.Order.Nat

/-!
# The storage of a buffer

`LorieBuffer_makeDmaBuf` and `LorieBuffer_convert` move the pixels of a buffer out of the heap into a DMA buffer, shared memory
or a hardware buffer (`buffer.c`, `dma_buffer.h`). Every call that can fail is answered by `Env`, and what the process holds is
in `World`. An access outside of some memory makes the result `none`.

- `Same`, `Opened`, `Mapped`: what the calls leave behind;
- `copyRows_pixels`: the pixels after the loops that copy them;
- `promotion_atomic`: the buffer keeps everything, or has its pixels in the other storage.
-/

namespace Lorie.Buffer

/-! ## What the process holds -/

/-- A number names a piece of memory, and the descriptor, the mapping and the hardware buffer of that memory. -/
structure World where
  /-- The words of 32 bits -/
  memory : Nat → List (BitVec 32)
  /-- Blocks of the heap -/
  blocks : List Nat
  files : List Nat
  mappings : List Nat
  hardware : List Nat
  /-- Hardware buffers that are locked -/
  locked : List Nat
  /-- Not used for anything yet -/
  next : Nat

/-- The answers to the calls. -/
structure Env where
  /-- `ASharedMemory_create`, where it is available -/
  sharedMemory : Bool
  memfd : Bool
  truncate : Bool
  ashmem : Bool
  setName : Bool
  setSize : Bool
  heap : Bool
  heapAlloc : Bool
  mmap : Bool
  syncStart : Bool
  syncEnd : Bool
  /-- `AHardwareBuffer_allocate`, where it is available -/
  hardwareAllocate : Bool
  hardwareLock : Bool
  hardwareUnlock : Bool
  /-- `AHardwareBuffer_describe` -/
  hardwareStride : Nat
  /-- What new memory holds -/
  contents : Nat → BitVec 32
  /-- `SIZE_MAX` -/
  sizeMax : Nat

namespace World

variable (w : World)

def fill (n : Nat) (words : List (BitVec 32)) : World :=
  { w with memory := fun m => if m = n then words else w.memory m }

/-- A new descriptor, with so many bytes of memory -/
def openFile (env : Env) (size : Nat) : World :=
  { w.fill w.next ((List.range (size / 4)).map env.contents) with
    files := w.next :: w.files
    next := w.next + 1 }

/-- `ftruncate`, or `ASHMEM_SET_SIZE` -/
def resize (env : Env) (fd size : Nat) : World := w.fill fd ((List.range (size / 4)).map env.contents)

def close (fd : Nat) : World := { w with files := w.files.erase fd }

/-- `mmap` of all of the memory behind a descriptor -/
def map (fd : Nat) : World := { w with mappings := fd :: w.mappings }

def unmap (data : Nat) : World := { w with mappings := w.mappings.erase data }

def free (data : Nat) : World := { w with blocks := w.blocks.erase data }

/-- `calloc`: a block of so many bytes -/
def calloc (size : Nat) : World :=
  { w.fill w.next (List.replicate (size / 4) 0) with
    blocks := w.next :: w.blocks
    next := w.next + 1 }

/-- `AHardwareBuffer_allocate` -/
def allocateHardware (env : Env) (height : Nat) : World :=
  { w.fill w.next ((List.range (env.hardwareStride * height)).map env.contents) with
    hardware := w.next :: w.hardware
    next := w.next + 1 }

/-- `AHardwareBuffer_release` -/
def releaseHardware (buffer : Nat) : World := { w with hardware := w.hardware.erase buffer }

/-- `AHardwareBuffer_lock` -/
def lockHardware (buffer : Nat) : World := { w with locked := buffer :: w.locked }

/-- `AHardwareBuffer_unlock` -/
def unlockHardware (env : Env) (buffer : Nat) : World :=
  if env.hardwareUnlock then { w with locked := w.locked.erase buffer } else w

end World

/-! ## Buffers -/

/-- `LORIEBUFFER_*` -/
inductive BufferType where
  | unknown
  | regular
  | fd
  | ahardwarebuffer
  deriving DecidableEq, Repr

/-- `LorieBuffer` with its `LorieBuffer_Desc`; no descriptor and no pointer is `none`. -/
structure LorieBuffer where
  refcount : Int
  width : Nat
  height : Nat
  stride : Nat
  format : Nat
  type : BufferType
  id : Nat
  buffer : Option Nat
  data : Option Nat
  locked : Bool
  lockedData : Option Nat
  fd : Option Nat
  size : Nat
  offset : Nat
  mapping : Option Nat
  dmaBuf : Bool
  graphicsImage : Option Nat
  gpuCopyPending : Int
  deriving DecidableEq, Repr

def int32Max : Nat := 2 ^ 31 - 1

/-- A conversion to `int` -/
def int32 (n : Nat) : Option Nat := if n ≤ int32Max then some n else none

def int64Max : Nat := 2 ^ 63 - 1

/-- `AHARDWAREBUFFER_FORMAT_*`: the formats of 32 bits. -/
def formatR8G8B8A8 : Nat := 1
def formatR8G8B8X8 : Nat := 2
def formatB8G8R8A8 : Nat := 5

/-- `lorieBufferLayout`: the bytes of an image -/
def lorieBufferLayout (sizeMax width stride height offset : Nat) : Option Nat :=
  if width = 0 ∨ height = 0 ∨ stride < width ∨ stride > int32Max / 4 ∨ offset % 4 ≠ 0 then none
  else
    let size := ((height - 1) * stride + width) * 4
    if size > sizeMax ∨ offset > int64Max ∨ size > int64Max - offset then none else some size

section Calls

variable (env : Env)

/-- `LorieBuffer_createRegion` -/
def createRegion (size : Nat) (w : World) : Option Nat × World :=
  if env.sharedMemory then (some w.next, w.openFile env size)
  else if env.memfd ∧ env.truncate then (some w.next, (w.openFile env 0).resize env w.next size)
  else
    let w := if env.memfd then (w.openFile env 0).close w.next else w
    if !env.ashmem then (none, w)
    else if !env.setName then (none, (w.openFile env 0).close w.next)
    else if !env.setSize then (none, (w.openFile env 0).close w.next)
    else (some w.next, (w.openFile env 0).resize env w.next size)

/-- `lorieDmaAllocate` -/
def lorieDmaAllocate (size : Nat) (w : World) : Option Nat × World :=
  if size = 0 then (none, w)
  else if !env.heap then (none, w)
  else
    let heap := w.next
    let w := w.openFile env 0
    if env.heapAlloc then (some w.next, (w.openFile env size).close heap) else (none, w.close heap)

end Calls

/-- `memcpy` of so many words -/
def memcpy (source : List (BitVec 32)) (dst src count : Nat) (target : List (BitVec 32)) : Option (List (BitVec 32)) :=
  (List.range count).foldlM (fun target x => do Lib.write target (dst + x) (← source[src + x]?)) target

/-- The rows of an image into memory with another stride: the loop of `makeDmaBuf`, and `pixman_blt` at the origin. -/
def copyRows (source : List (BitVec 32)) (sourceStride targetStride width height : Nat) (target : List (BitVec 32)) :
    Option (List (BitVec 32)) :=
  (List.range height).foldlM (fun target y => memcpy source (y * targetStride) (y * sourceStride) width target) target

namespace LorieBuffer

/-- `LorieBuffer_allocate` of a buffer in the heap: `page` is the size of a page, and `data` and `buffer` tell whether there is
memory for the pixels and for the structure, whose block is not part of `World`. -/
def allocate (sizeMax page : Nat) (data buffer : Bool) (width height format id : Nat) (w : World) :
    Option LorieBuffer × World :=
  match lorieBufferLayout sizeMax width width height 0 with
  | none => (none, w)
  | some size =>
    if size > sizeMax - page then (none, w)
    else if format ≠ formatB8G8R8A8 ∧ format ≠ formatR8G8B8A8 ∧ format ≠ formatR8G8B8X8 then (none, w)
    else if !data then (none, w)
    else
      let pixels := w.next
      let w := w.calloc size
      if !buffer then (none, w.free pixels)
      else
        let b : LorieBuffer :=
          { refcount := 1
            width := width
            height := height
            stride := width
            format := format
            type := .regular
            id := id
            buffer := none
            data := some pixels
            locked := false
            lockedData := none
            fd := none
            size := 0
            offset := 0
            mapping := none
            dmaBuf := false
            graphicsImage := none
            gpuCopyPending := 0 }
        (some b, w)

variable (env : Env) (b : LorieBuffer)

/-- `LorieBuffer_makeDmaBuf` -/
def makeDmaBuf (w : World) : Option (Bool × LorieBuffer × World) :=
  if b.dmaBuf then some (true, b, w)
  else if b.type ≠ .regular ∨ b.refcount ≠ 1 ∨ b.locked ∨ b.graphicsImage.isSome ∨ b.gpuCopyPending ≠ 0 then
    some (false, b, w)
  else if b.width > int32Max / 4 - 63 then some (false, b, w)
  else
    -- `(width + 63) & ~63`
    let stride := (b.width + 63) / 64 * 64
    match lorieBufferLayout env.sizeMax stride stride b.height 0 with
    | none => some (false, b, w)
    | some size =>
      match lorieDmaAllocate env size w with
      | (none, w) => some (false, b, w)
      | (some fd, w) =>
        if !env.mmap then some (false, b, w.close fd)
        else
          let w := w.map fd
          if !env.syncStart then some (false, b, (w.unmap fd).close fd)
          else do
            let data ← b.data
            let pixels ← copyRows (w.memory data) b.stride stride b.width b.height (w.memory fd)
            let w := w.fill fd pixels
            if !env.syncEnd then return (false, b, (w.unmap fd).close fd)
            else
              let switched := { b with
                type := .fd
                data := some fd
                stride := stride
                mapping := some fd
                size := size
                fd := some fd
                dmaBuf := true }
              return (true, switched, w.free data)

/-- `LorieBuffer_convert` -/
def convert (type : BufferType) (format : Nat) (w : World) : Option (LorieBuffer × World) :=
  if b.type ≠ .regular ∨ (type ≠ .fd ∧ type ≠ .ahardwarebuffer) ∨ (format ≠ formatR8G8B8X8 ∧ format ≠ formatB8G8R8A8) then
    some (b, w)
  else if type = .fd then
    match lorieBufferLayout env.sizeMax b.width b.stride b.height 0 with
    | none => some (b, w)
    | some size =>
      match createRegion env size w with
      | (none, w) => some (b, w)
      | (some fd, w) =>
        if !env.mmap then some (b, w.close fd)
        else do
          let w := w.map fd
          let data ← b.data
          let pixels ← copyRows (w.memory data) b.stride b.stride b.width b.height (w.memory fd)
          let switched := { b with
            type := type
            format := format
            fd := some fd
            size := size
            offset := 0
            mapping := some fd
            data := some fd
            lockedData := none
            locked := false }
          return (switched, (w.fill fd pixels).free data)
  else if !env.hardwareAllocate then some (b, w)
  else
    let buffer := w.next
    let w := w.allocateHardware env b.height
    if !env.hardwareLock then some (b, w.releaseHardware buffer)
    else do
      let w := w.lockHardware buffer
      let data ← b.data
      let stride ← int32 env.hardwareStride
      let pixels ← copyRows (w.memory data) b.stride stride b.width b.height (w.memory buffer)
      let w := (w.fill buffer pixels).unlockHardware env buffer
      let switched := { b with
        type := type
        format := format
        stride := stride
        buffer := some buffer
        data := none
        lockedData := none
        locked := false }
      return (switched, w.free data)

/-- The memory with the pixels -/
def storage : Option Nat := if b.type = .ahardwarebuffer then b.buffer else b.data

/-- The pixel in a column and a row -/
def pixel (w : World) (x y : Nat) : Option (BitVec 32) := do
  let storage ← b.storage
  (w.memory storage)[y * b.stride + x]?

end LorieBuffer

/-! ## What the calls leave behind -/

namespace World

variable {env : Env} {w v u : World} {fd n : Nat}

/-- Nothing is held that was not held before, nothing is lost, and the memory is as it was. -/
structure Same (w v : World) : Prop where
  memory : ∀ m < w.next, v.memory m = w.memory m
  blocks : v.blocks = w.blocks
  files : v.files = w.files
  mappings : v.mappings = w.mappings
  hardware : v.hardware = w.hardware
  locked : v.locked = w.locked
  next : w.next ≤ v.next

theorem Same.refl (w : World) : Same w w := ⟨fun _ _ => rfl, rfl, rfl, rfl, rfl, rfl, le_rfl⟩

theorem Same.trans (h : Same w v) (h' : Same v u) : Same w u where
  memory m hm := (h'.memory m (hm.trans_le h.next)).trans (h.memory m hm)
  blocks := h'.blocks.trans h.blocks
  files := h'.files.trans h.files
  mappings := h'.mappings.trans h.mappings
  hardware := h'.hardware.trans h.hardware
  locked := h'.locked.trans h.locked
  next := h.next.trans h'.next

/-- All that is new is a descriptor of so much memory. -/
structure Opened (w v : World) (fd n : Nat) : Prop where
  same : Same w (v.close fd)
  files : v.files = fd :: w.files
  new : w.next ≤ fd
  length : (v.memory fd).length = n

theorem openFile_opened (env : Env) (w : World) (size : Nat) : Opened w (w.openFile env size) w.next (size / 4) where
  same := by
    refine ⟨fun m hm => if_neg hm.ne, rfl, ?_, rfl, rfl, rfl, Nat.le_succ _⟩
    exact List.erase_cons_head _ _
  files := rfl
  new := le_rfl
  length := by simp [openFile, fill]

/-- A descriptor that is closed again. -/
theorem same_openFile (env : Env) (w : World) (size : Nat) : Same w ((w.openFile env size).close w.next) :=
  (openFile_opened env w size).same

theorem resize_opened (env : Env) (w : World) (size : Nat) :
    Opened w ((w.openFile env 0).resize env w.next size) w.next (size / 4) where
  same := by
    refine ⟨fun m hm => (if_neg hm.ne).trans (if_neg hm.ne), rfl, ?_, rfl, rfl, rfl, Nat.le_succ _⟩
    exact List.erase_cons_head _ _
  files := rfl
  new := le_rfl
  length := by simp [resize, fill]

theorem Opened.after (h : Same w v) (h' : Opened v u fd n) : Opened w u fd n where
  same := h.trans h'.same
  files := by rw [h'.files, h.files]
  new := h.next.trans h'.new
  length := h'.length

/-- A call gives a descriptor, or leaves nothing. -/
def Opens (w : World) (n : Nat) (r : Option Nat × World) : Prop :=
  match r with
  | (none, v) => Same w v
  | (some fd, v) => Opened w v fd n

theorem createRegion_opens (env : Env) (size : Nat) (w : World) : Opens w (size / 4) (createRegion env size w) := by
  unfold createRegion
  split
  · exact openFile_opened env w size
  · split
    · exact resize_opened env w size
    · have hmemfd : Same w (if env.memfd then (w.openFile env 0).close w.next else w) := by
        split
        · exact same_openFile env w 0
        · exact .refl w
      generalize (if env.memfd then (w.openFile env 0).close w.next else w) = v at hmemfd
      dsimp only
      split
      · exact hmemfd
      · split
        · exact hmemfd.trans (same_openFile env v 0)
        · split
          · exact hmemfd.trans (same_openFile env v 0)
          · exact (resize_opened env v size).after hmemfd

theorem dmaAllocate_opens (env : Env) (size : Nat) (w : World) : Opens w (size / 4) (lorieDmaAllocate env size w) := by
  unfold lorieDmaAllocate
  split
  · exact .refl w
  · split
    · exact .refl w
    · dsimp only
      split
      · have hopened := openFile_opened env (w.openFile env 0) size
        have hne : w.next ≠ (w.openFile env 0).next := Nat.ne_of_lt (Nat.lt_succ_self _)
        have hfiles : (((w.openFile env 0).openFile env size).close w.next).files = (w.openFile env 0).next :: w.files := by
          show ((w.openFile env 0).next :: w.next :: w.files).erase w.next = _
          rw [List.erase_cons_tail (by simpa using hne.symm), List.erase_cons_head]
        refine ⟨⟨fun m hm => ?_, rfl, ?_, rfl, rfl, rfl, ?_⟩, hfiles, Nat.le_succ _, hopened.length⟩
        · exact (if_neg (by show m ≠ w.next + 1; omega)).trans (if_neg hm.ne)
        · show (((w.openFile env 0).openFile env size).close w.next).files.erase _ = _
          rw [hfiles, List.erase_cons_head]
        · show w.next ≤ w.next + 1 + 1
          omega
      · exact same_openFile env w 0

theorem unmap_map (w : World) (fd : Nat) : (w.map fd).unmap fd = w :=
  congrArg (fun mappings => { w with mappings := mappings }) (List.erase_cons_head _ _)

/-- Pixels in the new memory -/
theorem Opened.fill (h : Opened w v fd n) (words : List (BitVec 32)) : Opened w (v.fill fd words) fd words.length where
  same := by
    refine ⟨fun m hm => (if_neg ?_).trans (h.same.memory m hm), h.same.blocks, h.same.files, h.same.mappings,
      h.same.hardware, h.same.locked, h.same.next⟩
    exact (hm.trans_le h.new).ne
  files := h.files
  new := h.new
  length := congrArg List.length (if_pos rfl)

/-- The memory of the process, but for a block that was freed. -/
structure Freed (w v : World) (data : Nat) : Prop where
  memory : ∀ m < w.next, v.memory m = w.memory m
  blocks : v.blocks = w.blocks.erase data

/-- The descriptor and the mapping are all that is new. -/
structure Mapped (w v : World) (fd : Nat) : Prop where
  files : v.files = fd :: w.files
  mappings : v.mappings = fd :: w.mappings
  hardware : v.hardware = w.hardware
  locked : v.locked = w.locked

theorem Opened.mapped (h : Opened w v fd n) (data : Nat) :
    Freed w ((v.map fd).free data) data ∧ Mapped w ((v.map fd).free data) fd where
  left := ⟨h.same.memory, congrArg (List.erase · data) h.same.blocks⟩
  right := ⟨h.files, congrArg (fd :: ·) h.same.mappings, h.same.hardware, h.same.locked⟩

theorem unlockHardware_frame (env : Env) (w : World) (buffer : Nat) :
    (w.unlockHardware env buffer).memory = w.memory ∧ (w.unlockHardware env buffer).blocks = w.blocks ∧
      (w.unlockHardware env buffer).files = w.files ∧ (w.unlockHardware env buffer).mappings = w.mappings ∧
      (w.unlockHardware env buffer).hardware = w.hardware := by
  unfold unlockHardware
  split
  · exact ⟨rfl, rfl, rfl, rfl, rfl⟩
  · exact ⟨rfl, rfl, rfl, rfl, rfl⟩

end World

/-! ## The pixels -/

section Copy

variable {source target : List (BitVec 32)} {sourceStride targetStride width height : Nat}

/-- A pixel of an image is inside its memory. -/
theorem pixel_lt {stride length x y : Nat} (hl : (height - 1) * stride + width ≤ length) (hx : x < width) (hy : y < height) :
    y * stride + x < length := by
  have hrow : y * stride ≤ (height - 1) * stride := Nat.mul_le_mul_right _ (by omega)
  omega

/-- The word that a position of the target gets. -/
def copied (source : List (BitVec 32)) (sourceStride targetStride i : Nat) : BitVec 32 :=
  source.getD (i / targetStride * sourceStride + i % targetStride) 0

theorem copied_pixel {x y : Nat} (hx : x < targetStride) :
    copied source sourceStride targetStride (y * targetStride + x) = source.getD (y * sourceStride + x) 0 := by
  have hpos : 0 < targetStride := by omega
  unfold copied
  rw [Nat.mul_comm y targetStride, Nat.mul_add_div hpos, Nat.mul_add_mod, Nat.div_eq_of_lt hx, Nat.mod_eq_of_lt hx,
    Nat.add_zero]

theorem memcpy_paints {y : Nat} (hy : y < height) (ht : width ≤ targetStride)
    (hs : (height - 1) * sourceStride + width ≤ source.length) (hn : (height - 1) * targetStride + width ≤ target.length) :
    Lib.Paints target.length (copied source sourceStride targetStride)
      (fun i => ∃ x ∈ List.range width, i = y * targetStride + x)
      fun target => memcpy source (y * targetStride) (y * sourceStride) width target := by
  refine Lib.paints_foldlM fun x hx array hlength => ?_
  have hx := List.mem_range.1 hx
  have hsource := pixel_lt hs hx hy
  have hword : source[y * sourceStride + x]? = some (copied source sourceStride targetStride (y * targetStride + x)) := by
    rw [copied_pixel (hx.trans_le ht), List.getD_eq_getElem?_getD, List.getElem?_eq_getElem hsource]
    rfl
  rw [hword]
  exact Lib.paints_write (pixel_lt hn hx hy) array hlength

/-- **The loops copy every pixel**, and nothing outside of the two images. -/
theorem copyRows_pixels (ht : width ≤ targetStride) (hs : (height - 1) * sourceStride + width ≤ source.length)
    (hn : (height - 1) * targetStride + width ≤ target.length) :
    ∃ pixels, copyRows source sourceStride targetStride width height target = some pixels ∧
      pixels.length = target.length ∧
      ∀ x < width, ∀ y < height, pixels[y * targetStride + x]? = source[y * sourceStride + x]? := by
  obtain ⟨pixels, hpixels, hlength, hin, -⟩ :=
    Lib.paints_foldlM (fun y hy => memcpy_paints (List.mem_range.1 hy) ht hs hn) target rfl
  refine ⟨pixels, hpixels, hlength, fun x hx y hy => ?_⟩
  rw [hin _ ⟨y, List.mem_range.2 hy, x, List.mem_range.2 hx, rfl⟩, copied_pixel (hx.trans_le ht),
    List.getD_eq_getElem?_getD, List.getElem?_eq_getElem (pixel_lt hs hx hy)]
  rfl

end Copy

/-! ## Promotion -/

namespace LorieBuffer

/-- A buffer with its pixels in the heap, as `allocate` makes it. -/
structure Regular (b : LorieBuffer) (data : Nat) (w : World) : Prop where
  type : b.type = .regular
  pointer : b.data = some data
  block : data ∈ w.blocks
  old : data < w.next
  width : 0 < b.width
  height : 0 < b.height
  stride : b.width ≤ b.stride
  limit : b.stride ≤ int32Max / 4
  length : (w.memory data).length = (b.height - 1) * b.stride + b.width
  dmaBuf : b.dmaBuf = false
  offset : b.offset = 0

/-- The buffer has the same pixels in another storage, which it owns, and the block is freed. -/
structure Switched (b : LorieBuffer) (data : Nat) (w : World) (c : LorieBuffer) (v : World) : Prop where
  id : c.id = b.id
  width : c.width = b.width
  height : c.height = b.height
  stride : c.width ≤ c.stride
  pixels : ∀ x < b.width, ∀ y < b.height, c.pixel v x y = b.pixel w x y ∧ (c.pixel v x y).isSome
  freed : World.Freed w v data
  owned : (c.type = .fd ∧ c.offset = 0 ∧ ∃ n, w.next ≤ n ∧ c.fd = some n ∧ c.mapping = some n ∧ c.data = some n ∧
      World.Mapped w v n) ∨
    (c.type = .ahardwarebuffer ∧ c.data = none ∧ ∃ n, w.next ≤ n ∧ c.buffer = some n ∧ v.hardware = n :: w.hardware ∧
      v.files = w.files ∧ v.mappings = w.mappings)

/-- Nothing has changed. -/
def Kept (b : LorieBuffer) (w : World) (c : LorieBuffer) (v : World) : Prop := c = b ∧ World.Same w v

section Promotion

variable {env : Env} {b : LorieBuffer} {data : Nat} {w : World}

theorem Regular.pixel (h : b.Regular data w) {x y : Nat} (hx : x < b.width) (hy : y < b.height) :
    b.pixel w x y = (w.memory data)[y * b.stride + x]? ∧ (b.pixel w x y).isSome := by
  have hpixel : b.pixel w x y = (w.memory data)[y * b.stride + x]? := by
    unfold LorieBuffer.pixel storage
    rw [h.type, if_neg (by decide), h.pointer]
    rfl
  refine ⟨hpixel, ?_⟩
  rw [hpixel, List.getElem?_eq_getElem (pixel_lt h.length.ge hx hy)]
  rfl

/-- The bytes of an image that has a layout. -/
theorem layout_some {sizeMax width stride height size : Nat} (h : lorieBufferLayout sizeMax width stride height 0 = some size) :
    size = ((height - 1) * stride + width) * 4 ∧ 0 < width ∧ 0 < height ∧ width ≤ stride ∧ stride ≤ int32Max / 4 := by
  unfold lorieBufferLayout at h
  split at h
  · cases h
  · rename_i hbad
    dsimp only at h
    split at h
    · cases h
    · refine ⟨(Option.some.inj h).symm, ?_⟩
      omega

/-- A buffer that was allocated in the heap. -/
theorem allocate_regular {sizeMax page : Nat} {pixels buffer : Bool} {width height format id : Nat} {v : World}
    (h : allocate sizeMax page pixels buffer width height format id w = (some b, v)) : b.Regular w.next v := by
  unfold allocate at h
  split at h
  · cases h
  · rename_i size hlayout
    obtain ⟨hsize, hwidth, hheight, hstride, hlimit⟩ := layout_some hlayout
    split at h
    · cases h
    · split at h
      · cases h
      · split at h
        · cases h
        · dsimp only at h
          split at h
          · cases h
          · obtain ⟨hb, rfl⟩ := Prod.mk.inj h
            obtain rfl := Option.some.inj hb
            have hlength : ((w.calloc size).memory w.next).length = (height - 1) * width + width := by
              rw [hsize]
              simp [World.calloc, World.fill]
            exact ⟨rfl, rfl, List.mem_cons_self, Nat.lt_succ_self _, hwidth, hheight, hstride, hlimit, hlength, rfl, rfl⟩

/-- The pixels are copied into new memory. -/
theorem Regular.copy (h : b.Regular data w) {v : World} (hmemory : v.memory data = w.memory data) {n stride : Nat}
    (hs : b.width ≤ stride) (hn : (b.height - 1) * stride + b.width ≤ (v.memory n).length) :
    ∃ pixels, copyRows (v.memory data) b.stride stride b.width b.height (v.memory n) = some pixels ∧
      pixels.length = (v.memory n).length ∧
      ∀ x < b.width, ∀ y < b.height, pixels[y * stride + x]? = b.pixel w x y := by
  obtain ⟨pixels, hpixels, hlength, hcopied⟩ := copyRows_pixels hs h.length.ge hn
  rw [hmemory]
  exact ⟨pixels, hpixels, hlength, fun x hx y hy => (hcopied x hx y hy).trans (h.pixel hx hy).1.symm⟩

/-- The buffer after its pixels were copied behind a descriptor. -/
theorem Regular.switched_fd (h : b.Regular data w) {v : World} {fd n stride : Nat} (hv : World.Opened w v fd n)
    {pixels : List (BitVec 32)} (hs : b.width ≤ stride)
    (hp : ∀ x < b.width, ∀ y < b.height, pixels[y * stride + x]? = b.pixel w x y) {c : LorieBuffer}
    (hid : c.id = b.id ∧ c.width = b.width ∧ c.height = b.height ∧ c.stride = stride)
    (hc : c.type = .fd ∧ c.offset = 0 ∧ c.fd = some fd ∧ c.mapping = some fd ∧ c.data = some fd) :
    Switched b data w c (((v.fill fd pixels).map fd).free data) := by
  obtain ⟨hid, hwidth, hheight, hstride⟩ := hid
  obtain ⟨htype, hoffset, hfd, hmapping, hdata⟩ := hc
  have hfilled := hv.fill pixels
  have hpixel : ∀ x y, c.pixel (((v.fill fd pixels).map fd).free data) x y = pixels[y * stride + x]? := by
    intro x y
    unfold LorieBuffer.pixel storage
    rw [htype, if_neg (by decide), hdata, hstride]
    exact congrArg (fun words : List (BitVec 32) => words[y * stride + x]?) (if_pos rfl)
  refine ⟨hid, hwidth, hheight, by rw [hwidth, hstride]; exact hs, fun x hx y hy => ?_, (hfilled.mapped data).1,
    .inl ⟨htype, hoffset, fd, hv.new, hfd, hmapping, hdata, (hfilled.mapped data).2⟩⟩
  rw [hpixel, hp x hx y hy]
  exact ⟨rfl, (h.pixel hx hy).2⟩

/-- The buffer after its pixels were copied into a hardware buffer. -/
theorem Regular.switched_hardware (env : Env) (h : b.Regular data w) {pixels : List (BitVec 32)}
    (hp : ∀ x < b.width, ∀ y < b.height, pixels[y * env.hardwareStride + x]? = b.pixel w x y)
    (hs : b.width ≤ env.hardwareStride) {c : LorieBuffer}
    (hid : c.id = b.id ∧ c.width = b.width ∧ c.height = b.height ∧ c.stride = env.hardwareStride)
    (hc : c.type = .ahardwarebuffer ∧ c.data = none ∧ c.buffer = some w.next) :
    Switched b data w c (((((w.allocateHardware env b.height).lockHardware w.next).fill w.next pixels).unlockHardware env
      w.next).free data) := by
  obtain ⟨hid, hwidth, hheight, hstride⟩ := hid
  obtain ⟨htype, hdata, hbuffer⟩ := hc
  obtain ⟨hmemory, hblocks, hfiles, hmappings, hhardware⟩ :=
    World.unlockHardware_frame env (((w.allocateHardware env b.height).lockHardware w.next).fill w.next pixels) w.next
  generalize ((((w.allocateHardware env b.height).lockHardware w.next).fill w.next pixels).unlockHardware env w.next) = v
    at hmemory hblocks hfiles hmappings hhardware ⊢
  have hpixel : ∀ x y, c.pixel (v.free data) x y = pixels[y * env.hardwareStride + x]? := by
    intro x y
    unfold LorieBuffer.pixel storage
    rw [htype, if_pos rfl, hbuffer, hstride, show (v.free data).memory = v.memory from rfl, hmemory]
    exact congrArg (fun words : List (BitVec 32) => words[y * env.hardwareStride + x]?) (if_pos rfl)
  refine ⟨hid, hwidth, hheight, by rw [hwidth, hstride]; exact hs, fun x hx y hy => ?_, ⟨fun m hm => ?_, ?_⟩,
    .inr ⟨htype, hdata, w.next, le_rfl, hbuffer, hhardware, hfiles, hmappings⟩⟩
  · rw [hpixel, hp x hx y hy]
    exact ⟨rfl, (h.pixel hx hy).2⟩
  · rw [show (v.free data).memory = v.memory from rfl, hmemory]
    exact (if_neg hm.ne).trans (if_neg hm.ne)
  · exact congrArg (List.erase · data) hblocks

theorem makeDmaBuf_atomic (env : Env) (h : b.Regular data w) :
    ∃ ok c v, b.makeDmaBuf env w = some (ok, c, v) ∧ (ok = false → Kept b w c v) ∧
      (ok = true → Switched b data w c v ∧ c.type = .fd ∧ c.dmaBuf = true ∧ c.format = b.format ∧
        b.refcount = 1 ∧ b.locked = false ∧ b.graphicsImage = none ∧ b.gpuCopyPending = 0) := by
  have hkept : ∀ v, World.Same w v → ∃ ok c u, some (false, b, v) = some (ok, c, u) ∧ (ok = false → Kept b w c u) ∧
      (ok = true → Switched b data w c u ∧ c.type = .fd ∧ c.dmaBuf = true ∧ c.format = b.format ∧
        b.refcount = 1 ∧ b.locked = false ∧ b.graphicsImage = none ∧ b.gpuCopyPending = 0) :=
    fun v hv => ⟨false, b, v, rfl, fun _ => ⟨rfl, hv⟩, fun e => absurd e Bool.false_ne_true⟩
  unfold makeDmaBuf
  rw [h.dmaBuf, if_neg Bool.false_ne_true]
  split
  · exact hkept w (.refl w)
  · rename_i hguard
    split
    · exact hkept w (.refl w)
    · rename_i hsmall
      dsimp only
      have hstride : b.width ≤ (b.width + 63) / 64 * 64 := by omega
      generalize (b.width + 63) / 64 * 64 = stride at hstride ⊢
      cases hlayout : lorieBufferLayout env.sizeMax stride stride b.height 0 with
      | none => exact hkept w (.refl w)
      | some size =>
        dsimp only
        have hopens := World.dmaAllocate_opens env size w
        generalize lorieDmaAllocate env size w = r at hopens ⊢
        match r, hopens with
        | (none, v), hsame => exact hkept v hsame
        | (some fd, v), hopened =>
          dsimp only
          split
          · exact hkept _ hopened.same
          · split
            · rw [World.unmap_map]
              exact hkept _ hopened.same
            · -- the pixels are copied
              have hlength : (v.memory fd).length = (b.height - 1) * stride + stride := by
                rw [hopened.length, (layout_some hlayout).1, Nat.mul_div_cancel _ (by decide)]
              obtain ⟨pixels, hpixels, -, hcopied⟩ := h.copy (v := v.map fd) (hopened.same.memory data h.old) hstride
                (n := fd) (by rw [show (v.map fd).memory fd = v.memory fd from rfl, hlength]; omega)
              rw [h.pointer]
              simp only [Option.bind_eq_bind, Option.bind_some, hpixels]
              split
              · -- the end of the access fails
                refine hkept _ ?_
                rw [show (v.map fd).fill fd pixels = (v.fill fd pixels).map fd from rfl, World.unmap_map]
                exact (hopened.fill pixels).same
              · refine ⟨_, _, _, rfl, fun e => absurd e.symm Bool.false_ne_true, fun _ => ⟨?_, rfl, rfl, rfl, ?_⟩⟩
                · exact h.switched_fd hopened hstride hcopied ⟨rfl, rfl, rfl, rfl⟩ ⟨rfl, h.offset, rfl, rfl, rfl⟩
                · simp only [not_or, not_not, Bool.not_eq_true, Option.isSome_eq_false_iff, Option.isNone_iff_eq_none]
                    at hguard
                  exact hguard.2

theorem convert_atomic (env : Env) (h : b.Regular data w)
    (henv : b.width ≤ env.hardwareStride ∧ env.hardwareStride ≤ int32Max) (type : BufferType) (format : Nat) :
    ∃ c v, b.convert env type format w = some (c, v) ∧
      (Kept b w c v ∨ Switched b data w c v ∧ c.type = type ∧ c.format = format) := by
  have hkept : ∀ v, World.Same w v → ∃ c u, some (b, v) = some (c, u) ∧
      (Kept b w c u ∨ Switched b data w c u ∧ c.type = type ∧ c.format = format) :=
    fun v hv => ⟨b, v, rfl, .inl ⟨rfl, hv⟩⟩
  unfold convert
  split
  · exact hkept w (.refl w)
  · rename_i hguard
    split
    · rename_i htype
      subst htype
      cases hlayout : lorieBufferLayout env.sizeMax b.width b.stride b.height 0 with
      | none => exact hkept w (.refl w)
      | some size =>
        dsimp only
        have hopens := World.createRegion_opens env size w
        generalize createRegion env size w = r at hopens ⊢
        match r, hopens with
        | (none, v), hsame => exact hkept v hsame
        | (some fd, v), hopened =>
          dsimp only
          split
          · exact hkept _ hopened.same
          · have hlength : (v.memory fd).length = (b.height - 1) * b.stride + b.width := by
              rw [hopened.length, (layout_some hlayout).1, Nat.mul_div_cancel _ (by decide)]
            obtain ⟨pixels, hpixels, -, hcopied⟩ := h.copy (v := v.map fd) (hopened.same.memory data h.old) h.stride
              (n := fd) (by rw [show (v.map fd).memory fd = v.memory fd from rfl, hlength])
            rw [h.pointer]
            simp only [Option.bind_eq_bind, Option.bind_some, hpixels]
            exact ⟨_, _, rfl, .inr ⟨h.switched_fd hopened h.stride hcopied ⟨rfl, rfl, rfl, rfl⟩ ⟨rfl, rfl, rfl, rfl, rfl⟩,
              rfl, rfl⟩⟩
    · rename_i htype
      have hhardware : type = .ahardwarebuffer := by
        by_contra hne
        exact hguard (.inr (.inl ⟨htype, hne⟩))
      subst hhardware
      split
      · exact hkept w (.refl w)
      · dsimp only
        have hmemory : ∀ m < w.next, (w.allocateHardware env b.height).memory m = w.memory m := fun m hm => if_neg hm.ne
        split
        · -- the hardware buffer is given back
          refine hkept _ ⟨hmemory, rfl, rfl, rfl, ?_, rfl, Nat.le_succ _⟩
          exact List.erase_cons_head _ _
        · have hlength : ((w.allocateHardware env b.height).memory w.next).length = env.hardwareStride * b.height := by
            simp [World.allocateHardware, World.fill]
          have hrows : (b.height - 1) * env.hardwareStride + b.width ≤ env.hardwareStride * b.height := by
            obtain ⟨rows, hrows⟩ : ∃ k, b.height = k + 1 := ⟨b.height - 1, by have := h.height; omega⟩
            rw [hrows, Nat.add_sub_cancel, Nat.mul_succ, Nat.mul_comm]
            exact Nat.add_le_add_left henv.1 _
          obtain ⟨pixels, hpixels, -, hcopied⟩ := h.copy (v := (w.allocateHardware env b.height).lockHardware w.next)
            (hmemory data h.old) henv.1 (n := w.next) (hrows.trans hlength.ge)
          rw [h.pointer, int32, if_pos henv.2]
          simp only [Option.bind_eq_bind, Option.bind_some, hpixels]
          exact ⟨_, _, rfl, .inr ⟨h.switched_hardware env hcopied henv.1 ⟨rfl, rfl, rfl, rfl⟩ ⟨rfl, rfl, rfl⟩, rfl, rfl⟩⟩

/-- **Promotion is atomic and keeps the picture**: each of the two functions leaves the buffer and what the process holds as
they were, or gives the buffer its pixels in the storage that was asked for. -/
theorem promotion_atomic (env : Env) (b : LorieBuffer) (data : Nat) (w : World) (h : b.Regular data w)
    (henv : b.width ≤ env.hardwareStride ∧ env.hardwareStride ≤ int32Max) :
    (∀ type format, ∃ c v, b.convert env type format w = some (c, v) ∧
      (Kept b w c v ∨ Switched b data w c v ∧ c.type = type ∧ c.format = format)) ∧
    ∃ ok c v, b.makeDmaBuf env w = some (ok, c, v) ∧ (ok = false → Kept b w c v) ∧
      (ok = true → Switched b data w c v ∧ c.type = .fd ∧ c.dmaBuf = true ∧ c.format = b.format ∧
        b.refcount = 1 ∧ b.locked = false ∧ b.graphicsImage = none ∧ b.gpuCopyPending = 0) :=
  ⟨fun type format => convert_atomic env h henv type format, makeDmaBuf_atomic env h⟩

end Promotion

/-! ## A small buffer -/

/-- A buffer of 2 by 2 pixels -/
def smallBuffer : LorieBuffer where
  refcount := 1
  width := 2
  height := 2
  stride := 2
  format := formatB8G8R8A8
  type := .regular
  id := 7
  buffer := none
  data := some 0
  locked := false
  lockedData := none
  fd := none
  size := 0
  offset := 0
  mapping := none
  dmaBuf := false
  graphicsImage := none
  gpuCopyPending := 0

def smallWorld : World where
  memory := fun n => if n = 0 then [1, 2, 3, 4] else []
  blocks := [0]
  files := []
  mappings := []
  hardware := []
  locked := []
  next := 1

/-- Only the DMA heap fails. -/
def smallEnv : Env where
  sharedMemory := true
  memfd := true
  truncate := true
  ashmem := true
  setName := true
  setSize := true
  heap := false
  heapAlloc := false
  mmap := true
  syncStart := true
  syncEnd := true
  hardwareAllocate := true
  hardwareLock := true
  hardwareUnlock := true
  hardwareStride := 3
  contents := fun _ => 0
  sizeMax := 2 ^ 64 - 1

theorem smallBuffer_regular : smallBuffer.Regular 0 smallWorld where
  type := rfl
  pointer := rfl
  block := List.mem_cons_self
  old := Nat.zero_lt_one
  width := by decide
  height := by decide
  stride := by decide
  limit := by decide
  length := by decide
  dmaBuf := rfl
  offset := rfl

/-- The pixels move to a hardware buffer with a stride of 3. -/
theorem promotion_atomic_small : ∃ c v, smallBuffer.convert smallEnv .ahardwarebuffer formatB8G8R8A8 smallWorld = some (c, v) ∧
    (Kept smallBuffer smallWorld c v ∨ Switched smallBuffer 0 smallWorld c v ∧ c.type = .ahardwarebuffer ∧
      c.format = formatB8G8R8A8) :=
  (promotion_atomic smallEnv smallBuffer 0 smallWorld smallBuffer_regular (by decide)).1 _ _

example : (smallBuffer.convert smallEnv .ahardwarebuffer formatB8G8R8A8 smallWorld).map
    (fun r => (r.1.stride, r.2.memory 1, r.2.blocks, r.2.hardware)) = some (3, [1, 2, 0, 3, 4, 0], [], [1]) := by decide

end LorieBuffer

end Lorie.Buffer
