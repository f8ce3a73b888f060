import Lorie.Buffer.Layout

/-!
# What `allocate` makes

Every buffer that another process can see goes through `allocate` (`buffer.c`), in the process that makes it and in the one
that receives it.

- `allocate_iff`: when there is a buffer; `allocate_new`: what is the same in every new one;
- `mapFile_iff`, `within_iff`, `room_iff`: when a file is mapped, in exact integers;
- `allocate_handles`: the descriptor and the hardware buffer are kept or given back.
-/

namespace Lorie.Buffer.Layout

/-! ## The result -/

section Allocate

variable {a : Answers} {id : UInt64} {width stride height : Int32} {format type : UInt8} {buf fd : Option Nat}
  {offset : Int64} {takeFd : Bool} {b c : SharedBuffer} {bytes : UInt64}

/-- The buffer with which `allocate` starts -/
def started (id : UInt64) (width stride height : Int32) (format type : UInt8) (buf fd : Option Nat) (offset : Int64)
    (takeFd : Bool) : SharedBuffer :=
  { refcount := 1
    width := width
    height := height
    stride := stride
    format := format
    type := type
    id := id
    buffer := buf
    data := none
    locked := false
    lockedData := none
    fd := if takeFd then fd else none
    size := 0
    offset := offset
    mapping := none
    dmaBuf := false
    graphicsImage := none }

/-- The storage is there, and the rest of the buffer stays. -/
structure Attached (b c : SharedBuffer) : Prop where
  rest : { c with fd := b.fd, size := b.size, mapping := b.mapping, data := b.data, dmaBuf := b.dmaBuf } = b

theorem Attached.eq (h : Attached b c) :
    c = { b with fd := c.fd, size := c.size, mapping := c.mapping, data := c.data, dmaBuf := c.dmaBuf } := by
  rw [← h.rest]

/-- The buffer in a result -/
def reached : Except SharedBuffer SharedBuffer → SharedBuffer
  | .ok b => b
  | .error b => b

theorem mapFile_attached (a : Answers) (bytes : UInt64) (takeFd : Bool) (b : SharedBuffer) :
    Attached b (reached (a.mapFile bytes takeFd b)) ∧ (takeFd = true → (reached (a.mapFile bytes takeFd b)).fd = b.fd) := by
  unfold Answers.mapFile
  -- the buffer with the descriptor that is mapped
  obtain ⟨b₀, hb₀, hattached, hfd⟩ : ∃ b₀, (if takeFd then b else { b with fd := a.dup }) = b₀ ∧ Attached b b₀ ∧
      (takeFd = true → b₀.fd = b.fd) := by
    cases takeFd with
    | false => exact ⟨_, rfl, ⟨rfl⟩, fun h => by cases h⟩
    | true => exact ⟨b, rfl, ⟨rfl⟩, fun _ => rfl⟩
  rw [hb₀]
  dsimp only
  clear hb₀
  have hrest := hattached.rest
  split
  · exact ⟨hattached, hfd⟩
  · split
    · exact ⟨hattached, hfd⟩
    · split
      · exact ⟨hattached, hfd⟩
      · split
        · exact ⟨hattached, hfd⟩
        · split
          · exact ⟨⟨hrest⟩, hfd⟩
          · split
            · exact ⟨⟨hrest⟩, hfd⟩
            · split <;> exact ⟨⟨hrest⟩, hfd⟩

theorem attach_attached (a : Answers) (type : UInt8) (bytes : UInt64) (takeFd : Bool) (b : SharedBuffer) :
    Attached b (reached (a.attach type bytes takeFd b)) ∧
      (takeFd = true ∨ type ≠ typeFd → (reached (a.attach type bytes takeFd b)).fd = b.fd) := by
  unfold Answers.attach
  split
  · cases a.pixels <;> exact ⟨⟨rfl⟩, fun _ => rfl⟩
  · split
    · rename_i hfd
      obtain ⟨hattached, hkept⟩ := mapFile_attached a bytes takeFd b
      exact ⟨hattached, fun h => hkept (h.resolve_right fun hne => hne hfd)⟩
    · split <;> exact ⟨⟨rfl⟩, fun _ => rfl⟩

/-- A hardware buffer has the shape of its description. -/
theorem describeHardware_iff : a.describeHardware buf b = some c ↔
    (buf.isSome = true ∧ a.describe.layers = 1 ∧ ¬ a.describe.width > 2147483647 ∧ ¬ a.describe.height > 2147483647 ∧
      ¬ a.describe.stride > 2147483647 ∧ ¬ a.describe.format > 255) ∧
    c = { b with
      width := a.describe.width.toInt32
      height := a.describe.height.toInt32
      stride := a.describe.stride.toInt32
      format := a.describe.format.toUInt8 } := by
  unfold Answers.describeHardware
  cases buf with
  | none =>
    refine ⟨fun h => (by cases h), fun h => ?_⟩
    cases h.1.1
  | some buffer =>
    dsimp only
    split
    · rename_i hbad
      refine ⟨fun h => (by cases h), fun h => ?_⟩
      obtain ⟨⟨-, hlayers, hrest⟩, -⟩ := h
      rcases hbad with h | h | h | h | h
      · exact absurd hlayers h
      · exact absurd h hrest.1
      · exact absurd h hrest.2.1
      · exact absurd h hrest.2.2.1
      · exact absurd h hrest.2.2.2
    · rename_i hgood
      simp only [not_or, not_not] at hgood
      refine ⟨fun h => ⟨⟨rfl, hgood⟩, ?_⟩, fun h => ?_⟩
      · cases h
        rfl
      · rw [h.2]

/-- When `allocate` makes a buffer. -/
theorem allocate_iff {released : List Release} :
    a.allocate id width stride height format type buf fd offset takeFd = (some c, released) ↔
      released = [] ∧ a.buffer = true ∧ ∃ b bytes,
        (if type = typeAHardwareBuffer then
          a.describeHardware buf (started id width stride height format type buf fd offset takeFd)
        else some (started id width stride height format type buf fd offset takeFd)) = some b ∧
        b.format ∈ acceptedFormats ∧ lorieBufferLayout a.sizeMax b.width b.stride b.height offset.toUInt64 = some bytes ∧
        a.attach type bytes takeFd b = .ok c := by
  unfold Answers.allocate
  dsimp only
  rw [show SharedBuffer.mk 1 width height stride format type id buf none false none (if takeFd then fd else none) 0 offset
    none false none = started id width stride height format type buf fd offset takeFd from rfl]
  cases hdescribe : (if type = typeAHardwareBuffer then
      a.describeHardware buf (started id width stride height format type buf fd offset takeFd)
    else some (started id width stride height format type buf fd offset takeFd)) with
  | none =>
    refine ⟨fun h => (by cases h), fun h => ?_⟩
    obtain ⟨-, -, b, bytes, hb, -⟩ := h
    cases hb
  | some b =>
    dsimp only
    by_cases hformat : b.format ∈ acceptedFormats
    · rw [if_neg (not_not.2 hformat)]
      cases hlayout : lorieBufferLayout a.sizeMax b.width b.stride b.height offset.toUInt64 with
      | none =>
        refine ⟨fun h => (by cases h), fun h => ?_⟩
        obtain ⟨-, -, b', bytes, hb, -, hl, -⟩ := h
        cases hb
        rw [hlayout] at hl
        cases hl
      | some bytes =>
        dsimp only
        cases hattach : a.attach type bytes takeFd b with
        | error b' =>
          refine ⟨fun h => (by cases h), fun h => ?_⟩
          obtain ⟨-, -, b', bytes', hb, -, hl, hok⟩ := h
          cases hb
          rw [hlayout] at hl
          cases hl
          rw [hattach] at hok
          cases hok
        | ok b' =>
          dsimp only
          constructor
          · intro h
            split at h
            · cases h
              exact ⟨rfl, ‹a.buffer = true›, b, bytes, rfl, hformat, hlayout, hattach⟩
            · cases h
          · rintro ⟨rfl, hbuffer, b₂, bytes', hb, -, hl, hok⟩
            cases hb
            rw [hlayout] at hl
            cases hl
            rw [hattach] at hok
            cases hok
            rw [if_pos hbuffer]
    · rw [if_pos hformat]
      refine ⟨fun h => (by cases h), fun h => ?_⟩
      obtain ⟨-, -, b', bytes, hb, hf, -⟩ := h
      cases hb
      exact absurd hf hformat

/-- What is new in a buffer, whatever its storage is -/
structure New (b : SharedBuffer) : Prop where
  refcount : b.refcount = 1
  locked : b.locked = false
  lockedData : b.lockedData = none
  graphicsImage : b.graphicsImage = none

/-- A buffer that `allocate` makes is new, and is what it was asked for. -/
theorem allocate_new {released : List Release}
    (h : a.allocate id width stride height format type buf fd offset takeFd = (some c, released)) :
    New c ∧ c.id = id ∧ c.type = type ∧ c.offset = offset ∧ c.buffer = buf ∧ (type ≠ typeAHardwareBuffer →
      c.width = width ∧ c.height = height ∧ c.stride = stride ∧ c.format = format) := by
  obtain ⟨-, -, b, bytes, hb, -, -, hok⟩ := allocate_iff.1 h
  have heq := (attach_attached a type bytes takeFd b).1.eq
  rw [hok] at heq
  change c = { b with fd := c.fd, size := c.size, mapping := c.mapping, data := c.data, dmaBuf := c.dmaBuf } at heq
  rw [heq]
  split at hb
  · rename_i htype
    rw [(describeHardware_iff.1 hb).2]
    exact ⟨⟨rfl, rfl, rfl, rfl⟩, rfl, rfl, rfl, rfl, fun hne => absurd htype hne⟩
  · cases hb
    exact ⟨⟨rfl, rfl, rfl, rfl⟩, rfl, rfl, rfl, rfl, fun _ => ⟨rfl, rfl, rfl, rfl⟩⟩

theorem toInt_toInt32 {x : UInt32} (h : ¬ x > 2147483647) : x.toInt32.toInt = x.toNat := by
  rw [gt_iff_lt, UInt32.lt_iff_toNat_lt] at h
  simp only [UInt32.reduceToNat, Nat.not_lt] at h
  have hcond : x.toInt32.toInt = if 2 * x.toNat < 2 ^ 32 then (x.toNat : Int) else x.toNat - (2 ^ 32 : Nat) :=
    BitVec.toInt_eq_toNat_cond _
  rw [if_pos (by omega)] at hcond
  exact hcond

theorem toInt32_of_toNat {x : UInt32} {y : Int32} (h : (x.toNat : Int) = y.toInt) : ¬ x > 2147483647 ∧ x.toInt32 = y := by
  have hlt := y.toInt_lt
  have hle : ¬ x > 2147483647 := by
    rw [gt_iff_lt, UInt32.lt_iff_toNat_lt]
    simp only [UInt32.reduceToNat]
    omega
  exact ⟨hle, Int32.toInt_inj.1 ((toInt_toInt32 hle).trans h)⟩

/-! ## The handles -/

/-- A descriptor or a hardware buffer -/
def isHandle : Release → Bool
  | .close _ | .hardware _ => true
  | _ => false

/-- The descriptor or the hardware buffer of a buffer -/
def owned (b : SharedBuffer) : List Release := (b.fd.map .close).toList ++ (b.buffer.map .hardware).toList

theorem failed_handles (type : UInt8) (buf : Option Nat) (b : SharedBuffer) :
    (Answers.failed type buf b).filter isHandle = (b.fd.map .close).toList ++ (buf.map .hardware).toList := by
  unfold Answers.failed
  rw [List.filter_append, List.filter_append, List.filter_append]
  have hmapping : (b.mapping.map fun m => Release.munmap m.base b.size).toList.filter isHandle = [] := by
    cases b.mapping <;> rfl
  have hdata : (if type = typeRegular then (b.data.map Release.free).toList else []).filter isHandle = [] := by
    split
    · cases b.data <;> rfl
    · rfl
  have hfd : (b.fd.map Release.close).toList.filter isHandle = (b.fd.map Release.close).toList := by
    cases b.fd <;> rfl
  have hbuf : (buf.map Release.hardware).toList.filter isHandle = (buf.map Release.hardware).toList := by
    cases buf <;> rfl
  rw [hmapping, hdata, hfd, hbuf, List.nil_append, List.append_nil]

/-- `allocate` keeps the handles that it took in the buffer, or gives them back. -/
theorem allocate_handles (a : Answers) (id : UInt64) (width stride height : Int32) (format type : UInt8) (buf fd : Option Nat)
    (offset : Int64) (takeFd : Bool) (h : takeFd = true ∨ type ≠ typeFd) :
    (a.allocate id width stride height format type buf fd offset takeFd).1.elim [] owned ++
        (a.allocate id width stride height format type buf fd offset takeFd).2.filter isHandle =
      ((if takeFd then fd else none).map .close).toList ++ (buf.map .hardware).toList := by
  cases hout : a.allocate id width stride height format type buf fd offset takeFd with
  | mk buffer released =>
    have hstarted : ∀ {c}, (if type = typeAHardwareBuffer then
        a.describeHardware buf (started id width stride height format type buf fd offset takeFd)
        else some (started id width stride height format type buf fd offset takeFd)) = some c →
        c.fd = (if takeFd then fd else none) ∧ c.buffer = buf := by
      intro c hc
      split at hc
      · rw [(describeHardware_iff.1 hc).2]
        exact ⟨rfl, rfl⟩
      · cases hc
        exact ⟨rfl, rfl⟩
    cases buffer with
    | some c =>
      obtain ⟨rfl, -, b, bytes, hb, -, -, hok⟩ := allocate_iff.1 hout
      obtain ⟨hattached, hfd⟩ := attach_attached a type bytes takeFd b
      rw [hok] at hattached hfd
      obtain ⟨hbfd, hbbuf⟩ := hstarted hb
      have hbuffer := congrArg SharedBuffer.buffer hattached.eq
      change c.buffer = b.buffer at hbuffer
      show owned c ++ [] = _
      rw [List.append_nil, owned, hbuffer, hbbuf, show c.fd = b.fd from hfd h, hbfd]
    | none =>
      show [] ++ released.filter isHandle = _
      rw [List.nil_append]
      have hreleased : ∃ b, released = Answers.failed type buf b ∧ b.fd = (if takeFd then fd else none) := by
        unfold Answers.allocate at hout
        dsimp only at hout
        rw [show SharedBuffer.mk 1 width height stride format type id buf none false none (if takeFd then fd else none) 0
          offset none false none = started id width stride height format type buf fd offset takeFd from rfl] at hout
        split at hout
        · cases hout
          exact ⟨_, rfl, rfl⟩
        · rename_i b hb
          obtain ⟨hbfd, -⟩ := hstarted hb
          split at hout
          · cases hout
            exact ⟨_, rfl, hbfd⟩
          · split at hout
            · cases hout
              exact ⟨_, rfl, hbfd⟩
            · rename_i bytes hl
              obtain ⟨-, hfd⟩ := attach_attached a type bytes takeFd b
              split at hout
              · rename_i c hc
                cases hout
                rw [hc] at hfd
                exact ⟨c, rfl, (hfd h).trans hbfd⟩
              · rename_i c hc
                rw [hc] at hfd
                split at hout
                · cases hout
                · cases hout
                  exact ⟨c, rfl, (hfd h).trans hbfd⟩
      obtain ⟨b, rfl, hbfd⟩ := hreleased
      rw [failed_handles, hbfd]

/-! ## Files -/

/-- The calls of a process succeed that are not about the buffer itself. -/
structure Succeeds (r : Answers) : Prop where
  page : 0 < r.page.toInt
  mmap : r.mmap.isSome = true
  sync : r.syncStart = true → r.syncEnd = true
  buffer : r.buffer = true

theorem mapFile_iff : (∃ c, a.mapFile bytes takeFd b = .ok c) ↔
    (if takeFd then b.fd else a.dup).isSome = true ∧ a.fstat.isSome = true ∧ ¬ b.offset.toUInt64 + bytes > a.extent ∧
      ¬ a.page ≤ 0 ∧ ¬ bytes > a.sizeMax - (b.offset % a.page).toUInt64 ∧ a.mmap.isSome = true ∧
      (a.syncStart = true → a.syncEnd = true) := by
  unfold Answers.mapFile
  obtain ⟨b₀, hb₀, hoffset, hfd⟩ : ∃ b₀, (if takeFd then b else { b with fd := a.dup }) = b₀ ∧ b₀.offset = b.offset ∧
      b₀.fd = (if takeFd then b.fd else a.dup) := by
    cases takeFd <;> exact ⟨_, rfl, rfl, rfl⟩
  rw [hb₀, ← hoffset, ← hfd]
  dsimp only
  clear hb₀ hoffset hfd
  split
  · rename_i hbad
    refine ⟨fun ⟨c, h⟩ => (by cases h), fun ⟨hsome, hstat, _⟩ => ?_⟩
    rcases hbad with h | h
    · rw [Option.isNone_iff_eq_none.1 h] at hsome
      cases hsome
    · rw [Option.isNone_iff_eq_none.1 h] at hstat
      cases hstat
  · rename_i hgood
    have hsome : b₀.fd.isSome = true := by
      simpa [Option.isSome_iff_ne_none] using (not_or.1 hgood).1
    have hstat : a.fstat.isSome = true := by
      simpa [Option.isSome_iff_ne_none] using (not_or.1 hgood).2
    split
    · exact ⟨fun ⟨c, h⟩ => (by cases h), fun ⟨_, _, h, _⟩ => absurd ‹_› h⟩
    · split
      · exact ⟨fun ⟨c, h⟩ => (by cases h), fun ⟨_, _, _, h, _⟩ => absurd ‹_› h⟩
      · split
        · exact ⟨fun ⟨c, h⟩ => (by cases h), fun ⟨_, _, _, _, h, _⟩ => absurd ‹_› h⟩
        · cases hmmap : a.mmap with
          | none => exact ⟨fun ⟨c, h⟩ => (by cases h), fun ⟨_, _, _, _, _, h, _⟩ => (by cases h)⟩
          | some base =>
            dsimp only
            cases hstart : a.syncStart with
            | false =>
              exact ⟨fun _ => ⟨hsome, hstat, ‹_›, ‹_›, ‹_›, rfl, fun h => by cases h⟩, fun _ => ⟨_, rfl⟩⟩
            | true =>
              cases hend : a.syncEnd with
              | false => exact ⟨fun ⟨c, h⟩ => (by cases h), fun ⟨_, _, _, _, _, _, h⟩ => (by cases h rfl)⟩
              | true => exact ⟨fun _ => ⟨hsome, hstat, ‹_›, ‹_›, ‹_›, rfl, fun _ => rfl⟩, fun _ => ⟨_, rfl⟩⟩

/-- The end of the image in exact integers: the sum does not wrap. -/
theorem within_iff {extent : UInt64} (h : Acceptable a.sizeMax width stride height offset.toUInt64)
    (hbytes : (bytes.toNat : Int) = imageBytes width stride height) :
    ¬ offset.toUInt64 + bytes > extent ↔
      (offset.toUInt64.toNat : Int) + imageBytes width stride height ≤ extent.toNat := by
  obtain ⟨-, -, -, -, -, hmax, hend, -⟩ := h
  rw [gt_iff_lt, UInt64.lt_iff_toNat_lt, UInt64.toNat_add, Nat.mod_eq_of_lt (by omega)]
  omega

/-- The bytes before the image in its page -/
theorem delta_toNat {page : Int64} (hpage : 0 < page.toInt) (h : Acceptable a.sizeMax width stride height offset.toUInt64) :
    ((offset % page).toUInt64.toNat : Int) = offset.toUInt64.toNat % page.toInt := by
  obtain ⟨-, -, -, -, -, hmax, -⟩ := h
  have hoffset := offset_nonneg hmax
  have hmod : (offset % page).toInt = offset.toInt % page.toInt := by
    rw [Int64.toInt_mod, Int.tmod_eq_emod_of_nonneg hoffset]
  rw [toNat_toUInt64 (by rw [hmod]; exact Int.emod_nonneg _ (Int.ne_of_gt hpage)), hmod, ← toNat_toUInt64 hoffset]

theorem room_iff (hpage : 0 < a.page.toInt) (h : Acceptable a.sizeMax width stride height offset.toUInt64)
    (hbytes : (bytes.toNat : Int) = imageBytes width stride height) :
    ¬ bytes > a.sizeMax - (offset % a.page).toUInt64 ↔
      imageBytes width stride height + offset.toUInt64.toNat % a.page.toInt ≤ a.sizeMax.toNat := by
  have hdelta := delta_toNat hpage h
  have hlt := Int.emod_lt_of_pos (offset.toUInt64.toNat : Int) hpage
  have hfits := a.page_le
  rw [gt_iff_lt, UInt64.lt_iff_toNat_lt, UInt64.toNat_sub_of_le _ _ (by rw [UInt64.le_iff_toNat_le]; omega)]
  omega

theorem not_page_iff : ¬ a.page ≤ 0 ↔ 0 < a.page.toInt := by
  rw [Int64.le_iff_toInt_le]
  simp

theorem layout_of_acceptable {sizeMax offset : UInt64} (h : Acceptable sizeMax width stride height offset) :
    ∃ bytes, lorieBufferLayout sizeMax width stride height offset = some bytes := by
  obtain ⟨hw, hh, hws, -, -, -, -, hfits⟩ := id h
  have hrows : 0 ≤ (height.toInt - 1) * stride.toInt := Int.mul_nonneg (by omega) (by omega)
  have hnonneg : 0 ≤ imageBytes width stride height := by
    unfold imageBytes
    omega
  have hmax := sizeMax.toNat_lt
  refine ⟨.ofNat (imageBytes width stride height).toNat, (layout_iff _ _ _ _ _ _).2 ⟨h, ?_⟩⟩
  rw [UInt64.toNat_ofNat_of_lt' (by simp only [UInt64.size]; omega)]
  exact Int.toNat_of_nonneg hnonneg

end Allocate

end Lorie.Buffer.Layout
