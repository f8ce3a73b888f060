import Lorie.Present.Copy

/-!
# Where the offloaded copy and the CPU copy agree

- a scheduled copy holds the boxes of the update region, or of the whole pixmap, and the offset cut to 16 bits
  (`schedule_eq_ok`);
- executing it writes the boxes at that offset, cut to the destination buffer (`applyCopy_apply`), and each pixel as it
  stands in the source, whatever the formats of the two buffers (`pixel_copied`);
- it is the CPU copy exactly when the two buffers differ, nothing of it falls outside of the pixmap or of the clip list
  and the offset fits, or when there is nothing to write (`applyCopy_eq_presentCopyRegion`);
- its damage is complete exactly when the update region covers what its translate covers of the clip list
  (`damage_covers`).
-/

namespace Lorie.Present

open Lorie.Lib

/-! ## What is scheduled -/

theorem LorieBuffer.convert_size (convertible : Bool) (b : LorieBuffer) (type : BufferType) :
    (b.convert convertible type).width = b.width ∧ (b.convert convertible type).height = b.height := by
  unfold convert
  split <;> exact ⟨rfl, rfl⟩

/-- A sampleable buffer is the pixmap's, converted or not. -/
theorem lorieEnsureGpuSampleable_id {s : Screen} {p : Pixmap} {type : BufferType} {b : LorieBuffer}
    (h : lorieEnsureGpuSampleable s p type = some b) : ∃ b₀ ∈ p.buffer, b₀.id = b.id := by
  unfold lorieEnsureGpuSampleable at h
  split at h
  · cases h
  · rename_i b₀ hb
    split at h
    · cases h
    · simp only at h
      split at h
      · cases h
        refine ⟨b₀, hb, ?_⟩
        unfold LorieBuffer.convert
        split <;> rfl
      · cases h

/-- A sampleable buffer has the size of its pixmap. -/
theorem lorieEnsureGpuSampleable_size {s : Screen} {p : Pixmap} {type : BufferType} {b : LorieBuffer}
    (h : lorieEnsureGpuSampleable s p type = some b) : b.width = p.width ∧ b.height = p.height := by
  unfold lorieEnsureGpuSampleable at h
  split at h
  · cases h
  · rename_i b₀ hb
    split at h
    · cases h
    · simp only at h
      split at h
      · cases h
        obtain ⟨hw, hh⟩ := LorieBuffer.convert_size s.convertible b₀ type
        rw [hw, hh]
        exact p.fits b₀ hb
      · cases h

namespace Vblank

/-- The offset that is queued. -/
def gpuOffset (v : Vblank) : Point Int := ⟨v.gpuCopyXOff.toInt, v.gpuCopyYOff.toInt⟩

/-- What `lorieTryScheduleGpuCopy` queues when it succeeds. -/
theorem schedule_eq_ok {v : Vblank} {s : Screen} {sc : Scheduled} (h : v.schedule s = .ok sc) :
    sc.request.rects = copyBoxes v.pixmap v.update ∧ sc.request.xOff = v.gpuCopyXOff ∧ sc.request.yOff = v.gpuCopyYOff ∧
      (sc.source.width = v.pixmap.width ∧ sc.source.height = v.pixmap.height) ∧
      sc.target.width = v.window.pixmap.width ∧ sc.target.height = v.window.pixmap.height := by
  unfold schedule lorieTryScheduleGpuCopy at h
  split at h
  · cases h
  split at h
  · cases h
  split at h
  · cases h
  rename_i srcBuffer hsrc
  split at h
  · cases h
  rename_i dstBuffer hdst
  simp only at h
  split at h
  · cases h
  split at h
  · cases h
  cases h
  exact ⟨rfl, rfl, rfl, lorieEnsureGpuSampleable_size hsrc, lorieEnsureGpuSampleable_size hdst⟩

/-- A scheduled copy names one buffer twice exactly when the window is on the presented pixmap. -/
theorem inPlace_iff {v : Vblank} {s : Screen} {sc : Scheduled} (h : v.schedule s = .ok sc) :
    sc.inPlace = true ↔ v.InPlace := by
  unfold schedule lorieTryScheduleGpuCopy at h
  split at h
  · cases h
  split at h
  · cases h
  split at h
  · cases h
  rename_i srcBuffer hsrc
  split at h
  · cases h
  rename_i dstBuffer hdst
  simp only at h
  split at h
  · cases h
  split at h
  · cases h
  cases h
  obtain ⟨b, hb, hid⟩ := lorieEnsureGpuSampleable_id hsrc
  obtain ⟨b', hb', hid'⟩ := lorieEnsureGpuSampleable_id hdst
  rw [Option.mem_def] at hb hb'
  simp only [Scheduled.inPlace, decide_eq_true_eq, InPlace, hb, hb', Option.mem_def, Option.some.injEq, exists_eq_left',
    hid, hid']

/-! ## What a queued copy writes -/

/-- The destination pixels that the queued boxes cover at the queued offset. -/
def GpuWrites (v : Vblank) (p : Point Int) : Prop :=
  v.target.Mem p ∧ Covers ((copyBoxes v.pixmap v.update).map box) (p - v.gpuOffset)

instance (v : Vblank) (p : Point Int) : Decidable (v.GpuWrites p) :=
  inferInstanceAs (Decidable (v.target.Mem p ∧ Covers ((copyBoxes v.pixmap v.update).map box) (p - v.gpuOffset)))

/-- The boxes of a copy are the update region, or the whole pixmap. -/
theorem covers_copyBoxes (v : Vblank) (q : Point Int) : Covers ((copyBoxes v.pixmap v.update).map box) q ↔
    InUpdate v.update q ∧ (v.update = none → (extents v.pixmap.width v.pixmap.height).Mem q) := by
  cases hu : v.update with
  | some update => simp [copyBoxes, InUpdate, RegionRec.boxes]
  | none =>
    have hw : (Int16.ofNat v.pixmap.width).toInt = v.pixmap.width := by
      have := v.pixmap.width_lt
      rw [Int16.toInt_ofNat_of_lt (by omega)]
    have hh : (Int16.ofNat v.pixmap.height).toInt = v.pixmap.height := by
      have := v.pixmap.height_lt
      rw [Int16.toInt_ofNat_of_lt (by omega)]
    simp [copyBoxes, InUpdate, Covers, box, extents, hw, hh]

end Vblank

/-- Exchanging red and blue when the formats differ keeps the bytes of a pixel. -/
theorem pixel_copied (p : Pixel) (src dst : Bool) : ((p.color src).swap (src != dst)).pixel dst = p := by
  cases src <;> cases dst <;> rfl

section Apply

variable {v : Vblank} {s : Screen} {sc : Scheduled}

/-- The draw of a rectangle writes it at the queued offset, within the destination. -/
theorem copyDraw_writes (h : v.schedule s = .ok sc) (rect : LorieGpuCopyRect) (p : Point Int) :
    (copyDraw sc rect).Writes p ↔ v.target.Mem p ∧ (box rect).Mem (p - v.gpuOffset) := by
  obtain ⟨-, hx, hy, -, hw, hh⟩ := Vblank.schedule_eq_ok h
  simp only [LorieGraphicsDraw.Writes, copyDraw, Box.Mem, Vblank.target, extents, box, Vblank.gpuOffset, hx, hy, hw, hh,
    Point.sub_x, Point.sub_y]
  omega

/-- What a queued copy writes, from the presentation. -/
theorem scheduled_writes (h : v.schedule s = .ok sc) (p : Point Int) : sc.Writes p ↔ v.GpuWrites p := by
  obtain ⟨hr, -⟩ := Vblank.schedule_eq_ok h
  simp only [Scheduled.Writes, copyDraw_writes h, Vblank.GpuWrites, Covers, hr, List.mem_map]
  constructor
  · rintro ⟨rect, hmem, ht, hb⟩
    exact ⟨ht, _, ⟨rect, hmem, rfl⟩, hb⟩
  · rintro ⟨ht, _, ⟨rect, hmem, rfl⟩, hb⟩
    exact ⟨rect, hmem, ht, hb⟩

/-- **What executing a queued copy writes.** -/
theorem applyCopy_apply (h : v.schedule s = .ok sc) (unspecified : Point Int → Color) (src dst : Contents) (p : Point Int) :
    applyCopy sc unspecified src dst p = if v.GpuWrites p then
      ((texel sc src unspecified (p - v.gpuOffset)).swap (sc.source.isRgba != sc.target.isRgba)).pixel sc.target.isRgba
    else dst p := by
  obtain ⟨-, hx, hy, -, -⟩ := Vblank.schedule_eq_ok h
  have hpaint : (fun dst rect => draw sc unspecified src (copyDraw sc rect) dst) = paint
      (fun rect p => (copyDraw sc rect).Writes p) (fun p =>
        ((texel sc src unspecified (p - v.gpuOffset)).swap (sc.source.isRgba != sc.target.isRgba)).pixel
          sc.target.isRgba) := by
    funext dst rect p
    have hq : p - ⟨(copyDraw sc rect).x, (copyDraw sc rect).y⟩ + ⟨(copyDraw sc rect).sx, (copyDraw sc rect).sy⟩ =
        p - v.gpuOffset := by
      ext <;> simp [copyDraw, Vblank.gpuOffset, hx, hy] <;> omega
    simp only [draw, paint, hq]
    rfl
  have hany : (∃ rect ∈ sc.request.rects, (copyDraw sc rect).Writes p) ↔ v.GpuWrites p := scheduled_writes h p
  unfold applyCopy
  rw [hpaint, foldl_paint]
  simp only [hany]

/-- Where the texel lies in the image of another buffer, the copy writes its bytes. -/
theorem applyCopy_inside (h : v.schedule s = .ok sc) (hplace : ¬ v.InPlace) (unspecified : Point Int → Color)
    (src dst : Contents) {p : Point Int} (hp : v.GpuWrites p)
    (hq : (extents v.pixmap.width v.pixmap.height).Mem (p - v.gpuOffset)) :
    applyCopy sc unspecified src dst p = src (p - v.gpuOffset) := by
  obtain ⟨-, -, -, ⟨hw, hh⟩, -⟩ := Vblank.schedule_eq_ok h
  have hother : sc.inPlace = false := Bool.eq_false_iff.2 fun e => hplace ((Vblank.inPlace_iff h).1 e)
  rw [applyCopy_apply h, if_pos hp, texel, hw, hh, if_pos ⟨hq, by rw [hother]; rfl⟩, pixel_copied]

/-- A device that extends the image by `src`, and reads it so in place, writes the bytes of `src` everywhere. -/
theorem applyCopy_total (h : v.schedule s = .ok sc) (src dst : Contents) (p : Point Int) :
    applyCopy sc (fun q => (src q).color sc.source.isRgba) src dst p =
      if v.GpuWrites p then src (p - v.gpuOffset) else dst p := by
  rw [applyCopy_apply h]
  by_cases hp : v.GpuWrites p
  · rw [if_pos hp, if_pos hp, texel, ite_self, pixel_copied]
  · rw [if_neg hp, if_neg hp]

/-- In place, a device may write any pixel. -/
theorem applyCopy_inPlace (h : v.schedule s = .ok sc) (hplace : v.InPlace) (pixel : Pixel) (src dst : Contents)
    (p : Point Int) : applyCopy sc (fun _ => pixel.color sc.source.isRgba) src dst p =
      if v.GpuWrites p then pixel else dst p := by
  have hsame : sc.inPlace = true := (Vblank.inPlace_iff h).2 hplace
  rw [applyCopy_apply h]
  by_cases hp : v.GpuWrites p
  · rw [if_pos hp, if_pos hp, texel, if_neg fun e => absurd e.2 (by rw [hsame]; exact Bool.false_ne_true), pixel_copied]
  · rw [if_neg hp, if_neg hp]

end Apply

/-! ## Against the CPU copy -/

namespace Vblank

/-- When the offloaded copy is the CPU copy: the two buffers differ, the offset fits in 16 bits and what the boxes cover of
the destination lies in the pixmap and in the window's clip list, or there is nothing to write on either path. -/
def CopyFits (v : Vblank) : Prop :=
  (¬ v.InPlace ∧ v.gpuOffset = v.offset ∧ ∀ p, v.GpuWrites p →
    (extents v.pixmap.width v.pixmap.height).Mem (p - v.offset) ∧ Covers v.window.clipList.boxes (p + v.origin)) ∨
  ∀ p, ¬ v.GpuWrites p ∧ ¬ v.CpuWrites p

/-- With the same offset the CPU writes no more than the boxes cover. -/
theorem GpuWrites.of_cpuWrites {v : Vblank} (ho : v.gpuOffset = v.offset) {p : Point Int} (h : v.CpuWrites p) :
    v.GpuWrites p := by
  obtain ⟨ht, -, he, hu⟩ := h
  rw [← ho] at he hu
  exact ⟨ht, (v.covers_copyBoxes _).2 ⟨hu, fun _ => he⟩⟩

theorem CpuWrites.of_gpuWrites {v : Vblank} (ho : v.gpuOffset = v.offset) {p : Point Int} (h : v.GpuWrites p)
    (he : (extents v.pixmap.width v.pixmap.height).Mem (p - v.offset))
    (hc : Covers v.window.clipList.boxes (p + v.origin)) : v.CpuWrites p := by
  obtain ⟨ht, hu⟩ := h
  rw [ho] at hu
  exact ⟨ht, hc, he, ((v.covers_copyBoxes _).1 hu).1⟩

end Vblank

section Agree

variable {v : Vblank} {s : Screen} {sc : Scheduled}

/-- Two pixels that differ. -/
def black : Pixel := ⟨0, 0, 0, 0⟩

def white : Pixel := ⟨255, 255, 255, 255⟩

theorem white_ne_black : white ≠ black := by decide

/-- What the two copies give at a pixel when they agree. -/
theorem agree_apply (h : v.schedule s = .ok sc) (heq : v.CopiedAlike sc) (src dst : Contents)
    (hsame : v.InPlace → src = dst) (p : Point Int) : (if v.GpuWrites p then src (p - v.gpuOffset) else dst p) =
      if v.CpuWrites p then src (p - v.offset) else dst p := by
  rw [← applyCopy_total h, heq _ _ _ hsame]
  rfl

/-- Copies in place that agree write nothing. -/
theorem writes_inPlace (h : v.schedule s = .ok sc) (heq : v.CopiedAlike sc) (hplace : v.InPlace) (p : Point Int) :
    ¬ v.GpuWrites p ∧ ¬ v.CpuWrites p := by
  have hg : ∀ p, ¬ v.GpuWrites p := by
    intro p hg
    -- The device writes white, the CPU moves black pixels.
    have hp := congrFun (heq (fun _ => white.color sc.source.isRgba) (fun _ => black) (fun _ => black) fun _ => rfl) p
    rw [applyCopy_inPlace h hplace, if_pos hg, Vblank.presentCopyRegion, ite_self] at hp
    exact white_ne_black hp
  refine ⟨hg p, fun hc => ?_⟩
  by_cases ho : v.gpuOffset = v.offset
  · exact hg p (Vblank.GpuWrites.of_cpuWrites ho hc)
  · -- The offset is cut, so it is not 0, and the CPU moves another pixel to `p`.
    have hne : p - v.offset ≠ p := by
      intro he
      have hx : v.offset.x = 0 := by
        have := congrArg Point.x he
        rw [Point.sub_x] at this
        omega
      have hy : v.offset.y = 0 := by
        have := congrArg Point.y he
        rw [Point.sub_y] at this
        omega
      refine ho (Point.ext ?_ ?_)
      · simp only [Vblank.gpuOffset, Vblank.gpuCopyXOff, hx]
        rfl
      · simp only [Vblank.gpuOffset, Vblank.gpuCopyYOff, hy]
        rfl
    have hp := agree_apply h heq (fun q => if q = p then white else black) _ (fun _ => rfl) p
    rw [if_neg (hg p), if_pos rfl, if_pos hc, if_neg hne] at hp
    exact white_ne_black hp

/-- Copies between two buffers that agree write the same pixels. -/
theorem writes_iff (h : v.schedule s = .ok sc) (heq : v.CopiedAlike sc) (hplace : ¬ v.InPlace) (p : Point Int) :
    v.GpuWrites p ↔ v.CpuWrites p := by
  have hp := agree_apply h heq (fun _ => white) (fun _ => black) (fun e => absurd e hplace) p
  by_cases hg : v.GpuWrites p <;> by_cases hc : v.CpuWrites p
  · exact ⟨fun _ => hc, fun _ => hg⟩
  · rw [if_pos hg, if_neg hc] at hp
    exact absurd hp white_ne_black
  · rw [if_neg hg, if_pos hc] at hp
    exact absurd hp.symm white_ne_black
  · exact ⟨fun hg' => absurd hg' hg, fun hc' => absurd hc' hc⟩

/-- Copies between two buffers that agree, and write some pixel, read the same source pixel for it. -/
theorem gpuOffset_eq (h : v.schedule s = .ok sc) (heq : v.CopiedAlike sc) (hplace : ¬ v.InPlace) {p : Point Int}
    (hg : v.GpuWrites p) (hc : v.CpuWrites p) : v.gpuOffset = v.offset := by
  by_contra hne
  have hq : p - v.gpuOffset ≠ p - v.offset := fun he => hne ((Point.sub_inj p).1 he)
  have hp := agree_apply h heq (fun q => if q = p - v.offset then white else black) (fun _ => black)
    (fun e => absurd e hplace) p
  rw [if_pos hg, if_neg hq, if_pos hc, if_pos rfl] at hp
  exact white_ne_black hp.symm

/-- **The offloaded copy is the CPU copy exactly when it fits**: for every scheduled copy, the renderer writes what
`present_copy_region` writes, on all contents of the buffers, if and only if `CopyFits`. -/
theorem applyCopy_eq_presentCopyRegion (h : v.schedule s = .ok sc) : v.CopiedAlike sc ↔ v.CopyFits := by
  constructor
  · intro heq
    by_cases hplace : v.InPlace
    · exact .inr (writes_inPlace h heq hplace)
    have hw := writes_iff h heq hplace
    by_cases hany : ∃ p, v.GpuWrites p
    · obtain ⟨p₀, hg₀⟩ := hany
      refine .inl ⟨hplace, gpuOffset_eq h heq hplace hg₀ ((hw p₀).1 hg₀), fun p hg => ?_⟩
      obtain ⟨-, hc, he, -⟩ := (hw p).1 hg
      exact ⟨he, hc⟩
    · refine .inr fun p => ?_
      have hg : ¬ v.GpuWrites p := fun hg => hany ⟨p, hg⟩
      exact ⟨hg, fun hc => hg ((hw p).2 hc)⟩
  · rintro (⟨hplace, ho, hin⟩ | hnone) unspecified src dst -
    · funext p
      by_cases hg : v.GpuWrites p
      · obtain ⟨he, hc⟩ := hin p hg
        rw [applyCopy_inside h hplace unspecified src dst hg (by rw [ho]; exact he), Vblank.presentCopyRegion,
          if_pos (Vblank.CpuWrites.of_gpuWrites ho hg he hc), ho]
      · have hc : ¬ v.CpuWrites p := fun hc => hg (Vblank.GpuWrites.of_cpuWrites ho hc)
        rw [applyCopy_apply h, if_neg hg, Vblank.presentCopyRegion, if_neg hc]
    · funext p
      obtain ⟨hg, hc⟩ := hnone p
      rw [applyCopy_apply h, if_neg hg, Vblank.presentCopyRegion, if_neg hc]

end Agree

/-- A pixmap with a shareable buffer, at the origin of the screen. -/
def ahbPixmap (id : UInt64) (width height : Nat) (hw : width < 2 ^ 15) (hh : height < 2 ^ 15) : Pixmap where
  width := width
  height := height
  screen_x := 0
  screen_y := 0
  buffer := some ⟨id, width, height, .ahardwarebuffer, .r8g8b8x8⟩
  mem := false
  width_lt := hw
  height_lt := hh
  fits := by
    rintro b ⟨⟩
    exact ⟨rfl, rfl⟩

/-- A screen whose renderer is ready and whose ring is empty. -/
def readyScreen : Screen where
  gpuPresentDisabled := false
  legacyDrawing := false
  connectionAlive := true
  surfaceAvailable := true
  convertible := true
  writeIndex := 0
  readIndex := 0

/-- A pixmap of two pixels, presented without an update region to a window on the root pixmap of which the right pixel
is covered by a sibling when `visible` is `1`. -/
def twoPixels (visible : Int16) (hv : (0 : Int16) < visible) : Vblank where
  window := ⟨0, 0, ⟨[⟨0, 0, visible, 1⟩], by simpa using hv⟩, ahbPixmap 1 4 4 (by decide) (by decide)⟩
  pixmap := ahbPixmap 2 2 1 (by decide) (by decide)
  update := none
  x_off := 0
  y_off := 0

/-- The two buffers are those of two pixmaps. -/
theorem twoPixels_notInPlace (visible : Int16) (hv : (0 : Int16) < visible) : ¬ (twoPixels visible hv).InPlace := by
  rintro ⟨b, hb, b', hb', hid⟩
  cases hb
  cases hb'
  exact absurd hid (by decide)

/-- A window that is not covered. -/
theorem applyCopy_uncovered : ∃ sc, (twoPixels 2 (by decide)).schedule readyScreen = .ok sc ∧
    (twoPixels 2 (by decide)).CopiedAlike sc := by
  obtain ⟨sc, hsc⟩ : ∃ sc, (twoPixels 2 (by decide)).schedule readyScreen = .ok sc := ⟨_, rfl⟩
  refine ⟨sc, hsc, (applyCopy_eq_presentCopyRegion hsc).2 (.inl ⟨twoPixels_notInPlace _ _, by decide, ?_⟩)⟩
  rintro p ⟨-, b, hb, hp⟩
  obtain rfl : b = ⟨0, 0, 2, 1⟩ := by simpa [twoPixels, copyBoxes, ahbPixmap, box] using hb
  have ho : (twoPixels 2 (by decide)).gpuOffset = ⟨0, 0⟩ := by decide
  have ho' : (twoPixels 2 (by decide)).offset = ⟨0, 0⟩ := by decide
  have hor : (twoPixels 2 (by decide)).origin = ⟨0, 0⟩ := by decide
  rw [ho] at hp
  rw [ho', hor]
  refine ⟨hp, ⟨0, 0, 2, 1⟩, by decide, ?_⟩
  simp only [Box.Mem, Point.sub_x, Point.sub_y, Point.add_x, Point.add_y] at hp ⊢
  omega

/-- The renderer writes the covered pixel, which belongs to the sibling; the CPU does not. -/
theorem applyCopy_covered : ∃ sc, (twoPixels 1 (by decide)).schedule readyScreen = .ok sc ∧
    ¬ (twoPixels 1 (by decide)).CopiedAlike sc := by
  obtain ⟨sc, hsc⟩ : ∃ sc, (twoPixels 1 (by decide)).schedule readyScreen = .ok sc := ⟨_, rfl⟩
  refine ⟨sc, hsc, fun heq => ?_⟩
  have hg : (twoPixels 1 (by decide)).GpuWrites ⟨1, 0⟩ := by decide
  have hc : ¬ (twoPixels 1 (by decide)).CpuWrites ⟨1, 0⟩ := by decide
  exact hc ((writes_iff hsc heq (twoPixels_notInPlace _ _) _).1 hg)

/-! ## Damage -/

section Damage

variable {v : Vblank} {s : Screen} {sc : Scheduled}

/-- **The damage of an offloaded copy is complete exactly when** there is no update region, or the update region as it
stands covers, in screen coordinates, what its translate covers of the destination and of the clip list. -/
theorem damage_covers (h : v.schedule s = .ok sc) :
    (∀ p, sc.Writes p → Covers v.window.clipList.boxes (p + v.origin) → Covers v.damage (p + v.origin)) ↔
      ∀ update, v.update = some update → ∀ p, v.target.Mem p → Covers update.boxes (p - v.gpuOffset) →
        Covers v.window.clipList.boxes (p + v.origin) → Covers update.boxes (p + v.origin) := by
  simp only [scheduled_writes h, Vblank.GpuWrites, Vblank.covers_copyBoxes, Vblank.damage]
  cases hu : v.update with
  | none => simp
  | some update =>
    simp only [covers_inter, InUpdate, reduceCtorEq, false_implies, and_true, Option.some.injEq, forall_eq']
    constructor
    · intro hd p ht hc hclip
      exact (hd p ⟨ht, hc⟩ hclip).1
    · rintro hd p ⟨ht, hc⟩ hclip
      exact ⟨hd p ht hc hclip, hclip⟩

end Damage

/-- A pixmap of two pixels and its whole as the update region, presented to a window at `x`. -/
def updated (x x2 : Int16) (h : x < x2) : Vblank where
  window := ⟨x, 0, ⟨[⟨x, 0, x2, 1⟩], by simpa using h⟩, ahbPixmap 1 16 4 (by decide) (by decide)⟩
  pixmap := ahbPixmap 2 2 1 (by decide) (by decide)
  update := some ⟨[⟨0, 0, 2, 1⟩], by decide⟩
  x_off := 0
  y_off := 0

/-- A window at the origin. -/
theorem damage_origin : ∃ sc, (updated 0 2 (by decide)).schedule readyScreen = .ok sc ∧
    ∀ p, sc.Writes p → Covers (updated 0 2 (by decide)).window.clipList.boxes (p + (updated 0 2 (by decide)).origin) →
      Covers (updated 0 2 (by decide)).damage (p + (updated 0 2 (by decide)).origin) := by
  obtain ⟨sc, hsc⟩ : ∃ sc, (updated 0 2 (by decide)).schedule readyScreen = .ok sc := ⟨_, rfl⟩
  refine ⟨sc, hsc, (damage_covers hsc).2 ?_⟩
  rintro _ ⟨⟩ p - - hclip
  exact hclip

/-- A window to the right of its update region: its first pixel is written and not reported. -/
theorem damage_missing : ∃ sc, (updated 8 10 (by decide)).schedule readyScreen = .ok sc ∧
    ∃ p, sc.Writes p ∧ Covers (updated 8 10 (by decide)).window.clipList.boxes (p + (updated 8 10 (by decide)).origin) ∧
      ¬ Covers (updated 8 10 (by decide)).damage (p + (updated 8 10 (by decide)).origin) := by
  obtain ⟨sc, hsc⟩ : ∃ sc, (updated 8 10 (by decide)).schedule readyScreen = .ok sc := ⟨_, rfl⟩
  refine ⟨sc, hsc, ⟨8, 0⟩, (scheduled_writes hsc _).2 ?_, ?_, ?_⟩
  all_goals decide

end Lorie.Present
