import Lorie.Buffer.Storage

/-!
# The mapping of one pixmap

A pixmap keeps the address at which its buffer is mapped for the CPU (`priv->locked`), and the functions that lock, unlock or
replace the storage of the buffer write it down by hand (`InitOutput.c`, `buffer.c`).

- `LorieBuffer.lock`, `LorieBuffer.unlock`: the buffer has an address exactly while it is locked (`LorieBuffer.Sound`);
- `LoriePixmapPriv.Sound`: the pixmap has the address of its buffer;
- `Keeps`: what every function leaves behind; `lorieFdsFromPixmap` only where the unlock does not fail (`Unlocks`).
-/

namespace Lorie.Buffer

/-! ## Locking a buffer -/

namespace LorieBuffer

/-- `LorieBuffer_lock`: the buffer, whether it returns 0, and `*out`. `mapped` tells whether the call of DMA-BUF or of the
hardware buffer succeeds, and where it maps a hardware buffer. -/
def lock (b : LorieBuffer) (mapped : Option Nat) : LorieBuffer × Bool × Option Nat :=
  if b.locked then (b, false, b.lockedData)
  else
    let lockedData : Option (Option Nat) :=
      if b.dmaBuf then mapped.map fun _ => b.data
      else if b.type = .regular ∨ b.type = .fd then some b.data
      else if b.type = .ahardwarebuffer then mapped.map some
      else some b.lockedData
    match lockedData with
    | none => ({ b with lockedData := none }, false, none)
    | some lockedData => ({ b with lockedData := lockedData, locked := true }, true, lockedData)

/-- `LorieBuffer_unlock`, and whether it returns 0; `ok`: the call of DMA-BUF or of the hardware buffer succeeds. -/
def unlock (b : LorieBuffer) (ok : Bool) : LorieBuffer × Bool :=
  if !b.locked then (b, false)
  else ({ b with lockedData := none, locked := false }, if b.dmaBuf ∨ b.type = .ahardwarebuffer then ok else true)

/-- A buffer that has an address exactly while it is locked. -/
structure Sound (b : LorieBuffer) : Prop where
  locked : b.locked = b.lockedData.isSome
  known : b.type ≠ .unknown
  data : b.type ≠ .ahardwarebuffer → b.data.isSome = true
  dmaBuf : b.dmaBuf = true → b.type = .fd

/-- A buffer as it is made -/
def Fresh (b : LorieBuffer) : Prop :=
  b.locked = false ∧ b.lockedData = none ∧ b.type ≠ .unknown ∧ (b.type = .ahardwarebuffer ∨ b.data.isSome = true) ∧
    (b.dmaBuf = true → b.type = .fd)

instance (b : LorieBuffer) : Decidable b.Fresh :=
  inferInstanceAs (Decidable (b.locked = false ∧ b.lockedData = none ∧ b.type ≠ .unknown ∧
    (b.type = .ahardwarebuffer ∨ b.data.isSome = true) ∧ (b.dmaBuf = true → b.type = .fd)))

variable {b : LorieBuffer}

theorem Fresh.sound (h : b.Fresh) : b.Sound where
  locked := by rw [h.1, h.2.1]; rfl
  known := h.2.2.1
  data := h.2.2.2.1.resolve_left
  dmaBuf := h.2.2.2.2

/-- `*out` is the address of the buffer afterwards, also when the lock fails. -/
theorem lock_sound (h : b.Sound) (mapped : Option Nat) :
    (b.lock mapped).1.Sound ∧ (b.lock mapped).2.2 = (b.lock mapped).1.lockedData := by
  unfold lock
  by_cases hl : b.locked = true
  · rw [if_pos hl]
    exact ⟨h, rfl⟩
  · rw [if_neg hl]
    have hfail : LorieBuffer.Sound { b with lockedData := none } :=
      ⟨(Bool.not_eq_true _).mp hl, h.known, h.data, h.dmaBuf⟩
    have hdone : ∀ address : Nat, LorieBuffer.Sound { b with lockedData := some address, locked := true } := fun _ =>
      ⟨rfl, h.known, h.data, h.dmaBuf⟩
    have hdata : b.type ≠ .ahardwarebuffer → LorieBuffer.Sound { b with lockedData := b.data, locked := true } := fun ht =>
      ⟨(h.data ht).symm, h.known, h.data, h.dmaBuf⟩
    dsimp only
    by_cases hd : b.dmaBuf = true
    · rw [if_pos hd]
      cases mapped with
      | none => exact ⟨hfail, rfl⟩
      | some _ => exact ⟨hdata (by rw [h.dmaBuf hd]; decide), rfl⟩
    · rw [if_neg hd]
      by_cases ht : b.type = .ahardwarebuffer
      · rw [if_neg (by rw [ht]; decide), if_pos ht]
        cases mapped with
        | none => exact ⟨hfail, rfl⟩
        | some address => exact ⟨hdone address, rfl⟩
      · have hother : b.type = .regular ∨ b.type = .fd := by
          have hknown := h.known
          cases hb : b.type <;> simp_all
        rw [if_pos hother]
        exact ⟨hdata ht, rfl⟩

theorem lock_ok {mapped : Option Nat} (h : (b.lock mapped).2.1 = true) : b.locked = false := by
  unfold lock at h
  split at h
  · cases h
  · exact (Bool.not_eq_true _).mp ‹_›

theorem unlock_sound (h : b.Sound) (ok : Bool) : (b.unlock ok).1.Sound ∧ (b.unlock ok).1.lockedData = none := by
  unfold unlock
  by_cases hl : b.locked = true
  · rw [if_neg (by simp [hl])]
    exact ⟨⟨rfl, h.known, h.data, h.dmaBuf⟩, rfl⟩
  · rw [if_pos (by simpa using hl)]
    refine ⟨h, Option.isNone_iff_eq_none.1 ?_⟩
    rw [← Option.not_isSome, ← h.locked]
    simpa using hl

theorem convert_sound {env : Env} {type : BufferType} {format : Nat} {w v : World} {c : LorieBuffer} (h : b.Sound)
    (hc : b.convert env type format w = some (c, v)) : c.Sound ∧ (c.type = .regular → c = b) := by
  have hkept : ∀ {u : World}, some (b, u) = some (c, v) → c.Sound ∧ (c.type = .regular → c = b) := by
    intro u hu
    cases hu
    exact ⟨h, fun _ => rfl⟩
  unfold convert at hc
  split at hc
  · exact hkept hc
  · rename_i hg
    have hregular : b.type = .regular := not_not.1 (not_or.1 hg).1
    have hdma : b.dmaBuf ≠ true := fun hd => by
      rw [h.dmaBuf hd] at hregular
      cases hregular
    split at hc
    · rename_i hfd
      subst hfd
      split at hc
      · exact hkept hc
      · split at hc
        · exact hkept hc
        · split at hc
          · exact hkept hc
          · obtain ⟨data, -, hc⟩ := Option.bind_eq_some_iff.1 hc
            obtain ⟨pixels, -, hc⟩ := Option.bind_eq_some_iff.1 hc
            cases hc
            exact ⟨⟨rfl, fun e => (by cases e), fun _ => rfl, fun _ => rfl⟩, fun ht => by cases ht⟩
    · rename_i hne
      split at hc
      · exact hkept hc
      · dsimp only at hc
        split at hc
        · exact hkept hc
        · obtain ⟨data, -, hc⟩ := Option.bind_eq_some_iff.1 hc
          obtain ⟨stride, -, hc⟩ := Option.bind_eq_some_iff.1 hc
          obtain ⟨pixels, -, hc⟩ := Option.bind_eq_some_iff.1 hc
          cases hc
          have htype : type = .ahardwarebuffer := by
            have hkind := (not_or.1 (not_or.1 hg).2).1
            exact not_not.1 fun ha => hkind ⟨hne, ha⟩
          subst htype
          exact ⟨⟨rfl, fun e => (by cases e), fun ht => absurd rfl ht, fun hd => absurd hd hdma⟩, fun ht => by cases ht⟩

theorem makeDmaBuf_sound {env : Env} {w v : World} {c : LorieBuffer} {ok : Bool} (h : b.Sound)
    (hc : b.makeDmaBuf env w = some (ok, c, v)) : c.Sound ∧ c.lockedData = b.lockedData ∧ (ok = false → c = b) := by
  have hkept : ∀ {o : Bool} {u : World}, some (o, b, u) = some (ok, c, v) →
      c.Sound ∧ c.lockedData = b.lockedData ∧ (ok = false → c = b) := by
    intro o u hu
    cases hu
    exact ⟨h, rfl, fun _ => rfl⟩
  unfold makeDmaBuf at hc
  split at hc
  · exact hkept hc
  · split at hc
    · exact hkept hc
    · split at hc
      · exact hkept hc
      · dsimp only at hc
        split at hc
        · exact hkept hc
        · split at hc
          · exact hkept hc
          · split at hc
            · exact hkept hc
            · split at hc
              · exact hkept hc
              · obtain ⟨data, -, hc⟩ := Option.bind_eq_some_iff.1 hc
                obtain ⟨pixels, -, hc⟩ := Option.bind_eq_some_iff.1 hc
                split at hc
                · exact hkept hc
                · cases hc
                  exact ⟨⟨h.locked, fun e => (by cases e), fun _ => rfl, fun _ => rfl⟩, rfl, fun e => by cases e⟩

end LorieBuffer

/-! ## Pixmaps -/

/-- The answers to the calls in a function: to `LorieBuffer_convert` and `LorieBuffer_makeDmaBuf`, to the lock after a
conversion, to an unlock, and to the last lock. -/
structure Answers where
  env : Env
  converted : Option Nat
  unlocked : Bool
  mapped : Option Nat

/-- `LoriePixmapPriv`; `mem` tells whether there is other memory. -/
structure LoriePixmapPriv where
  buffer : Option LorieBuffer
  locked : Option Nat
  mem : Bool
  wasLocked : Bool
  imported : Bool
  outputExported : Bool
  accessGpuLocked : Bool
  deriving DecidableEq, Repr

namespace LoriePixmapPriv

/-- Without a buffer -/
def empty : LoriePixmapPriv :=
  { buffer := none
    locked := none
    mem := false
    wasLocked := false
    imported := false
    outputExported := false
    accessGpuLocked := false }

variable (priv : LoriePixmapPriv)

def withBuffer (b : LorieBuffer) : LoriePixmapPriv := { priv with buffer := some b }

/-- The counts of the buffer change by so much. -/
def refer (references pending : Int) : LoriePixmapPriv :=
  { priv with buffer := priv.buffer.map fun b =>
      { b with refcount := b.refcount + references, gpuCopyPending := b.gpuCopyPending + pending } }

/-- `LorieBuffer_lock(priv->buffer, &priv->locked)`, and whether it returns 0 -/
def lockBuffer (mapped : Option Nat) : LoriePixmapPriv × Bool :=
  match priv.buffer with
  | none => ({ priv with locked := none }, false)
  | some b =>
    let (b, ok, out) := b.lock mapped
    ({ priv with buffer := some b, locked := out }, ok)

/-- `LorieBuffer_unlock(priv->buffer)`, and whether it returns 0 -/
def unlockBuffer (ok : Bool) : LoriePixmapPriv × Bool :=
  match priv.buffer with
  | none => (priv, false)
  | some b =>
    let (b, ok) := b.unlock ok
    ({ priv with buffer := some b }, ok)

/-- `LorieBuffer_unlock(priv->buffer); priv->locked = NULL;` -/
def unmap (ok : Bool) : LoriePixmapPriv := { (priv.unlockBuffer ok).1 with locked := none }

/-- `if (priv->locked) { LorieBuffer_unlock(..); if (LorieBuffer_lock(.., &priv->locked)) FatalError(..); }` -/
def relock (a : Answers) : Option LoriePixmapPriv :=
  if priv.locked.isSome then
    let (priv, ok) := (priv.unlockBuffer a.unlocked).1.lockBuffer a.mapped
    if ok then some priv else none
  else some priv

/-- `lorieEnsureGpuSampleable`, and whether it returns the buffer -/
def lorieEnsureGpuSampleable (type : BufferType) (a : Answers) (w : World) : Option (Bool × LoriePixmapPriv × World) :=
  match priv.buffer with
  | none => some (false, priv, w)
  | some b =>
    if priv.mem then some (false, priv, w)
    else if b.type = .regular then do
      let (b, w) ← b.convert a.env type formatR8G8B8X8 w
      let priv := { priv with buffer := some b }
      -- `LorieBuffer_convert` does not let the type change in the case of error.
      let priv := if b.type ≠ .regular then (priv.lockBuffer a.converted).1 else priv
      some (b.type = type, priv, w)
    else some (b.type = type, priv, w)

/-- `lorieExportPixmap` -/
def lorieExportPixmap (type : BufferType) (a : Answers) (w : World) : Option (LoriePixmapPriv × World) :=
  let buffer := if priv.buffer.any (·.dmaBuf) then some (true, priv, w) else priv.lorieEnsureGpuSampleable type a w
  buffer.bind fun (exported, priv, w) =>
    if exported then ({ priv with outputExported := true }.relock a).map fun priv => (priv, w) else some (priv, w)

/-- `lorieFdsFromPixmap` after the buffer is unlocked; `locked`: it was locked. -/
def promote (locked : Bool) (a : Answers) (w : World) : Option (LoriePixmapPriv × World) := do
  let b ← priv.buffer
  let (made, b, w) ← b.makeDmaBuf a.env w
  let priv := { priv with buffer := some b }
  if !made ∧ locked then
    let (priv, ok) := priv.lockBuffer a.mapped
    if ok then some (priv, w) else none
  else some (priv, w)

/-- `lorieFdsFromPixmap`; `layout`: the pixmap has 32 bits and a depth of 24 or 32. -/
def lorieFdsFromPixmap (layout : Bool) (a : Answers) (w : World) : Option (LoriePixmapPriv × World) :=
  if priv.buffer.isNone ∨ priv.mem ∨ !layout then some (priv, w)
  else if priv.locked.isSome then
    let (priv, ok) := priv.unlockBuffer a.unlocked
    -- The address is still there when the unlock fails.
    if !ok then some (priv, w) else { priv with locked := none }.promote true a w
  else priv.promote false a w

/-! ### The address of the buffer -/

/-- The pixmap has the address of its buffer. -/
structure Sound : Prop where
  locked : priv.locked = priv.buffer.bind (·.lockedData)
  buffer : ∀ b ∈ priv.buffer, b.Sound

/-- What a function leaves behind that does not begin or end an access -/
structure Keeps (t : LoriePixmapPriv) : Prop where
  sound : t.Sound
  accessGpuLocked : t.accessGpuLocked = priv.accessGpuLocked

variable {priv} {t : LoriePixmapPriv} {a : Answers} {w v : World}

theorem Sound.keeps (h : priv.Sound) : priv.Keeps priv := ⟨h, rfl⟩

theorem Keeps.trans {u : LoriePixmapPriv} (h₁ : priv.Keeps t) (h₂ : t.Keeps u) : priv.Keeps u :=
  ⟨h₂.sound, h₂.accessGpuLocked.trans h₁.accessGpuLocked⟩

/-- The address is that of the buffer, whatever it was before. -/
theorem lockBuffer_keeps (h : ∀ b ∈ priv.buffer, b.Sound) (mapped : Option Nat) :
    priv.Keeps (priv.lockBuffer mapped).1 := by
  unfold lockBuffer
  split
  · rename_i hb
    refine ⟨⟨?_, h⟩, rfl⟩
    dsimp only
    rw [hb]
    rfl
  · rename_i b hb
    obtain ⟨hsound, hout⟩ := LorieBuffer.lock_sound (h b hb) mapped
    refine ⟨⟨hout, fun c hc => ?_⟩, rfl⟩
    cases hc
    exact hsound

theorem unlockBuffer_buffer (h : ∀ b ∈ priv.buffer, b.Sound) (ok : Bool) :
    ∀ b ∈ (priv.unlockBuffer ok).1.buffer, b.Sound ∧ b.lockedData = none := by
  unfold unlockBuffer
  intro c hc
  split at hc
  · rename_i hb
    rw [hb] at hc
    cases hc
  · rename_i b hb
    cases hc
    exact LorieBuffer.unlock_sound (h b hb) ok

theorem unlockBuffer_accessGpuLocked (ok : Bool) : (priv.unlockBuffer ok).1.accessGpuLocked = priv.accessGpuLocked := by
  unfold unlockBuffer
  split <;> rfl

theorem unmap_keeps (h : ∀ b ∈ priv.buffer, b.Sound) (ok : Bool) : priv.Keeps (priv.unmap ok) := by
  have hbuffer := unlockBuffer_buffer h ok
  refine ⟨⟨?_, fun b hb => (hbuffer b hb).1⟩, unlockBuffer_accessGpuLocked ok⟩
  show none = (priv.unlockBuffer ok).1.buffer.bind (·.lockedData)
  cases hb : (priv.unlockBuffer ok).1.buffer with
  | none => rfl
  | some b => exact (hbuffer b hb).2.symm

theorem refer_keeps (h : priv.Sound) (references pending : Int) : priv.Keeps (priv.refer references pending) := by
  refine ⟨⟨?_, fun c hc => ?_⟩, rfl⟩
  · show priv.locked = (priv.buffer.map _).bind _
    rw [h.locked]
    cases priv.buffer <;> rfl
  · obtain ⟨b, hb, rfl⟩ := Option.map_eq_some_iff.1 hc
    have hsound := h.buffer b hb
    exact ⟨hsound.locked, hsound.known, hsound.data, hsound.dmaBuf⟩

/-- The buffer is locked for the function only: it was not locked before. -/
theorem lock_unlock_keeps {b : LorieBuffer} {mapped : Option Nat} (h : priv.Sound) (hb : priv.buffer = some b)
    (hok : (b.lock mapped).2.1 = true) (ok : Bool) :
    priv.Keeps { priv with buffer := some ((b.lock mapped).1.unlock ok).1 } := by
  have hsound := h.buffer b hb
  obtain ⟨hunlock, hdata⟩ := LorieBuffer.unlock_sound (LorieBuffer.lock_sound hsound mapped).1 ok
  refine ⟨⟨?_, fun c hc => ?_⟩, rfl⟩
  · show priv.locked = ((b.lock mapped).1.unlock ok).1.lockedData
    have hfree : b.lockedData.isSome = false := hsound.locked.symm.trans (LorieBuffer.lock_ok hok)
    rw [hdata, h.locked, hb]
    exact Option.not_isSome_iff_eq_none.1 (by simp [hfree])
  · cases hc
    exact hunlock

theorem relock_keeps (h : priv.Sound) (hr : priv.relock a = some t) : priv.Keeps t := by
  unfold relock at hr
  split at hr
  · dsimp only at hr
    split at hr
    · cases hr
      have hlock := lockBuffer_keeps (fun b hb => (unlockBuffer_buffer h.buffer a.unlocked b hb).1) a.mapped
      exact ⟨hlock.sound, hlock.accessGpuLocked.trans (unlockBuffer_accessGpuLocked _)⟩
    · cases hr
  · cases hr
    exact h.keeps

theorem lorieEnsureGpuSampleable_keeps {type : BufferType} {ok : Bool} (h : priv.Sound)
    (he : priv.lorieEnsureGpuSampleable type a w = some (ok, t, v)) : priv.Keeps t := by
  unfold lorieEnsureGpuSampleable at he
  split at he
  · cases he
    exact h.keeps
  · rename_i b hb
    split at he
    · cases he
      exact h.keeps
    · split at he
      · obtain ⟨⟨c, u⟩, hconvert, he⟩ := Option.bind_eq_some_iff.1 he
        obtain ⟨hsound, hsame⟩ := LorieBuffer.convert_sound (h.buffer b hb) hconvert
        cases he
        by_cases hc : c.type = .regular
        · rw [if_neg (not_not.2 hc), hsame hc]
          exact ⟨⟨h.locked.trans (by rw [hb]), fun d hd => h.buffer d (hb.trans hd)⟩, rfl⟩
        · rw [if_pos hc]
          have hlock : LoriePixmapPriv.Keeps { priv with buffer := some c } _ :=
            lockBuffer_keeps (fun d hd => by cases hd; exact hsound) a.converted
          exact ⟨hlock.sound, hlock.accessGpuLocked⟩
      · cases he
        exact h.keeps

theorem lorieExportPixmap_keeps {type : BufferType} (h : priv.Sound)
    (he : priv.lorieExportPixmap type a w = some (t, v)) : priv.Keeps t := by
  unfold lorieExportPixmap at he
  obtain ⟨⟨exported, priv', u⟩, hensure, he⟩ := Option.bind_eq_some_iff.1 he
  have hkept : priv.Keeps priv' := by
    split at hensure
    · cases hensure
      exact h.keeps
    · exact lorieEnsureGpuSampleable_keeps h hensure
  dsimp only at he
  split at he
  · obtain ⟨r, hr, he⟩ := Option.map_eq_some_iff.1 he
    cases he
    have hexported : LoriePixmapPriv.Sound { priv' with outputExported := true } := ⟨hkept.sound.locked, hkept.sound.buffer⟩
    have hrelock := relock_keeps hexported hr
    exact ⟨hrelock.sound, hrelock.accessGpuLocked.trans hkept.accessGpuLocked⟩
  · cases he
    exact hkept

/-- Where `lorieFdsFromPixmap` unlocks the buffer by a call that can fail, it does not fail. -/
def Unlocks (priv : LoriePixmapPriv) (layout : Bool) (a : Answers) : Prop :=
  ∀ b ∈ priv.buffer, priv.locked.isSome = true → priv.mem = false → layout = true →
    b.dmaBuf = true ∨ b.type = .ahardwarebuffer → a.unlocked = true

theorem promote_keeps {locked : Bool} (h : priv.Sound) (hp : priv.promote locked a w = some (t, v)) : priv.Keeps t := by
  unfold promote at hp
  obtain ⟨c, hc, hp⟩ := Option.bind_eq_some_iff.1 hp
  obtain ⟨⟨made, d, u⟩, hmake, hp⟩ := Option.bind_eq_some_iff.1 hp
  obtain ⟨hsound, hdata, -⟩ := LorieBuffer.makeDmaBuf_sound (h.buffer c hc) hmake
  have hbuffer : ∀ e ∈ some d, e.Sound := fun e he => by
    cases he
    exact hsound
  have hkept : priv.Keeps { priv with buffer := some d } :=
    ⟨⟨h.locked.trans (by rw [hc]; exact hdata.symm), hbuffer⟩, rfl⟩
  dsimp only at hp
  split at hp
  · split at hp
    · cases hp
      exact hkept.trans (lockBuffer_keeps hbuffer a.mapped)
    · cases hp
  · cases hp
    exact hkept

/-- The unlock does not fail where the answer is not asked for. -/
theorem unlockBuffer_ok {b : LorieBuffer} (h : priv.Sound) (hb : priv.buffer = some b) (hl : priv.locked.isSome = true)
    (hu : b.dmaBuf = true ∨ b.type = .ahardwarebuffer → a.unlocked = true) :
    (priv.unlockBuffer a.unlocked).2 = true := by
  have hlocked : b.locked = true := by
    rw [(h.buffer b hb).locked, ← hl, h.locked, hb]
    rfl
  have hunlock : (b.unlock a.unlocked).2 = true := by
    unfold LorieBuffer.unlock
    rw [if_neg (by simp [hlocked])]
    dsimp only
    split
    · exact hu ‹_›
    · rfl
  unfold unlockBuffer
  rw [hb]
  exact hunlock

theorem lorieFdsFromPixmap_keeps {layout : Bool} (h : priv.Sound) (hu : priv.Unlocks layout a)
    (hf : priv.lorieFdsFromPixmap layout a w = some (t, v)) : priv.Keeps t := by
  unfold lorieFdsFromPixmap at hf
  split at hf
  · cases hf
    exact h.keeps
  · rename_i hg
    obtain ⟨hsome, hrest⟩ := not_or.1 hg
    obtain ⟨hmem, hlayout⟩ := not_or.1 hrest
    split at hf
    · rename_i hl
      have hok : (priv.unlockBuffer a.unlocked).2 = true := by
        obtain ⟨b, hb⟩ := Option.ne_none_iff_exists'.1 fun e : priv.buffer = none => hsome (by rw [e]; rfl)
        exact unlockBuffer_ok h hb hl (hu b hb hl ((Bool.not_eq_true _).mp hmem) (by simpa using hlayout))
      dsimp only at hf
      rw [hok, if_neg (by simp)] at hf
      have hunmap := unmap_keeps h.buffer a.unlocked
      exact hunmap.trans (promote_keeps hunmap.sound hf)
    · exact promote_keeps h hf

end LoriePixmapPriv

end Lorie.Buffer
