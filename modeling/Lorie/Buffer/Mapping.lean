import Lorie.Lib.Transition
import Lorie.Buffer.Pixmap
import Mathlib.Data.List.Nodup
import Mathlib.Logic.Function.Basic

/-!
# The mappings of all pixmaps

EXA, Present, DRI3 and the outputs call the functions of a pixmap in any order (`InitOutput.c`, `window_outputs.c`). CPU
accesses and copies by Vulkan also take a lock that the renderer shares.

- `step`: a call of one of the functions; `none` is also the end of the server (`FatalError`);
- `Inv`: every pixmap is sound, and the lock was taken once more for each access and copy that holds it;
- `mapping_agrees`: every pixmap has the address of its buffer, and the shared lock is released as often as it is taken.
-/

namespace Lorie.Buffer

namespace Mapping

open Lib (Reach Free exec)

/-- A copy by Vulkan: its pixmaps, and `dmaDestinationWasLocked`. -/
structure DmaCopy where
  source : Nat
  destination : Nat
  wasLocked : Bool
  deriving DecidableEq, Repr

structure State where
  world : World
  /-- `pvfb->root.legacyDrawing` -/
  legacyDrawing : Bool
  pixmaps : Nat → Option LoriePixmapPriv
  /-- `GetScreenPixmap`, and the pixmap of the root window -/
  screenPixmap : Option Nat
  rootPixmap : Option Nat
  rootGpuCopyPending : BitVec 64
  /-- The pixmaps between `loriePrepareAccess` and `lorieFinishAccess`: EXA folds the nested ones. -/
  accesses : List Nat
  /-- Between `loriePrepareDmaCopy` and `lorieDoneDmaCopy` -/
  copy : Option DmaCopy
  /-- How often `state->lock` was taken and released -/
  acquisitions : Nat
  releases : Nat

/-- The functions, with their arguments and the answers to their calls -/
inductive Action where
  /-- `buffer` is what `LorieBuffer_allocate` returns; `empty`: the width or the height is 0. -/
  | createPixmap (p : Nat) (empty backed : Bool) (buffer : Option LorieBuffer) (a : Answers)
  /-- `loriePixmapFromFds`, with the buffer around the descriptor or the hardware buffer -/
  | pixmapFromFds (p : Nat) (buffer : LorieBuffer)
  | modifyPixmapHeader (p : Nat)
  /-- Other references to the buffer come and go. -/
  | acquire (p : Nat)
  | release (p : Nat)
  | prepareAccess (p : Nat) (destination : Bool) (a : Answers)
  | finishAccess (p : Nat) (a : Answers)
  /-- The pixmaps of a frame that is published -/
  | publish (images : List (Nat × Answers))
  | redraw (a : Answers)
  /-- `enabled`: there is a renderer for the copy; `queued`: there is room for its rectangles. -/
  | tryScheduleGpuCopy (source destination : Nat) (enabled queued : Bool) (aSource aDestination : Answers)
  | gpuCopyAck (source : Nat) (destination : Option Nat)
  /-- `sizes`: the pixmap has the size of the root window; `forced`: `TERMUX_X11_FORCE_FLIP` -/
  | presentFlip (p : Nat) (sizes forced : Bool) (a : Answers)
  | setScreenPixmap (p : Nat)
  | setWindowPixmap (p : Nat) (aOld aNew : Answers)
  /-- `ready`: Vulkan has both images. -/
  | prepareDmaCopy (source destination : Nat) (ready : Bool) (a : Answers)
  /-- What `dmaCopyRect` returns; nothing stands for `DMA_COPY_UNCONFIRMED`. -/
  | dmaCopy (complete : Option Bool) (a : Answers)
  | doneDmaCopy (a : Answers)
  | fdsFromPixmap (p : Nat) (layout : Bool) (a : Answers)
  | destroyPixmap (p : Nat)

namespace State

variable (s : State)

/-- The type that `lorieCreatePixmap` and the functions that export ask for -/
def sharedType : BufferType := if s.legacyDrawing then .fd else .ahardwarebuffer

/-- The server writes down a pixmap. -/
def set (p : Nat) (priv : LoriePixmapPriv) : State := { s with pixmaps := Function.update s.pixmaps p (some priv) }

/-- A function of one pixmap that does not end the server -/
def on (p : Nat) (f : LoriePixmapPriv → World → Option (LoriePixmapPriv × World)) : Option State := do
  let priv ← s.pixmaps p
  let (priv, w) ← f priv s.world
  return { s.set p priv with world := w }

/-- A function of one pixmap that leaves the memory alone -/
def onPriv (p : Nat) (f : LoriePixmapPriv → Option LoriePixmapPriv) : Option State :=
  s.on p fun priv w => (f priv).map fun priv => (priv, w)

/-- A function of a pixmap that may not be there -/
def onPriv? (p : Option Nat) (f : LoriePixmapPriv → Option LoriePixmapPriv) : Option State :=
  match p with
  | none => some s
  | some p => s.onPriv p f

/-- `lorieCreatePixmap` -/
def lorieCreatePixmap (p : Nat) (empty backed : Bool) (buffer : Option LorieBuffer) (a : Answers) : Option State :=
  if empty then some (s.set p .empty)
  else
    match buffer with
    | none => some s
    | some b =>
      if b.Fresh ∧ b.type = (if backed then s.sharedType else .regular) then
        some (s.set p ((LoriePixmapPriv.empty.withBuffer b).lockBuffer a.mapped).1)
      else none

/-- `loriePixmapFromFds` -/
def loriePixmapFromFds (p : Nat) (b : LorieBuffer) : Option State :=
  if b.Fresh ∧ b.type ≠ .regular then some (s.set p { LoriePixmapPriv.empty.withBuffer b with imported := true }) else none

/-- `lorieExportPixmap` of all the pixmaps of a frame -/
def exportImages (images : List (Nat × Answers)) : Option State :=
  images.foldlM (fun s image => s.on image.1 fun priv w => priv.lorieExportPixmap s.sharedType image.2 w) s

/-- `lorieNeedsGpuLock` -/
def lorieNeedsGpuLock (p : Nat) (priv : LoriePixmapPriv) (destination : Bool) : Bool :=
  if priv.outputExported then true
  else if s.screenPixmap = some p then destination || (s.rootGpuCopyPending ≠ 0 && !s.legacyDrawing)
  else !s.legacyDrawing && priv.buffer.any fun b => b.type = .ahardwarebuffer && b.gpuCopyPending ≠ 0

/-- `lorieServerLock`, or the end of it, where `gpuLocked` -/
def lockIf (gpuLocked : Bool) : State := { s with acquisitions := s.acquisitions + gpuLocked.toNat }
def unlockIf (gpuLocked : Bool) : State := { s with releases := s.releases + gpuLocked.toNat }

/-- `loriePrepareAccess` -/
def loriePrepareAccess (p : Nat) (destination : Bool) (a : Answers) : Option State := do
  let priv ← s.pixmaps p
  let gpuLocked := s.lorieNeedsGpuLock p priv destination
  let s := s.lockIf gpuLocked
  if priv.locked.isNone ∧ !priv.mem then
    let (priv, ok) := priv.lockBuffer a.mapped
    if !ok then return (s.set p priv).unlockIf gpuLocked
    else return { s.set p { priv with wasLocked := false, accessGpuLocked := gpuLocked } with accesses := p :: s.accesses }
  else return { s.set p { priv with wasLocked := true, accessGpuLocked := gpuLocked } with accesses := p :: s.accesses }

/-- `lorieFinishAccess` -/
def lorieFinishAccess (p : Nat) (a : Answers) : Option State := do
  let priv ← s.pixmaps p
  let mapped := if !priv.wasLocked then priv.unmap a.unlocked else priv
  let s := { s.set p { mapped with accessGpuLocked := false } with accesses := s.accesses.erase p }
  return s.unlockIf priv.accessGpuLocked

/-- `lorieTryScheduleGpuCopy` -/
def lorieTryScheduleGpuCopy (source destination : Nat) (enabled queued : Bool) (aSource aDestination : Answers) :
    Option State := do
  if s.legacyDrawing ∨ !enabled then return s
  else
    let (ok, priv, w) ← (← s.pixmaps source).lorieEnsureGpuSampleable .ahardwarebuffer aSource s.world
    let s := { s.set source priv with world := w }
    if !ok then return s
    else
      let (ok, priv, w) ← (← s.pixmaps destination).lorieEnsureGpuSampleable .ahardwarebuffer aDestination s.world
      let s := { s.set destination priv with world := w }
      if !ok then return s
      else
        let s ← s.onPriv source fun priv => priv.relock aSource
        if !queued then return s
        else
          let s ← s.onPriv source fun priv => some (priv.refer 1 1)
          if s.screenPixmap = some destination then return { s with rootGpuCopyPending := s.rootGpuCopyPending + 1 }
          else s.onPriv destination fun priv => some (priv.refer 1 1)

/-- `lorieGpuCopyAck` -/
def lorieGpuCopyAck (source : Nat) (destination : Option Nat) : State :=
  let s := (s.onPriv source fun priv => some (priv.refer (-1) (-1))).getD s
  match destination with
  | none => { s with rootGpuCopyPending := s.rootGpuCopyPending - 1 }
  | some p => (s.onPriv p fun priv => some (priv.refer (-1) (-1))).getD s

/-- `loriePresentFlip` -/
def loriePresentFlip (p : Nat) (sizes forced : Bool) (a : Answers) : Option State :=
  s.on p fun priv w =>
    if priv.buffer.isNone ∨ priv.mem ∨ !sizes then some (priv, w)
    else if priv.buffer.any (·.type = .fd) ∧ priv.imported ∧ !forced then some (priv, w)
    else (priv.lorieEnsureGpuSampleable s.sharedType a w).map fun (_, priv, w) => (priv, w)

/-- `lorieSetWindowPixmap` of the root window -/
def lorieSetWindowPixmap (p : Nat) (aOld aNew : Answers) : Option State := do
  let s ← s.onPriv? s.rootPixmap fun priv =>
    if priv.buffer.isSome ∧ priv.locked.isSome then some { priv.unmap aOld.unlocked with wasLocked := false } else some priv
  let s ← s.onPriv p fun priv =>
    if priv.buffer.isSome ∧ priv.locked.isNone then some { (priv.lockBuffer aNew.mapped).1 with wasLocked := false }
    else some priv
  return { s with rootPixmap := some p }

/-- `loriePrepareDmaCopy` -/
def loriePrepareDmaCopy (source destination : Nat) (ready : Bool) (a : Answers) : Option State := do
  let src ← s.pixmaps source
  let dst ← s.pixmaps destination
  if source = destination ∨ src.buffer.isNone ∨ dst.buffer.isNone ∨ src.mem ∨ dst.mem then return s
  else if !src.imported ∨ !src.buffer.any (·.type = .fd) ∨ !dst.buffer.any (·.type = .ahardwarebuffer) then return s
  else if !ready then return s
  else
    let s := s.lockIf true
    let s := s.set destination (if dst.locked.isSome then dst.unmap a.unlocked else dst)
    return { s with copy := some ⟨source, destination, dst.locked.isSome⟩ }

/-- `lorieDmaCopy` -/
def lorieDmaCopy (complete : Option Bool) (a : Answers) : Option State := do
  let copy ← s.copy
  if ← complete then return s
  else s.onPriv copy.destination fun priv => do
    let b ← priv.buffer
    let (b, ok, _) := b.lock a.mapped
    if !ok then none else some { priv with buffer := some (b.unlock a.unlocked).1 }

/-- `lorieDoneDmaCopy` -/
def lorieDoneDmaCopy (a : Answers) : Option State := do
  let copy ← s.copy
  let s ← s.onPriv copy.destination fun priv =>
    if copy.wasLocked then
      let (priv, ok) := priv.lockBuffer a.mapped
      if ok then some priv else none
    else some priv
  return { s.unlockIf true with copy := none }

end State

/-- A call of one of the functions -/
def step (s : State) : Action → Option State
  | .createPixmap p empty backed buffer a => if s.pixmaps p = none then s.lorieCreatePixmap p empty backed buffer a else none
  | .pixmapFromFds p b => if s.pixmaps p = none then s.loriePixmapFromFds p b else none
  | .modifyPixmapHeader p => s.onPriv p fun priv => some { priv with mem := true }
  | .acquire p => s.onPriv p fun priv => some (priv.refer 1 0)
  | .release p => s.onPriv p fun priv => some (priv.refer (-1) 0)
  | .prepareAccess p destination a => if p ∈ s.accesses then none else s.loriePrepareAccess p destination a
  | .finishAccess p a => if p ∈ s.accesses then s.lorieFinishAccess p a else none
  | .publish images => do
    let s ← (s.lockIf true).exportImages images
    return s.unlockIf true
  | .redraw a => s.onPriv? s.rootPixmap fun priv => if priv.buffer.isSome then priv.relock a else some priv
  | .tryScheduleGpuCopy source destination enabled queued aSource aDestination =>
    s.lorieTryScheduleGpuCopy source destination enabled queued aSource aDestination
  | .gpuCopyAck source destination => some (s.lorieGpuCopyAck source destination)
  | .presentFlip p sizes forced a => s.loriePresentFlip p sizes forced a
  | .setScreenPixmap p => some { s with screenPixmap := some p }
  | .setWindowPixmap p aOld aNew => s.lorieSetWindowPixmap p aOld aNew
  | .prepareDmaCopy source destination ready a =>
    if s.copy.isSome then none else s.loriePrepareDmaCopy source destination ready a
  | .dmaCopy complete a => s.lorieDmaCopy complete a
  | .doneDmaCopy a => s.lorieDoneDmaCopy a
  | .fdsFromPixmap p layout a => s.on p fun priv w => priv.lorieFdsFromPixmap layout a w
  | .destroyPixmap p =>
    if p ∈ s.accesses ∨ s.copy.any (fun c => c.source = p ∨ c.destination = p) then none
    else some { s with
      pixmaps := Function.update s.pixmaps p none
      screenPixmap := s.screenPixmap.filter (· ≠ p)
      rootPixmap := s.rootPixmap.filter (· ≠ p) }

/-- Before the first pixmap -/
def init (world : World) (legacyDrawing : Bool) : State :=
  { world := world
    legacyDrawing := legacyDrawing
    pixmaps := fun _ => none
    screenPixmap := none
    rootPixmap := none
    rootGpuCopyPending := 0
    accesses := []
    copy := none
    acquisitions := 0
    releases := 0 }

/-! ## What holds in every state -/

namespace State

variable (s : State)

/-- The access to the pixmap holds the lock. -/
def held (p : Nat) : Bool := (s.pixmaps p).any (·.accessGpuLocked)

/-- The pixmaps have the addresses of their buffers, and the lock was taken once more for each access and copy that holds it;
`owned`: so often by the function that is running. -/
structure Inv (owned : Nat) : Prop where
  pixmaps : ∀ p priv, s.pixmaps p = some priv → priv.Sound
  accesses : s.accesses.Nodup
  balance : s.acquisitions = s.releases + s.accesses.countP s.held + s.copy.isSome.toNat + owned

variable {s} {t : State} {owned p : Nat} {priv : LoriePixmapPriv}

theorem set_apply (q : Nat) : (s.set p priv).pixmaps q = if q = p then some priv else s.pixmaps q :=
  Function.update_apply s.pixmaps p (some priv) q

namespace Inv

theorem lockIf (h : s.Inv owned) (gpuLocked : Bool) : (s.lockIf gpuLocked).Inv (owned + gpuLocked.toNat) :=
  ⟨h.pixmaps, h.accesses, (congrArg (· + gpuLocked.toNat) h.balance).trans (Nat.add_assoc _ _ _)⟩

theorem unlockIf {gpuLocked : Bool} (h : s.Inv (owned + gpuLocked.toNat)) : (s.unlockIf gpuLocked).Inv owned := by
  refine ⟨h.pixmaps, h.accesses, ?_⟩
  have hbalance := h.balance
  show s.acquisitions = s.releases + gpuLocked.toNat + s.accesses.countP s.held + s.copy.isSome.toNat + owned
  omega

theorem set_pixmaps (h : s.Inv owned) (hp : priv.Sound) : ∀ q t, (s.set p priv).pixmaps q = some t → t.Sound := by
  intro q t hq
  rw [set_apply] at hq
  split at hq
  · cases hq
    exact hp
  · exact h.pixmaps q t hq

theorem held_set (q : Nat) : (s.set p priv).held q = if q = p then priv.accessGpuLocked else s.held q := by
  unfold State.held
  rw [set_apply]
  split <;> rfl

/-- The accesses to other pixmaps hold the lock as before. -/
theorem countP_set {accesses : List Nat} (hp : p ∉ accesses) :
    accesses.countP (s.set p priv).held = accesses.countP s.held := by
  refine List.countP_congr fun q hq => ?_
  have hne : q ≠ p := fun e => hp (e ▸ hq)
  rw [held_set, if_neg hne]

theorem set (h : s.Inv owned) (hp : priv.Sound) (hheld : p ∈ s.accesses → priv.accessGpuLocked = s.held p) :
    (s.set p priv).Inv owned := by
  refine ⟨h.set_pixmaps hp, h.accesses, h.balance.trans ?_⟩
  have hcount : s.accesses.countP s.held = s.accesses.countP (s.set p priv).held := by
    refine List.countP_congr fun q hq => ?_
    rw [held_set]
    split
    · rename_i hqp
      subst hqp
      rw [hheld hq]
    · exact Iff.rfl
  rw [hcount]
  rfl

theorem world (h : s.Inv owned) (w : World) : Inv { s with world := w } owned := ⟨h.pixmaps, h.accesses, h.balance⟩

theorem keep {u : LoriePixmapPriv} (h : s.Inv owned) (hpriv : s.pixmaps p = some priv) (hk : priv.Keeps u) :
    (s.set p u).Inv owned := by
  refine h.set hk.sound fun _ => hk.accessGpuLocked.trans ?_
  unfold State.held
  rw [hpriv]
  rfl

theorem on {f : LoriePixmapPriv → World → Option (LoriePixmapPriv × World)} (h : s.Inv owned)
    (hf : ∀ priv t w, s.pixmaps p = some priv → priv.Sound → f priv s.world = some (t, w) → priv.Keeps t)
    (hs : s.on p f = some t) : t.Inv owned := by
  obtain ⟨priv, hpriv, hs⟩ := Option.bind_eq_some_iff.1 hs
  obtain ⟨⟨q, w⟩, hq, hs⟩ := Option.bind_eq_some_iff.1 hs
  cases hs
  exact world (h.keep hpriv (hf priv q w hpriv (h.pixmaps p priv hpriv) hq)) w

theorem onPriv {f : LoriePixmapPriv → Option LoriePixmapPriv} (h : s.Inv owned)
    (hf : ∀ priv t, s.pixmaps p = some priv → priv.Sound → f priv = some t → priv.Keeps t)
    (hs : s.onPriv p f = some t) : t.Inv owned := by
  refine h.on (fun priv t w hpriv hsound hft => ?_) hs
  obtain ⟨q, hq, hqt⟩ := Option.map_eq_some_iff.1 hft
  cases hqt
  exact hf priv t hpriv hsound hq

theorem onPriv? {q : Option Nat} {f : LoriePixmapPriv → Option LoriePixmapPriv} (h : s.Inv owned)
    (hf : ∀ priv t, priv.Sound → f priv = some t → priv.Keeps t) (hs : s.onPriv? q f = some t) : t.Inv owned := by
  unfold State.onPriv? at hs
  split at hs
  · cases hs
    exact h
  · exact h.onPriv (fun priv t _ => hf priv t) hs

/-- The lock of the function becomes that of an access. -/
theorem access (h : s.Inv priv.accessGpuLocked.toNat) (hp : priv.Sound) (hnot : p ∉ s.accesses) :
    Inv { s.set p priv with accesses := p :: s.accesses } 0 := by
  refine ⟨h.set_pixmaps hp, List.nodup_cons.2 ⟨hnot, h.accesses⟩, ?_⟩
  have hbalance := h.balance
  show s.acquisitions = s.releases + (p :: s.accesses).countP (s.set p priv).held + s.copy.isSome.toNat + 0
  rw [List.countP_cons, countP_set hnot, held_set, if_pos rfl]
  cases hg : priv.accessGpuLocked with
  | false =>
    rw [hg] at hbalance
    simpa using hbalance
  | true =>
    rw [hg] at hbalance
    simp only [Bool.toNat_true, if_true] at hbalance ⊢
    omega

/-- The lock of an access becomes that of the function. -/
theorem finish {u : LoriePixmapPriv} (h : s.Inv 0) (hpriv : s.pixmaps p = some priv) (hmem : p ∈ s.accesses)
    (hu : u.Sound) : Inv { s.set p u with accesses := s.accesses.erase p } priv.accessGpuLocked.toNat := by
  refine ⟨h.set_pixmaps hu, h.accesses.erase p, ?_⟩
  have hbalance := h.balance
  have hnot : p ∉ s.accesses.erase p := fun hm => (List.Nodup.mem_erase_iff h.accesses).1 hm |>.1 rfl
  have hheld : s.held p = priv.accessGpuLocked := by
    unfold State.held
    rw [hpriv]
    rfl
  rw [(List.perm_cons_erase hmem).countP_eq, List.countP_cons, hheld] at hbalance
  show s.acquisitions =
    s.releases + (s.accesses.erase p).countP (s.set p u).held + s.copy.isSome.toNat + priv.accessGpuLocked.toNat
  rw [countP_set hnot]
  cases hg : priv.accessGpuLocked with
  | false =>
    rw [hg] at hbalance
    simpa using hbalance
  | true =>
    rw [hg] at hbalance
    simp only [Bool.toNat_true, if_true] at hbalance ⊢
    omega

/-! ### The functions -/

theorem refer (h : s.Inv owned) {references pending : Int}
    (hs : s.onPriv p (fun priv => some (priv.refer references pending)) = some t) : t.Inv owned :=
  h.onPriv (fun priv t _ hsound hf => by cases hf; exact LoriePixmapPriv.refer_keeps hsound references pending) hs

theorem new {u : LoriePixmapPriv} (h : s.Inv owned) (hnone : s.pixmaps p = none) (hu : u.Sound)
    (haccess : u.accessGpuLocked = false) : (s.set p u).Inv owned := by
  refine h.set hu fun _ => haccess.trans ?_
  unfold State.held
  rw [hnone]
  rfl

theorem lorieCreatePixmap {empty backed : Bool} {buffer : Option LorieBuffer} {a : Answers} (h : s.Inv owned)
    (hnone : s.pixmaps p = none) (hs : s.lorieCreatePixmap p empty backed buffer a = some t) : t.Inv owned := by
  unfold State.lorieCreatePixmap at hs
  split at hs
  · cases hs
    exact h.new hnone ⟨rfl, fun b hb => by cases hb⟩ rfl
  · split at hs
    · cases hs
      exact h
    · rename_i b
      by_cases hg : b.Fresh ∧ b.type = (if backed then s.sharedType else .regular)
      · rw [if_pos hg] at hs
        cases hs
        have hlock : (LoriePixmapPriv.empty.withBuffer b).Keeps _ := LoriePixmapPriv.lockBuffer_keeps (fun c hc => by
          cases hc
          exact hg.1.sound) a.mapped
        exact h.new hnone hlock.sound hlock.accessGpuLocked
      · rw [if_neg hg] at hs
        cases hs

theorem loriePixmapFromFds {b : LorieBuffer} (h : s.Inv owned) (hnone : s.pixmaps p = none)
    (hs : s.loriePixmapFromFds p b = some t) : t.Inv owned := by
  unfold State.loriePixmapFromFds at hs
  by_cases hg : b.Fresh ∧ b.type ≠ .regular
  · rw [if_pos hg] at hs
    cases hs
    refine h.new hnone ⟨hg.1.2.1.symm, fun c hc => ?_⟩ rfl
    cases hc
    exact hg.1.sound
  · rw [if_neg hg] at hs
    cases hs

theorem loriePrepareAccess {destination : Bool} {a : Answers} (h : s.Inv 0) (hnot : p ∉ s.accesses)
    (hs : s.loriePrepareAccess p destination a = some t) : t.Inv 0 := by
  obtain ⟨priv, hpriv, hs⟩ := Option.bind_eq_some_iff.1 hs
  have hsound := h.pixmaps p priv hpriv
  have hlock := h.lockIf (s.lorieNeedsGpuLock p priv destination)
  rw [Nat.zero_add] at hlock
  dsimp only at hs
  split at hs
  · have hkeeps := LoriePixmapPriv.lockBuffer_keeps hsound.buffer a.mapped
    split at hs
    · cases hs
      refine Inv.unlockIf ?_
      rw [Nat.zero_add]
      exact hlock.keep hpriv hkeeps
    · cases hs
      refine Inv.access ?_ ⟨hkeeps.sound.locked, hkeeps.sound.buffer⟩ hnot
      exact hlock
  · cases hs
    refine Inv.access ?_ ⟨hsound.locked, hsound.buffer⟩ hnot
    exact hlock

theorem lorieFinishAccess {a : Answers} (h : s.Inv 0) (hmem : p ∈ s.accesses)
    (hs : s.lorieFinishAccess p a = some t) : t.Inv 0 := by
  obtain ⟨priv, hpriv, hs⟩ := Option.bind_eq_some_iff.1 hs
  have hsound := h.pixmaps p priv hpriv
  cases hs
  refine Inv.unlockIf ?_
  rw [Nat.zero_add]
  refine h.finish hpriv hmem ?_
  split
  · have hunmap := LoriePixmapPriv.unmap_keeps hsound.buffer a.unlocked
    exact ⟨hunmap.sound.locked, hunmap.sound.buffer⟩
  · exact ⟨hsound.locked, hsound.buffer⟩

theorem exportImages {images : List (Nat × Answers)} (h : s.Inv owned) (hs : s.exportImages images = some t) :
    t.Inv owned := by
  induction images generalizing s with
  | nil =>
    cases hs
    exact h
  | cons image images ih =>
    obtain ⟨u, hu, hs⟩ := Option.bind_eq_some_iff.1 hs
    refine ih ?_ hs
    exact h.on (fun priv t w _ hsound he => LoriePixmapPriv.lorieExportPixmap_keeps hsound he) hu

theorem lorieTryScheduleGpuCopy {source destination : Nat} {enabled queued : Bool} {aSource aDestination : Answers}
    (h : s.Inv owned)
    (hs : s.lorieTryScheduleGpuCopy source destination enabled queued aSource aDestination = some t) : t.Inv owned := by
  unfold State.lorieTryScheduleGpuCopy at hs
  split at hs
  · cases hs
    exact h
  · obtain ⟨src, hsrc, hs⟩ := Option.bind_eq_some_iff.1 hs
    obtain ⟨⟨ok, src', w⟩, hensure, hs⟩ := Option.bind_eq_some_iff.1 hs
    have h₁ := world (h.keep hsrc (LoriePixmapPriv.lorieEnsureGpuSampleable_keeps (h.pixmaps _ _ hsrc) hensure)) w
    dsimp only at hs
    split at hs
    · cases hs
      exact h₁
    · obtain ⟨dst, hdst, hs⟩ := Option.bind_eq_some_iff.1 hs
      obtain ⟨⟨ok', dst', w'⟩, hensure', hs⟩ := Option.bind_eq_some_iff.1 hs
      have h₂ := world (h₁.keep hdst (LoriePixmapPriv.lorieEnsureGpuSampleable_keeps (h₁.pixmaps _ _ hdst) hensure')) w'
      dsimp only at hs
      split at hs
      · cases hs
        exact h₂
      · obtain ⟨u, hu, hs⟩ := Option.bind_eq_some_iff.1 hs
        have h₃ := h₂.onPriv (fun priv t _ hsound hr => LoriePixmapPriv.relock_keeps hsound hr) hu
        split at hs
        · cases hs
          exact h₃
        · obtain ⟨v, hv, hs⟩ := Option.bind_eq_some_iff.1 hs
          have h₄ := h₃.refer hv
          split at hs
          · cases hs
            exact ⟨h₄.pixmaps, h₄.accesses, h₄.balance⟩
          · exact h₄.refer hs

theorem lorieGpuCopyAck (h : s.Inv owned) (source : Nat) (destination : Option Nat) :
    (s.lorieGpuCopyAck source destination).Inv owned := by
  have hrefer : ∀ {s : State} (p : Nat), s.Inv owned →
      ((s.onPriv p fun priv => some (priv.refer (-1) (-1))).getD s).Inv owned := by
    intro s p h
    cases hu : s.onPriv p fun priv => some (priv.refer (-1) (-1)) with
    | none => exact h
    | some u => exact h.refer hu
  have hsource := hrefer source h
  unfold State.lorieGpuCopyAck
  cases destination with
  | none => exact ⟨hsource.pixmaps, hsource.accesses, hsource.balance⟩
  | some p => exact hrefer p hsource

theorem loriePresentFlip {sizes forced : Bool} {a : Answers} (h : s.Inv owned)
    (hs : s.loriePresentFlip p sizes forced a = some t) : t.Inv owned := by
  refine h.on (fun priv t w _ hsound hf => ?_) hs
  split at hf
  · cases hf
    exact hsound.keeps
  · split at hf
    · cases hf
      exact hsound.keeps
    · obtain ⟨⟨ok, q, v⟩, hensure, hf⟩ := Option.map_eq_some_iff.1 hf
      cases hf
      exact LoriePixmapPriv.lorieEnsureGpuSampleable_keeps hsound hensure

theorem lorieSetWindowPixmap {aOld aNew : Answers} (h : s.Inv owned)
    (hs : s.lorieSetWindowPixmap p aOld aNew = some t) : t.Inv owned := by
  obtain ⟨u, hu, hs⟩ := Option.bind_eq_some_iff.1 hs
  obtain ⟨v, hv, hs⟩ := Option.bind_eq_some_iff.1 hs
  have h₁ := h.onPriv? (fun priv t hsound hf => by
    split at hf
    · cases hf
      have hunmap := LoriePixmapPriv.unmap_keeps hsound.buffer aOld.unlocked
      exact ⟨⟨hunmap.sound.locked, hunmap.sound.buffer⟩, hunmap.accessGpuLocked⟩
    · cases hf
      exact hsound.keeps) hu
  have h₂ := h₁.onPriv (fun priv t _ hsound hf => by
    split at hf
    · cases hf
      have hlock := LoriePixmapPriv.lockBuffer_keeps hsound.buffer aNew.mapped
      exact ⟨⟨hlock.sound.locked, hlock.sound.buffer⟩, hlock.accessGpuLocked⟩
    · cases hf
      exact hsound.keeps) hv
  cases hs
  exact ⟨h₂.pixmaps, h₂.accesses, h₂.balance⟩

theorem loriePrepareDmaCopy {source destination : Nat} {ready : Bool} {a : Answers} (h : s.Inv 0)
    (hcopy : s.copy = none) (hs : s.loriePrepareDmaCopy source destination ready a = some t) : t.Inv 0 := by
  obtain ⟨src, hsrc, hs⟩ := Option.bind_eq_some_iff.1 hs
  obtain ⟨dst, hdst, hs⟩ := Option.bind_eq_some_iff.1 hs
  split at hs
  · cases hs
    exact h
  · split at hs
    · cases hs
      exact h
    · split at hs
      · cases hs
        exact h
      · cases hs
        have hsound := h.pixmaps _ _ hdst
        have hkeeps : dst.Keeps (if dst.locked.isSome then dst.unmap a.unlocked else dst) := by
          split
          · exact LoriePixmapPriv.unmap_keeps hsound.buffer a.unlocked
          · exact hsound.keeps
        have hset := (h.lockIf true).keep hdst hkeeps
        have hbalance := hset.balance
        refine ⟨hset.pixmaps, hset.accesses, hbalance.trans ?_⟩
        show s.releases + _ + s.copy.isSome.toNat + (0 + 1) = s.releases + _ + 1 + 0
        rw [hcopy]
        rfl

theorem lorieDmaCopy {complete : Option Bool} {a : Answers} (h : s.Inv owned)
    (hs : s.lorieDmaCopy complete a = some t) : t.Inv owned := by
  obtain ⟨copy, -, hs⟩ := Option.bind_eq_some_iff.1 hs
  obtain ⟨done, -, hs⟩ := Option.bind_eq_some_iff.1 hs
  split at hs
  · cases hs
    exact h
  · refine h.onPriv (fun priv t _ hsound hf => ?_) hs
    obtain ⟨b, hb, hf⟩ := Option.bind_eq_some_iff.1 hf
    dsimp only at hf
    split at hf
    · cases hf
    · rename_i hok
      cases hf
      exact LoriePixmapPriv.lock_unlock_keeps hsound hb (by simpa using hok) a.unlocked

theorem lorieDoneDmaCopy {a : Answers} (h : s.Inv 0) (hs : s.lorieDoneDmaCopy a = some t) : t.Inv 0 := by
  obtain ⟨copy, hcopy, hs⟩ := Option.bind_eq_some_iff.1 hs
  obtain ⟨u, hu, hs⟩ := Option.bind_eq_some_iff.1 hs
  have hmapped := h.onPriv (fun priv t _ hsound hf => by
    split at hf
    · dsimp only at hf
      split at hf
      · cases hf
        exact LoriePixmapPriv.lockBuffer_keeps hsound.buffer a.mapped
      · cases hf
    · cases hf
      exact hsound.keeps) hu
  have hopen : u.copy = s.copy := by
    obtain ⟨priv, -, hu⟩ := Option.bind_eq_some_iff.1 hu
    obtain ⟨q, -, hu⟩ := Option.bind_eq_some_iff.1 hu
    cases hu
    rfl
  cases hs
  have hbalance := hmapped.balance
  rw [hopen, hcopy] at hbalance
  refine ⟨hmapped.pixmaps, hmapped.accesses, hbalance.trans ?_⟩
  show u.releases + u.accesses.countP u.held + 1 + 0 = u.releases + 1 + u.accesses.countP u.held + 0 + 0
  omega

end Inv

end State

open State

theorem inv_init (world : World) (legacyDrawing : Bool) : (init world legacyDrawing).Inv 0 where
  pixmaps := fun p priv h => by cases h
  accesses := List.nodup_nil
  balance := rfl

/-- No export for DRI3 fails to unlock the buffer. -/
def Unlocks (s : State) : Action → Prop
  | .fdsFromPixmap p layout a => ∀ priv ∈ s.pixmaps p, priv.Unlocks layout a
  | _ => True

/-- Every function keeps the invariant. -/
theorem step_inv {s t : State} {a : Action} (h : s.Inv 0) (hu : Unlocks s a) (hs : step s a = some t) : t.Inv 0 := by
  unfold step at hs
  cases a with
  | createPixmap p empty backed buffer a =>
    dsimp only at hs
    split at hs
    · exact h.lorieCreatePixmap ‹_› hs
    · cases hs
  | pixmapFromFds p b =>
    dsimp only at hs
    split at hs
    · exact h.loriePixmapFromFds ‹_› hs
    · cases hs
  | modifyPixmapHeader p =>
    exact h.onPriv (fun priv t _ hsound hf => by
      cases hf
      exact ⟨⟨hsound.locked, hsound.buffer⟩, rfl⟩) hs
  | acquire p => exact h.refer hs
  | release p => exact h.refer hs
  | prepareAccess p destination a =>
    dsimp only at hs
    split at hs
    · cases hs
    · exact h.loriePrepareAccess ‹_› hs
  | finishAccess p a =>
    dsimp only at hs
    split at hs
    · exact h.lorieFinishAccess ‹_› hs
    · cases hs
  | publish images =>
    obtain ⟨u, hu, hs⟩ := Option.bind_eq_some_iff.1 hs
    cases hs
    exact ((h.lockIf true).exportImages hu).unlockIf
  | redraw a =>
    refine h.onPriv? (fun priv t hsound hf => ?_) hs
    split at hf
    · exact LoriePixmapPriv.relock_keeps hsound hf
    · cases hf
      exact hsound.keeps
  | tryScheduleGpuCopy source destination enabled queued aSource aDestination => exact h.lorieTryScheduleGpuCopy hs
  | gpuCopyAck source destination =>
    cases hs
    exact h.lorieGpuCopyAck source destination
  | presentFlip p sizes forced a => exact h.loriePresentFlip hs
  | setScreenPixmap p =>
    cases hs
    exact ⟨h.pixmaps, h.accesses, h.balance⟩
  | setWindowPixmap p aOld aNew => exact h.lorieSetWindowPixmap hs
  | prepareDmaCopy source destination ready a =>
    dsimp only at hs
    split at hs
    · cases hs
    · exact h.loriePrepareDmaCopy (Option.not_isSome_iff_eq_none.1 ‹_›) hs
  | dmaCopy complete a => exact h.lorieDmaCopy hs
  | doneDmaCopy a => exact h.lorieDoneDmaCopy hs
  | fdsFromPixmap p layout a =>
    exact h.on (fun priv t w hpriv hsound hf => LoriePixmapPriv.lorieFdsFromPixmap_keeps hsound (hu priv hpriv) hf) hs
  | destroyPixmap p =>
    dsimp only at hs
    split at hs
    · cases hs
    · rename_i hg
      cases hs
      have hnot : p ∉ s.accesses := fun hm => hg (.inl hm)
      refine ⟨fun q priv hq => ?_, h.accesses, h.balance.trans ?_⟩
      · have hq : (if q = p then none else s.pixmaps q) = some priv := (Function.update_apply s.pixmaps p none q).symm.trans hq
        split at hq
        · cases hq
        · exact h.pixmaps q priv hq
      · have hcount : s.accesses.countP s.held =
            s.accesses.countP fun q => (Function.update s.pixmaps p none q).any (·.accessGpuLocked) := by
          refine List.countP_congr fun q hq => ?_
          have hne : q ≠ p := fun e => hnot (e ▸ hq)
          rw [Function.update_of_ne hne]
          exact Iff.rfl
        rw [hcount]
        rfl

/-- The address is there exactly while the buffer is locked, and is that of the buffer. -/
def Agrees (priv : LoriePixmapPriv) : Prop :=
  priv.locked.isSome = priv.buffer.any (·.locked) ∧ ∀ b ∈ priv.buffer, b.locked = true → priv.locked = b.lockedData

theorem agrees_of_sound {priv : LoriePixmapPriv} (h : priv.Sound) : Agrees priv := by
  refine ⟨?_, fun b hb _ => h.locked.trans (by rw [hb]; rfl)⟩
  rw [h.locked]
  cases hb : priv.buffer with
  | none => rfl
  | some b => exact (h.buffer b hb).locked.symm

/-- **The mapping of a pixmap agrees with its buffer**, in every run in which no export for DRI3 fails to unlock a buffer, and
outside of accesses and copies the shared lock was released as often as it was taken. -/
theorem mapping_agrees {world : World} {legacyDrawing : Bool} {s : State}
    (h : Reach step Unlocks (init world legacyDrawing) s) :
    (∀ p priv, s.pixmaps p = some priv → Agrees priv) ∧
      (s.accesses = [] → s.copy = none → s.acquisitions = s.releases) := by
  have hinv : s.Inv 0 := Reach.invariant (I := fun s => s.Inv 0) (inv_init world legacyDrawing)
    (fun _ _ _ hi hu hs => step_inv hi hu hs) h
  refine ⟨fun p priv hp => agrees_of_sound (hinv.pixmaps p priv hp), fun ha hc => ?_⟩
  have hbalance := hinv.balance
  rw [ha, hc] at hbalance
  exact hbalance

/-- A hardware buffer of 4 × 4 pixels, and a device without DMA-BUF -/
def hardware : LorieBuffer :=
  { refcount := 1
    width := 4
    height := 4
    stride := 4
    format := formatR8G8B8X8
    type := .ahardwarebuffer
    id := 1
    buffer := some 0
    data := none
    locked := false
    lockedData := none
    fd := none
    size := 0
    offset := 0
    mapping := none
    dmaBuf := false
    graphicsImage := none
    gpuCopyPending := 0 }

def device : Env :=
  { sharedMemory := false
    memfd := false
    truncate := false
    ashmem := false
    setName := false
    setSize := false
    heap := false
    heapAlloc := false
    mmap := false
    syncStart := false
    syncEnd := false
    hardwareAllocate := false
    hardwareLock := false
    hardwareUnlock := false
    hardwareStride := 4
    contents := fun _ => 0
    sizeMax := 2 ^ 64 - 1 }

def nothingYet : World :=
  { memory := fun _ => []
    blocks := []
    files := []
    mappings := []
    hardware := []
    locked := []
    next := 0 }

/-- Every call succeeds that locks, or unlocks where `unlocked`. -/
def answers (unlocked : Bool) : Answers := ⟨device, some 4096, unlocked, some 4096⟩

/-- The root pixmap is drawn to, and asked for by DRI3. -/
def drawn : List Action :=
  [.createPixmap 0 false true (some hardware) (answers true), .setWindowPixmap 0 (answers true) (answers true),
    .setScreenPixmap 0, .prepareAccess 0 true (answers true), .finishAccess 0 (answers true),
    .fdsFromPixmap 0 true (answers true)]

theorem mapping_agrees_drawn :
    ∃ s priv, exec step (init nothingYet false) drawn = some s ∧ s.pixmaps 0 = some priv ∧ Agrees priv ∧
      s.acquisitions = 1 ∧ s.releases = 1 := by
  obtain ⟨s, priv, hs, hp, hacquisitions, haccesses, hcopy⟩ : ∃ s priv,
      exec step (init nothingYet false) drawn = some s ∧ s.pixmaps 0 = some priv ∧ s.acquisitions = 1 ∧
        s.accesses = [] ∧ s.copy = none := ⟨_, _, rfl, rfl, rfl, rfl, rfl⟩
  have hunlocks : ∀ a ∈ drawn, ∀ s, Unlocks s a := by
    intro a ha s
    simp only [drawn, List.mem_cons, List.not_mem_nil, or_false] at ha
    rcases ha with rfl | rfl | rfl | rfl | rfl | rfl
    iterate 5 trivial
    exact fun _ _ _ _ _ _ _ _ => rfl
  obtain ⟨hagrees, hbalance⟩ := mapping_agrees (.of_exec_all hunlocks hs)
  exact ⟨s, priv, hs, hp, hagrees 0 priv hp, hacquisitions, (hbalance haccesses hcopy).symm.trans hacquisitions⟩

/-- DRI3 asks for the pixmap, and its hardware buffer cannot be unlocked. -/
def refused : List Action :=
  [.createPixmap 0 false true (some hardware) (answers true), .fdsFromPixmap 0 true (answers false)]

/-- The pixmap keeps the address of the buffer, which is not locked any more. -/
theorem address_kept : ¬ ∀ world legacyDrawing s, Reach step Free (init world legacyDrawing) s →
    ∀ p priv, s.pixmaps p = some priv → Agrees priv := by
  intro h
  obtain ⟨s, priv, hs, hp, hlocked, hbuffer⟩ : ∃ s priv, exec step (init nothingYet false) refused = some s ∧
      s.pixmaps 0 = some priv ∧ priv.locked.isSome = true ∧ priv.buffer.any (·.locked) = false :=
    ⟨_, _, rfl, rfl, rfl, rfl⟩
  have hagrees := (h nothingYet false s (.of_exec refused hs) 0 priv hp).1
  rw [hlocked, hbuffer] at hagrees
  cases hagrees

end Mapping

end Lorie.Buffer
