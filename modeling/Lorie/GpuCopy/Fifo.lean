import Lorie.GpuCopy.Queue

/-!
# The GPU copy queue is a bounded FIFO

`Inv` ties the machine's indices and slots to the history: `writeIndex` and `readIndex` are the numbers of published and
consumed entries, at most `queueCapacity` apart, every entry in between stands in its slot, and what was submitted is a
prefix of what was published. Every step of either side keeps it (`step_inv`), so it holds in every reachable state
(`reach_inv`), whatever the length of the run: the serials are the positions modulo `2 ^ 64`, and only the facts about
`completedSerial` need that they did not wrap.

The pending entries are then the list of a bounded FIFO, to which publishing appends and from which consuming takes the
head (`reach_fifo`); the later models of the copy protocol work with that list.
-/

namespace Lorie.GpuCopy

open Lorie.Lib

namespace Machine

/-! ## The invariant -/

/-- What the producer knows. A stale view of `readIndex` only underestimates the room. -/
def ProducerOk (m : Machine) : Prop :=
  match m.producer with
  | .idle => m.gpuCopySerialCounter = UInt64.ofNat m.published.length
  | .loaded w => w = m.queue.writeIndex ∧ m.gpuCopySerialCounter = UInt64.ofNat m.published.length
  | .room w => w = m.queue.writeIndex ∧ m.published.length < m.consumed + queueCapacity ∧
      m.gpuCopySerialCounter = UInt64.ofNat m.published.length
  | .filled w => w = m.queue.writeIndex ∧ m.published.length < m.consumed + queueCapacity ∧
      m.gpuCopySerialCounter = UInt64.ofNat (m.published.length + 1) ∧
      (m.queue.entries (slot w)).serial = m.gpuCopySerialCounter

/-- The local `completed` after `consumed` entries: nothing yet, or the serial of the last of them. -/
def CompletedOk (consumed : Nat) (completed : UInt64) : Prop := completed = 0 ∨ completed = UInt64.ofNat consumed

/-- What the consumer knows. -/
def ConsumerOk (m : Machine) : Prop :=
  match m.consumer with
  | .idle => m.submitted = m.published.take m.consumed
  | .looping c => m.submitted = m.published.take m.consumed ∧ CompletedOk m.consumed c
  | .head c => m.submitted = m.published.take m.consumed ∧ CompletedOk m.consumed c ∧ m.consumed < m.published.length
  | .found c src dst => m.submitted = m.published.take m.consumed ∧ CompletedOk m.consumed c ∧
      m.consumed < m.published.length ∧ src = m.headEntry.request.srcBufferId ∧ dst = m.headEntry.request.dstBufferId
  | .submitted c => m.submitted = m.published.take (m.consumed + 1) ∧ CompletedOk m.consumed c ∧
      m.consumed < m.published.length
  | .leaving c => m.submitted = m.published.take m.consumed ∧ CompletedOk m.consumed c

/-- The machine agrees with its history. -/
structure Inv (m : Machine) : Prop where
  writeIndex : m.queue.writeIndex = UInt32.ofNat m.published.length
  readIndex : m.queue.readIndex = UInt32.ofNat m.consumed
  le : m.consumed ≤ m.published.length
  bound : m.published.length ≤ m.consumed + queueCapacity
  intact : Intact queueCapacity m.queue.entries m.published m.consumed
  serials : ∀ i e, m.published[i]? = some e → e.serial = UInt64.ofNat (i + 1)
  stored : ∃ k ≤ m.consumed, m.queue.completedSerial = UInt64.ofNat k
  producer : m.ProducerOk
  consumer : m.ConsumerOk

theorem capacity_dvd : queueCapacity ∣ 2 ^ 32 := by decide

namespace Inv

variable {m : Machine}

/-- The machine's distance between the indices is the number of pending entries. -/
theorem distance (h : m.Inv) :
    (m.queue.writeIndex - m.queue.readIndex).toNat = m.published.length - m.consumed := by
  rw [h.writeIndex, h.readIndex]
  have := h.bound
  exact sub_toNat h.le (by simp only [queueCapacity] at this; omega)

/-- The machine's test for an empty ring is the true one. -/
theorem empty_iff (h : m.Inv) : m.queue.readIndex = m.queue.writeIndex ↔ m.consumed = m.published.length := by
  rw [h.writeIndex, h.readIndex]
  have := h.bound
  exact ofNat_inj h.le (by simp only [queueCapacity] at this; omega)

theorem slot_writeIndex (h : m.Inv) : slot m.queue.writeIndex = m.published.length % queueCapacity := by
  rw [h.writeIndex]; exact Lib.slot capacity_dvd _

theorem slot_readIndex (h : m.Inv) : slot m.queue.readIndex = m.consumed % queueCapacity := by
  rw [h.readIndex]; exact Lib.slot capacity_dvd _

/-- The entry at `readIndex` is the oldest one that was not consumed. -/
theorem headEntry_eq (h : m.Inv) (hlt : m.consumed < m.published.length) :
    m.published[m.consumed]? = some m.headEntry := by
  rw [List.getElem?_eq_getElem hlt, headEntry, h.slot_readIndex,
    h.intact m.consumed _ le_rfl (List.getElem?_eq_getElem hlt)]

theorem headEntry_serial (h : m.Inv) (hlt : m.consumed < m.published.length) :
    m.headEntry.serial = UInt64.ofNat (m.consumed + 1) :=
  h.serials _ _ (h.headEntry_eq hlt)

/-- With room for one more, the slot at `writeIndex` holds no pending entry, in particular not the head. -/
theorem headEntry_fill (h : m.Inv) {w : UInt32} (hw : w = m.queue.writeIndex)
    (hroom : m.published.length < m.consumed + queueCapacity) (hlt : m.consumed < m.published.length)
    (e : LorieGpuCopyEntry) :
    Function.update m.queue.entries (slot w) e (slot m.queue.readIndex) = m.headEntry := by
  rw [hw, h.slot_writeIndex, h.slot_readIndex, Function.update_of_ne (mod_ne hlt hroom), headEntry, h.slot_readIndex]

theorem init : Machine.init.Inv where
  writeIndex := rfl
  readIndex := rfl
  le := Nat.le_refl _
  bound := by simp [Machine.init]
  intact := Intact.nil
  serials := by intro i e h; simp [Machine.init] at h
  stored := ⟨0, Nat.le_refl _, rfl⟩
  producer := rfl
  consumer := rfl

end Inv

/-! ## The producer's steps -/

section Producer

variable {m m' : Machine}

theorem inv_loadWriteIndex (h : m.Inv) (hs : m.step .loadWriteIndex = some m') : m'.Inv := by
  simp only [step] at hs
  split at hs
  · rename_i hp
    cases hs
    have hpr := h.producer
    simp only [ProducerOk, hp] at hpr
    exact { h with producer := ⟨rfl, hpr⟩ }
  · cases hs

theorem inv_loadReadIndex (h : m.Inv) (hs : m.step .loadReadIndex = some m') : m'.Inv := by
  simp only [step] at hs
  split at hs
  · rename_i w hp
    have hpr := h.producer
    simp only [ProducerOk, hp] at hpr
    obtain ⟨rfl, hc⟩ := hpr
    split at hs
    · cases hs
      exact { h with producer := hc }
    · rename_i hroom
      cases hs
      -- the distance the producer computed is the true one at this moment
      rw [UInt32.not_le, UInt32.lt_iff_toNat_lt, h.distance] at hroom
      have : (UInt32.ofNat queueCapacity).toNat = queueCapacity := rfl
      have := h.le
      have hlt : m.published.length < m.consumed + queueCapacity := by omega
      exact { h with producer := ⟨rfl, hlt, hc⟩ }
  · cases hs

theorem inv_fillEntry (h : m.Inv) {r : CopyRequest} (hs : m.step (.fillEntry r) = some m') : m'.Inv := by
  simp only [step] at hs
  split at hs
  · rename_i w hp
    cases hs
    have hpr := h.producer
    simp only [ProducerOk, hp] at hpr
    obtain ⟨hw, hroom, hc⟩ := hpr
    have hserial : m.gpuCopySerialCounter + 1 = UInt64.ofNat (m.published.length + 1) := by rw [hc, ofNat64_succ]
    refine { h with intact := ?_, producer := ?_, consumer := ?_ }
    · show Intact _ (Function.update _ _ _) _ _
      rw [hw, h.slot_writeIndex]
      exact h.intact.fill hroom
    · exact ⟨hw, hroom, hserial, by simp⟩
    · have hcr := h.consumer
      cases hco : m.consumer with
      | found c src dst =>
        simp only [ConsumerOk, hco] at hcr ⊢
        obtain ⟨h₁, h₂, h₃, h₄, h₅⟩ := hcr
        have hhead := h.headEntry_fill hw hroom h₃ ⟨m.gpuCopySerialCounter + 1, r⟩
        exact ⟨h₁, h₂, h₃, h₄.trans (congrArg (·.request.srcBufferId) hhead.symm),
          h₅.trans (congrArg (·.request.dstBufferId) hhead.symm)⟩
      | idle => simpa only [ConsumerOk, hco] using hcr
      | looping c => simpa only [ConsumerOk, hco] using hcr
      | head c => simpa only [ConsumerOk, hco] using hcr
      | submitted c => simpa only [ConsumerOk, hco] using hcr
      | leaving c => simpa only [ConsumerOk, hco] using hcr
  · cases hs

/-- The consumer's knowledge survives a publication. -/
theorem consumerOk_publish (h : m.Inv) {q : GpuCopyQueue} {p : Producer} (e : LorieGpuCopyEntry)
    (hq : q.readIndex = m.queue.readIndex ∧ q.entries = m.queue.entries) :
    ({ m with queue := q, producer := p, published := m.published ++ [e] } : Machine).ConsumerOk := by
  obtain ⟨hr, he⟩ := hq
  have hcr := h.consumer
  have htake : (m.published ++ [e]).take m.consumed = m.published.take m.consumed :=
    List.take_append_of_le_length h.le
  cases hco : m.consumer with
  | submitted c =>
    simp only [ConsumerOk, hco] at hcr ⊢
    obtain ⟨h₁, h₂, h₃⟩ := hcr
    refine ⟨?_, h₂, by simp; omega⟩
    rw [h₁, List.take_append_of_le_length (by omega)]
  | found c src dst =>
    simp only [ConsumerOk, hco, headEntry, hr, he, htake, List.length_append, List.length_singleton] at hcr ⊢
    exact ⟨hcr.1, hcr.2.1, by omega, hcr.2.2.2⟩
  | head c =>
    simp only [ConsumerOk, hco, htake, List.length_append, List.length_singleton] at hcr ⊢
    exact ⟨hcr.1, hcr.2.1, by omega⟩
  | idle => simpa only [ConsumerOk, hco, htake] using hcr
  | looping c => simpa only [ConsumerOk, hco, htake] using hcr
  | leaving c => simpa only [ConsumerOk, hco, htake] using hcr

theorem inv_publish (h : m.Inv) (hs : m.step .publish = some m') : m'.Inv := by
  simp only [step] at hs
  split at hs
  · rename_i w hp
    cases hs
    have hpr := h.producer
    simp only [ProducerOk, hp] at hpr
    obtain ⟨hw, hroom, hc, hser⟩ := hpr
    have hlen : (m.published ++ [m.queue.entries (slot w)]).length = m.published.length + 1 := by simp
    refine ⟨?_, h.readIndex, ?_, ?_, ?_, ?_, h.stored, ?_, ?_⟩
    · show w + 1 = UInt32.ofNat (m.published ++ [m.queue.entries (slot w)]).length
      rw [hlen, hw, h.writeIndex, ofNat32_succ]
    · show m.consumed ≤ (m.published ++ [m.queue.entries (slot w)]).length
      rw [hlen]
      exact Nat.le_succ_of_le h.le
    · show (m.published ++ [m.queue.entries (slot w)]).length ≤ m.consumed + queueCapacity
      rw [hlen]
      exact hroom
    · exact h.intact.publish (by rw [hw, h.slot_writeIndex])
    · intro i e he
      change (m.published ++ [m.queue.entries (slot w)])[i]? = some e at he
      rcases Nat.lt_or_ge i m.published.length with hlt | hge
      · rw [List.getElem?_append_left hlt] at he
        exact h.serials i e he
      · rw [List.getElem?_append_right hge] at he
        obtain ⟨hi, rfl⟩ := List.getElem?_eq_some_iff.1 he
        have heq : i = m.published.length := by simp at hi; omega
        subst heq
        simpa using hser.trans hc
    · show m.gpuCopySerialCounter = UInt64.ofNat (m.published ++ [m.queue.entries (slot w)]).length
      rw [hlen]
      exact hc
    · exact consumerOk_publish h _ ⟨rfl, rfl⟩
  · cases hs

end Producer

/-! ## The consumer's steps -/

section Consumer

variable {m m' : Machine}

/-- A step that only moves the consumer keeps the rest of the invariant. -/
theorem inv_consumer (h : m.Inv) {c : Consumer} {failed waiting : Bool} {log : List LorieGpuCopyEntry}
    (hc : ({ m with consumer := c, submitted := log } : Machine).ConsumerOk) :
    ({ m with consumer := c, submitted := log, connectionFailed := failed, copyWaitingForBuffer := waiting } :
      Machine).Inv :=
  { h with consumer := hc }

theorem inv_enter (h : m.Inv) {locked : Bool} (hs : m.step (.enter locked) = some m') : m'.Inv := by
  simp only [step] at hs
  split at hs
  · rename_i hco
    have hcr := h.consumer
    simp only [ConsumerOk, hco] at hcr
    split at hs
    · cases hs; exact h
    · split at hs
      · cases hs
        exact inv_consumer h ⟨hcr, Or.inl rfl⟩
      · cases hs
        exact { h with consumer := by simpa only [ConsumerOk, hco] using hcr }
  · cases hs

theorem inv_test (h : m.Inv) (hs : m.step .test = some m') : m'.Inv := by
  simp only [step] at hs
  split at hs
  · rename_i c hco
    have hcr := h.consumer
    simp only [ConsumerOk, hco] at hcr
    split at hs
    · cases hs
      exact inv_consumer h hcr
    · rename_i hne
      cases hs
      rw [h.empty_iff] at hne
      exact inv_consumer h ⟨hcr.1, hcr.2, Nat.lt_of_le_of_ne h.le hne⟩
  · cases hs

theorem inv_findBuffers (h : m.Inv) {present : Bool} (hs : m.step (.findBuffers present) = some m') : m'.Inv := by
  simp only [step] at hs
  split at hs
  · rename_i c hco
    have hcr := h.consumer
    simp only [ConsumerOk, hco] at hcr
    split at hs
    · cases hs
      exact inv_consumer h ⟨hcr.1, hcr.2.1, hcr.2.2, rfl, rfl⟩
    · cases hs
      exact inv_consumer h ⟨hcr.1, hcr.2.1⟩
  · cases hs

theorem inv_submit (h : m.Inv) {ok : Bool} (hs : m.step (.submit ok) = some m') : m'.Inv := by
  simp only [step] at hs
  split at hs
  · rename_i c src dst hco
    have hcr := h.consumer
    simp only [ConsumerOk, hco] at hcr
    obtain ⟨hsub, hc, hlt, rfl, rfl⟩ := hcr
    split at hs
    · cases hs
      refine inv_consumer h ⟨?_, hc, hlt⟩
      show m.submitted ++ [m.headEntry] = _
      rw [hsub, List.take_add_one, h.headEntry_eq hlt]
      rfl
    · cases hs
      exact inv_consumer h ⟨hsub, hc⟩
  · cases hs

theorem inv_advance (h : m.Inv) (hs : m.step .advance = some m') : m'.Inv := by
  simp only [step] at hs
  split at hs
  · rename_i c hco
    cases hs
    have hcr := h.consumer
    simp only [ConsumerOk, hco] at hcr
    obtain ⟨hsub, -, hlt⟩ := hcr
    have hserial := h.headEntry_serial hlt
    have hbound := h.bound
    obtain ⟨k, hk, hstored⟩ := h.stored
    refine ⟨h.writeIndex, ?_, ?_, ?_, h.intact.advance, h.serials, ⟨k, by show k ≤ m.consumed + 1; omega, hstored⟩, ?_, ?_⟩
    · show m.queue.readIndex + 1 = _
      rw [h.readIndex, ofNat32_succ]
    · exact hlt
    · show m.published.length ≤ m.consumed + 1 + queueCapacity
      omega
    · have hpr := h.producer
      -- consuming only makes more room
      cases hp : m.producer with
      | idle => simpa only [ProducerOk, hp] using hpr
      | loaded w => simpa only [ProducerOk, hp] using hpr
      | room w =>
        simp only [ProducerOk, hp] at hpr ⊢
        exact ⟨hpr.1, by omega, hpr.2.2⟩
      | filled w =>
        simp only [ProducerOk, hp] at hpr ⊢
        exact ⟨hpr.1, by omega, hpr.2.2⟩
    · exact ⟨hsub, Or.inr hserial⟩
  · cases hs

/-- What the end of a batch stores: nothing new, or the number of consumed entries. -/
theorem store_eq (h : m.Inv) (hs : m.step .store = some m') :
    m' = { m with consumer := .idle, queue := m'.queue } ∧ m'.queue = { m.queue with
      completedSerial := m'.queue.completedSerial } ∧ m.submitted = m.published.take m.consumed ∧
      (m'.queue.completedSerial = m.queue.completedSerial ∨
        m'.queue.completedSerial = UInt64.ofNat m.consumed) := by
  simp only [step] at hs
  split at hs
  · rename_i c hco
    cases hs
    have hcr := h.consumer
    simp only [ConsumerOk, hco] at hcr
    obtain ⟨hsub, hc⟩ := hcr
    refine ⟨rfl, rfl, hsub, ?_⟩
    by_cases h0 : c = 0
    · left; simp [h0]
    · right; simpa [h0] using hc.resolve_left h0
  · cases hs

theorem inv_store (h : m.Inv) (hs : m.step .store = some m') : m'.Inv := by
  obtain ⟨he, hq, hsub, hser⟩ := store_eq h hs
  have hstored : ∃ k ≤ m.consumed, m'.queue.completedSerial = UInt64.ofNat k := by
    rcases hser with hser | hser
    · obtain ⟨k, hk, hk'⟩ := h.stored
      exact ⟨k, hk, hser.trans hk'⟩
    · exact ⟨m.consumed, Nat.le_refl _, hser⟩
  rw [hq] at he
  rw [he]
  exact { h with stored := hstored, consumer := hsub }

theorem inv_reattach (h : m.Inv) (hs : m.step .reattach = some m') : m'.Inv := by
  simp only [step] at hs
  split at hs
  · rename_i hco
    cases hs
    have hcr := h.consumer
    simp only [ConsumerOk, hco] at hcr
    exact { h with consumer := by simpa only [ConsumerOk, hco] using hcr }
  · cases hs

end Consumer

/-! ## Runs -/

/-- **Every step of either side keeps the invariant.** -/
theorem step_inv {m m' : Machine} (a : Action) (h : m.Inv) (hs : m.step a = some m') : m'.Inv := by
  cases a with
  | loadWriteIndex => exact inv_loadWriteIndex h hs
  | loadReadIndex => exact inv_loadReadIndex h hs
  | fillEntry r => exact inv_fillEntry h hs
  | publish => exact inv_publish h hs
  | enter locked => exact inv_enter h hs
  | test => exact inv_test h hs
  | findBuffers present => exact inv_findBuffers h hs
  | submit ok => exact inv_submit h hs
  | advance => exact inv_advance h hs
  | store => exact inv_store h hs
  | reattach => exact inv_reattach h hs

/-- Every reachable state has the invariant. -/
theorem reach_inv {m : Machine} (h : Reach step Free Machine.init m) : m.Inv :=
  h.invariant Inv.init fun _ a _ hi _ hs => step_inv a hi hs

/-- What a step does to the history and to `completedSerial`. -/
theorem step_frame {m m' : Machine} {a : Action} (hs : m.step a = some m') :
    m.published <+: m'.published ∧ m.submitted <+: m'.submitted ∧ m.consumed ≤ m'.consumed ∧
      (a ≠ .store → m'.queue.completedSerial = m.queue.completedSerial) := by
  cases a <;> simp only [step] at hs <;> repeat' split at hs
  all_goals cases hs
  all_goals exact ⟨by simp, by simp, by simp, fun h => by first | rfl | exact absurd rfl h⟩

/-- Along a step in which the serials did not wrap, `completedSerial` does not decrease. -/
theorem step_completedSerial {m m' : Machine} {a : Action} (h : m.Inv) (hs : m.step a = some m')
    (hwrap : m'.published.length < 2 ^ 64) : m.queue.completedSerial ≤ m'.queue.completedSerial := by
  obtain ⟨hpub, -, -, hframe⟩ := step_frame hs
  by_cases ha : a = .store
  · subst ha
    obtain ⟨-, -, -, hser⟩ := store_eq h hs
    rcases hser with hser | hser
    · exact UInt64.le_of_eq hser.symm
    · obtain ⟨k, hk, hstored⟩ := h.stored
      have := h.le
      have := hpub.length_le
      rw [hser, hstored, UInt64.le_iff_toNat_le, UInt64.toNat_ofNat', UInt64.toNat_ofNat',
        Nat.mod_eq_of_lt (by omega), Nat.mod_eq_of_lt (by omega)]
      exact hk
  · exact UInt64.le_of_eq (hframe ha).symm

/-- Along a run in which the serials did not wrap, `completedSerial` does not decrease. -/
theorem reach_completedSerial {m m' : Machine} (h : m.Inv) (hr : Reach step Free m m') :
    m.published.length ≤ m'.published.length ∧
      (m'.published.length < 2 ^ 64 → m.queue.completedSerial ≤ m'.queue.completedSerial) := by
  refine hr.rel (R := fun m m' : Machine => m.published.length ≤ m'.published.length ∧
      (m'.published.length < 2 ^ 64 → m.queue.completedSerial ≤ m'.queue.completedSerial))
    (fun m => ⟨Nat.le_refl _, fun _ => UInt64.le_refl _⟩) ?_ h (fun _ a _ hi _ hs => step_inv a hi hs) ?_
  · rintro m₁ m₂ m₃ ⟨hl₁, hc₁⟩ ⟨hl₂, hc₂⟩
    exact ⟨hl₁.trans hl₂, fun hw => UInt64.le_trans (hc₁ (by omega)) (hc₂ hw)⟩
  · intro m₁ a m₂ hi _ hs
    exact ⟨(step_frame hs).1.length_le, step_completedSerial hi hs⟩

/-! ## The queue as a list -/

/-- The entries that were published and not consumed. -/
def pending (m : Machine) : List LorieGpuCopyEntry := m.published.drop m.consumed

namespace Inv

variable {m : Machine}

/-- What was submitted is what was consumed, and at most the entry that is being consumed. -/
theorem submitted_eq (h : m.Inv) : ∃ n, m.consumed ≤ n ∧ m.submitted = m.published.take n := by
  have hcr := h.consumer
  cases hco : m.consumer with
  | submitted c =>
    simp only [ConsumerOk, hco] at hcr
    exact ⟨m.consumed + 1, Nat.le_succ _, hcr.1⟩
  | idle => simp only [ConsumerOk, hco] at hcr; exact ⟨_, Nat.le_refl _, hcr⟩
  | looping c => simp only [ConsumerOk, hco] at hcr; exact ⟨_, Nat.le_refl _, hcr.1⟩
  | head c => simp only [ConsumerOk, hco] at hcr; exact ⟨_, Nat.le_refl _, hcr.1⟩
  | found c src dst => simp only [ConsumerOk, hco] at hcr; exact ⟨_, Nat.le_refl _, hcr.1⟩
  | leaving c => simp only [ConsumerOk, hco] at hcr; exact ⟨_, Nat.le_refl _, hcr.1⟩

/-- A copy that is reported done was consumed, as long as the serials did not wrap. -/
theorem done_consumed (h : m.Inv) (hwrap : m.published.length < 2 ^ 64) {i : Nat} {e : LorieGpuCopyEntry}
    (he : m.published[i]? = some e) (hdone : m.lorieGpuCopyIsDone e.serial = true) : i < m.consumed := by
  have hlt : i < m.published.length := (List.getElem?_eq_some_iff.1 he).1
  obtain ⟨k, hk, hstored⟩ := h.stored
  have := h.le
  simp only [lorieGpuCopyIsDone, decide_eq_true_eq, h.serials i e he, hstored, UInt64.le_iff_toNat_le,
    UInt64.toNat_ofNat'] at hdone
  rw [Nat.mod_eq_of_lt (by omega), Nat.mod_eq_of_lt (by omega)] at hdone
  omega

/-- A copy that is reported done was submitted, as long as the serials did not wrap. -/
theorem done_submitted (h : m.Inv) (hwrap : m.published.length < 2 ^ 64) {e : LorieGpuCopyEntry}
    (he : e ∈ m.published) (hdone : m.lorieGpuCopyIsDone e.serial = true) : e ∈ m.submitted := by
  obtain ⟨i, hi⟩ := List.mem_iff_getElem?.1 he
  have hlt := h.done_consumed hwrap hi hdone
  obtain ⟨n, hn, hsub⟩ := h.submitted_eq
  rw [hsub]
  exact List.mem_iff_getElem?.2 ⟨i, by rw [List.getElem?_take_of_lt (by omega)]; exact hi⟩

/-- As long as the serials did not wrap, each names one published entry. -/
theorem serial_inj (h : m.Inv) (hwrap : m.published.length < 2 ^ 64) {i j : Nat} {e f : LorieGpuCopyEntry}
    (he : m.published[i]? = some e) (hf : m.published[j]? = some f) (heq : e.serial = f.serial) : i = j := by
  have hi : i < m.published.length := (List.getElem?_eq_some_iff.1 he).1
  have hj : j < m.published.length := (List.getElem?_eq_some_iff.1 hf).1
  rw [h.serials i e he, h.serials j f hf] at heq
  have := congrArg UInt64.toNat heq
  simp only [UInt64.toNat_ofNat'] at this
  omega

end Inv

/-- A step appends to the pending entries, takes their head, or leaves them. -/
theorem step_pending {m m' : Machine} {a : Action} (h : m.Inv) (hs : m.step a = some m') :
    m'.pending = m.pending ∨ ∃ op, fifoStep queueCapacity m.pending op = some m'.pending := by
  cases a with
  | publish =>
    right
    simp only [step] at hs
    split at hs
    · rename_i w hp
      cases hs
      have hpr := h.producer
      simp only [ProducerOk, hp] at hpr
      refine ⟨.push (m.queue.entries (slot w)), ?_⟩
      have hle := h.le
      have hroom := hpr.2.1
      rw [fifoStep_push (by simp only [pending, List.length_drop]; omega)]
      simp only [pending, List.drop_append_of_le_length h.le]
    · cases hs
  | advance =>
    right
    simp only [step] at hs
    split at hs
    · rename_i c hco
      cases hs
      have hcr := h.consumer
      simp only [ConsumerOk, hco] at hcr
      refine ⟨.pop, ?_⟩
      simp only [pending, List.drop_eq_getElem_cons hcr.2.2, fifoStep_pop]
    · cases hs
  | _ =>
    left
    simp only [step] at hs
    repeat' split at hs
    all_goals cases hs
    all_goals rfl

/-- **The ring refines the bounded FIFO**: the pending entries of a run are those of a queue of `queueCapacity` entries
under pushes and pops. -/
theorem reach_fifo {m : Machine} (h : Reach step Free Machine.init m) :
    Reach (fifoStep queueCapacity) Free [] m.pending :=
  h.simulate pending Inv.init (fun _ a _ hi _ hs => step_inv a hi hs)
    fun _ _ _ hi _ hs => step_pending hi hs

/-! ## Whole runs -/

/-- **The ring is a bounded FIFO over runs of any length**: the machine's distance is at most `queueCapacity`, every
pending entry stands in its slot as it was published, what was submitted is a prefix of what was published (so in order,
and each entry once) and covers what was consumed. As long as fewer than `2 ^ 64` copies were scheduled, a copy
reported done was submitted and `completedSerial` never decreases. -/
theorem gpuCopyQueue_fifo {m m' : Machine} (h : Reach step Free Machine.init m) (h' : Reach step Free m m') :
    (m.queue.writeIndex - m.queue.readIndex).toNat ≤ queueCapacity ∧
    m.queue.readIndex = UInt32.ofNat m.consumed ∧ m.queue.writeIndex = UInt32.ofNat m.published.length ∧
    (∀ i e, m.consumed ≤ i → m.published[i]? = some e → m.queue.entries (slot (UInt32.ofNat i)) = e) ∧
    m.submitted <+: m.published ∧ m.consumed ≤ m.submitted.length ∧
    (m.published.length < 2 ^ 64 → ∀ e ∈ m.published, m.lorieGpuCopyIsDone e.serial = true → e ∈ m.submitted) ∧
    (m'.published.length < 2 ^ 64 → m.queue.completedSerial ≤ m'.queue.completedSerial) := by
  have hi := reach_inv h
  obtain ⟨n, hn, hsub⟩ := hi.submitted_eq
  refine ⟨?_, hi.readIndex, hi.writeIndex, ?_, ?_, ?_, ?_, (reach_completedSerial hi h').2⟩
  · have := hi.bound
    rw [hi.distance]
    omega
  · intro i e hle he
    rw [slot, Lib.slot capacity_dvd]
    exact hi.intact i e hle he
  · rw [hsub]
    exact List.take_prefix _ _
  · have := hi.le
    rw [hsub, List.length_take]
    omega
  · exact fun hwrap e he hdone => hi.done_submitted hwrap he hdone

/-- The steps of a call of `lorieTryScheduleGpuCopy` that finds room. -/
def scheduleActions (r : CopyRequest) : List Action := [.loadWriteIndex, .loadReadIndex, .fillEntry r, .publish]

/-- The steps of a call of `applyPendingGpuCopies` that finds one entry and its buffers. -/
def drainActions : List Action := [.enter true, .test, .findBuffers true, .submit true, .advance, .test, .store]

/-- A copy that is scheduled and drained. -/
theorem gpuCopyQueue_fifo_drain : ∃ m m', exec step Machine.init (scheduleActions ⟨7, 3, 0, 0, [⟨0, 0, 1, 1⟩]⟩) = some m ∧
    exec step m drainActions = some m' ∧ m.queue.completedSerial ≤ m'.queue.completedSerial ∧
    m.queue.completedSerial = 0 ∧ m'.queue.completedSerial = 1 :=
  ⟨_, _, rfl, rfl, (gpuCopyQueue_fifo (.of_exec (scheduleActions ⟨7, 3, 0, 0, [⟨0, 0, 1, 1⟩]⟩) rfl)
    (.of_exec drainActions rfl)).2.2.2.2.2.2.2 (by decide), rfl, rfl⟩

/-! ## The serials wrap -/

section Wrap

variable {m : Machine}

/-- A copy of no pixels. -/
def emptyRequest : CopyRequest := ⟨0, 0, 0, 0, []⟩

/-- One call of `lorieTryScheduleGpuCopy` that finds room. -/
theorem exec_schedule (h : m.Inv) (hp : m.producer = .idle) (hroom : m.published.length < m.consumed + queueCapacity) :
    ∃ m', exec step m (scheduleActions emptyRequest) = some m' ∧
      m'.producer = .idle ∧ m'.published = m.published ++ [⟨m.gpuCopySerialCounter + 1, emptyRequest⟩] ∧
      m'.consumer = m.consumer ∧ m'.consumed = m.consumed ∧ m'.connectionFailed = m.connectionFailed := by
  have hfree : ¬ UInt32.ofNat queueCapacity ≤ m.queue.writeIndex - m.queue.readIndex := by
    have : (UInt32.ofNat queueCapacity).toNat = queueCapacity := rfl
    have := h.le
    rw [UInt32.not_le, UInt32.lt_iff_toNat_lt, h.distance]
    omega
  simp [scheduleActions, exec, step, hp, hfree]

/-- One call of `applyPendingGpuCopies` that drains a ring with one entry. -/
theorem exec_drain (h : m.Inv) (hc : m.consumer = .idle) (hf : m.connectionFailed = false)
    (hone : m.published.length = m.consumed + 1) (hrects : m.headEntry.numRects ≤ UInt16.ofNat maxRects) :
    ∃ m', exec step m drainActions = some m' ∧
      m'.producer = m.producer ∧ m'.published = m.published ∧ m'.consumer = .idle ∧ m'.consumed = m.consumed + 1 ∧
      m'.connectionFailed = false := by
  have hne : m.queue.readIndex ≠ m.queue.writeIndex := by
    rw [Ne, h.empty_iff]
    omega
  have hlast : m.queue.readIndex + 1 = m.queue.writeIndex := by
    rw [h.readIndex, h.writeIndex, hone, ofNat32_succ]
  rw [headEntry] at hrects
  simp [drainActions, exec, step, headEntry, hc, hf, hne, hlast, hrects]

/-- `n` copies were scheduled and executed one by one. -/
theorem reach_cycles (n : Nat) : ∃ m, Reach step Free Machine.init m ∧ m.producer = .idle ∧ m.consumer = .idle ∧
    m.connectionFailed = false ∧ m.published.length = n ∧ m.consumed = n := by
  induction n with
  | zero => exact ⟨_, .refl, rfl, rfl, rfl, rfl, rfl⟩
  | succ n ih =>
    obtain ⟨m, hr, hp, hc, hf, hlen, hcons⟩ := ih
    obtain ⟨m₁, he₁, hp₁, hpub₁, hc₁, hcons₁, hf₁⟩ :=
      exec_schedule (reach_inv hr) hp (by simp only [queueCapacity]; omega)
    have hr₁ := hr.trans (.of_exec _ he₁)
    have hone : m₁.published.length = m₁.consumed + 1 := by simp [hpub₁]; omega
    have hrects : m₁.headEntry.numRects ≤ UInt16.ofNat maxRects := by
      have hhead := (reach_inv hr₁).headEntry_eq (by omega)
      rw [hpub₁, hcons₁, hcons, List.getElem?_append_right (by omega), hlen, Nat.sub_self] at hhead
      rw [← Option.some.inj hhead]
      show UInt16.ofNat 0 ≤ UInt16.ofNat maxRects
      decide
    obtain ⟨m₂, he₂, hp₂, hpub₂, hc₂, hcons₂, hf₂⟩ :=
      exec_drain (reach_inv hr₁) (hc₁.trans hc) (hf₁.trans hf) hone hrects
    exact ⟨m₂, hr₁.trans (.of_exec _ he₂), hp₂.trans hp₁, hc₂, hf₂, by rw [hpub₂]; omega, by omega⟩

/-- After `2 ^ 64 - 1` copies the next one gets the serial `0`, which counts as done before it is submitted. -/
theorem isDone_before_submit : ∃ m, Reach step Free Machine.init m ∧
    ∃ e ∈ m.published, m.lorieGpuCopyIsDone e.serial = true ∧ e ∉ m.submitted := by
  obtain ⟨m, hr, hp, hc, -, hlen, hcons⟩ := reach_cycles (2 ^ 64 - 1)
  obtain ⟨m₁, he₁, -, hpub₁, hc₁, hcons₁, -⟩ :=
    exec_schedule (reach_inv hr) hp (by simp only [queueCapacity]; omega)
  have hr₁ := hr.trans (.of_exec _ he₁)
  have hlast : m₁.published[2 ^ 64 - 1]? = some ⟨m.gpuCopySerialCounter + 1, emptyRequest⟩ := by
    rw [hpub₁, List.getElem?_append_right (by omega), hlen, Nat.sub_self]
    rfl
  have hzero := (reach_inv hr₁).serials _ _ hlast
  refine ⟨m₁, hr₁, _, List.mem_of_getElem? hlast, ?_, ?_⟩
  · rw [hzero]
    simp [lorieGpuCopyIsDone]
  · -- the submitted entries are the first `2 ^ 64 - 1`, and none of these has the serial `0`
    have hcr := (reach_inv hr₁).consumer
    simp only [ConsumerOk, hc₁, hc, hcons₁, hcons] at hcr
    rw [hcr]
    intro hmem
    obtain ⟨i, hi⟩ := List.mem_iff_getElem?.1 hmem
    have hlt : i < 2 ^ 64 - 1 := by
      have := (List.getElem?_eq_some_iff.1 hi).1
      simp only [List.length_take] at this
      omega
    rw [List.getElem?_take_of_lt hlt] at hi
    have hser := hzero.symm.trans ((reach_inv hr₁).serials _ _ hi)
    have := congrArg UInt64.toNat hser
    simp only [UInt64.toNat_ofNat'] at this
    omega

end Wrap

end Machine

end Lorie.GpuCopy
