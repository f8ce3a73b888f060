import Lorie.DataExchange.Contents

/-!
# Sending a selection

What is written for a file that the host gave. A run is smooth when all calls succeed and nothing happens to the transfer
from outside; in other runs the transfer may fail, and then it wrote a part.

- `Whole`, `Part`: the values of a file;
- `Sending.Moving`, `Sending.Over`: a file on its way, and behind its end; the facts under `smooth` hold in smooth runs;
- `Sending.Replied.cases`: one of the two, behind the answer of the host;
- `Sending.Moving.ends`: a client that reads and deletes each value gets to the end.
-/

namespace Lorie.DataExchange

open Lorie.Lib State

/-! ## Values -/

/-- The bytes of the values; an announcement has none. -/
def bytes (vs : List Content) : List UInt8 := (vs.filter fun p => p.format = 8).flatMap Content.data

/-- Pieces of a file -/
def Chunks (chunks : List (List UInt8)) : Prop := ∀ c ∈ chunks, c ≠ [] ∧ c.length ≤ chunkSize

/-- What is written for a file: the content itself, or its announcement, its pieces and an empty value. -/
def Whole (content : List UInt8) (target : Atom) (vs : List Content) : Prop :=
  if content.length ≤ chunkSize then vs = [.piece target content]
  else ∃ chunks, Chunks chunks ∧ chunks.flatten = content ∧
    vs = .announcement content.length :: (chunks.map (.piece target) ++ [.piece target []])

/-- What was written when a transfer goes on or failed: perhaps nothing, or the first pieces and perhaps an empty value. -/
def Part (content : List UInt8) (target : Atom) (vs : List Content) : Prop :=
  vs = [] ∨ if content.length ≤ chunkSize then vs = [.piece target content]
    else ∃ chunks tail, Chunks chunks ∧ chunks.flatten <+: content ∧ (tail = [] ∨ tail = [.piece target []]) ∧
      vs = .announcement content.length :: (chunks.map (.piece target) ++ tail)

/-- More was announced or written than the limit allows. -/
def Exceeds (vs : List Content) : Prop :=
  (∃ n, n < 2 ^ 32 ∧ vs = [.announcement n] ∧ maxBytes < n) ∨ maxBytes < (bytes vs).length

section Values

variable {vs ws : List Content} {content : List UInt8} {target : Atom}

@[simp] theorem bytes_append (vs ws : List Content) : bytes (vs ++ ws) = bytes vs ++ bytes ws := by
  simp [bytes]

@[simp] theorem bytes_piece (target : Atom) (data : List UInt8) : bytes [.piece target data] = data := by
  simp [bytes, Content.piece]

@[simp] theorem bytes_announcement (n : Nat) (vs : List Content) : bytes (.announcement n :: vs) = bytes vs := by
  simp [bytes, Content.announcement]

theorem bytes_pieces (target : Atom) (chunks : List (List UInt8)) : bytes (chunks.map (.piece target)) = chunks.flatten := by
  induction chunks with
  | nil => rfl
  | cons c chunks ih =>
    rw [List.map_cons, ← List.singleton_append, bytes_append, bytes_piece, ih, List.flatten_cons]

/-- The bytes of what is written for a file are the file. -/
theorem Whole.bytes (h : Whole content target vs) : bytes vs = content := by
  unfold Whole at h
  split at h
  · rw [h, bytes_piece]
  · obtain ⟨chunks, -, hflat, rfl⟩ := h
    rw [bytes_announcement, bytes_append, bytes_pieces, bytes_piece, hflat, List.append_nil]

theorem Whole.part (h : Whole content target vs) : Part content target vs := by
  unfold Whole at h
  right
  split
  · rwa [if_pos ‹_›] at h
  · rw [if_neg ‹_›] at h
    obtain ⟨chunks, hchunks, hflat, hvs⟩ := h
    exact ⟨chunks, _, hchunks, hflat ▸ List.prefix_refl _, .inr rfl, hvs⟩

/-- The announcement is read as it was written. -/
theorem cardinal_card32 {n : Nat} (h : n < 2 ^ 32) : cardinal (card32 n) = n := by
  simp only [card32, cardinal, List.map_cons, List.map_nil, UInt8.toNat_ofNat']
  omega

theorem pread_length {file : List UInt8} {length offset : Nat} (h : offset + length ≤ file.length) :
    (pread file length offset).length = length := by
  rw [pread, List.length_take, List.length_drop]
  omega

theorem pwrite_end (file data : List UInt8) : pwrite file data file.length = file ++ data := by
  simp [pwrite]

end Values

/-- All calls succeed. -/
def Answers.Succeed (a : Answers) : Prop :=
  a.file ≠ .failed ∧ a.pwrite = true ∧ a.pread = true ∧ a.change = true ∧ a.queued = true

/-! ## The end of a transfer -/

namespace Flow

variable (f : Flow)

@[simp] theorem values_send (d : Delivery) : (f.send d).values = f.values := rfl

@[simp] theorem values_release : f.release.values = f.values := by
  unfold release
  split <;> rfl

@[simp] theorem out_release : f.release.out = f.out := by
  unfold release
  split <;> rfl

@[simp] theorem target_release : f.release.transfer.target = f.transfer.target := by
  unfold release
  split <;> rfl

@[simp] theorem queued_release : f.release.transfer.queued = f.transfer.queued := by
  unfold release
  split <;> rfl

@[simp] theorem requestor_release : f.release.transfer.requestor = f.transfer.requestor := by
  unfold release
  split <;> rfl

@[simp] theorem size_release : f.release.transfer.size = f.transfer.size := by
  unfold release
  split <;> rfl

/-- The property of a client stays. -/
theorem property_release {f : Flow} (h : f.transfer.incoming = false) : f.release.property = f.property := by
  unfold release
  split
  · rfl
  · simp [h]

@[simp] theorem values_notify (success : Bool) : (f.notify success).values = f.values := by
  unfold notify
  split <;> rfl

@[simp] theorem property_notify (success : Bool) : (f.notify success).property = f.property := by
  unfold notify
  split <;> rfl

@[simp] theorem window_notify (success : Bool) : (f.notify success).window = f.window := by
  unfold notify
  split <;> rfl

@[simp] theorem file_notify (success : Bool) : (f.notify success).file = f.file := by
  unfold notify
  split <;> rfl

theorem told_notify {f : Flow} (hw : f.window = true) (success : Bool) :
    (f.notify success).transfer.requestor.any Window.clientOwned = true → .notify success ∈ (f.notify success).out := by
  rw [transfer_notify]
  intro hclient
  rw [notify, if_pos ⟨hw, hclient⟩]
  exact List.mem_append_right _ List.mem_cons_self

theorem requestor_refuse (a : Answers) : (f.refuse a).transfer.requestor = f.transfer.requestor := by
  unfold refuse
  split
  · split <;> rfl
  · split
    · rw [transfer_notify]
    · split <;> rfl

/-- A transfer to a client keeps its requestor. -/
theorem requestor_propertyWork {f : Flow} (hin : f.transfer.incoming = false) (a : Answers) :
    (f.propertyWork a).transfer.requestor = f.transfer.requestor := by
  have hput : ∀ bytes, (f.unqueued.put bytes a).transfer.requestor = f.transfer.requestor := by
    intro bytes
    rw [put_advance]
    rfl
  unfold propertyWork sendChunk
  dsimp only
  rw [if_neg (Bool.eq_false_iff.1 hin)]
  split
  · exact requestor_release _
  · split
    · rw [fail, requestor_release, requestor_refuse]
      rfl
    · split
      · rw [requestor_release, hput]
      · exact hput _

/-- `fail` writes an empty value for an incremental transfer to a client, when it can. -/
theorem refuse_incremental {f : Flow} (hin : f.transfer.incoming = false) (hinc : f.transfer.incremental = true)
    (a : Answers) : ∃ tail, (tail = [] ∨ tail = [.piece f.transfer.target []]) ∧
      (f.refuse a).values = f.values ++ tail ∧ (f.refuse a).transfer = f.transfer := by
  unfold refuse
  rw [if_neg (by rw [hin]; nofun), if_neg (by rw [hinc]; nofun)]
  split
  · exact ⟨_, .inr rfl, rfl, rfl⟩
  · exact ⟨[], .inl rfl, (List.append_nil _).symm, rfl⟩

/-- The callback of a change that an incremental transfer waits for -/
theorem propertyChanged_eq {f : Flow} (hu : f.transfer.used = true) (hinc : f.transfer.incremental = true) {new : Bool}
    (hin : f.transfer.incoming = new) (a : Answers) :
    f.propertyChanged new a = f.withTransfer fun t => { t with queued := t.queued || a.queued } := by
  unfold propertyChanged
  split
  · rename_i hg
    simp only [withTransfer, hg.2.2.2.2, Bool.or_true]
  · rename_i hg
    have hsame : (f.transfer.queued || a.queued) = f.transfer.queued := by
      cases hq : f.transfer.queued with
      | true => rfl
      | false => exact Bool.eq_false_iff.2 fun ha => hg ⟨hu, hinc, hq, hin, ha⟩
    rw [withTransfer, hsame]

end Flow

/-! ## Sending -/

namespace Sending

/-- Nothing goes wrong in a step. -/
def Action.Smooth : Action → Prop
  | .reply _ a | .read a | .work a => a.Succeed
  | .suffer (.outdated _) => True
  | .suffer _ => False

/-- The host was asked and did not answer yet. -/
structure Waiting (smooth : Prop) (s : Sending) : Prop where
  used : s.flow.transfer.used = true
  incoming : s.flow.transfer.incoming = false
  incremental : s.flow.transfer.incremental = false
  queued : s.flow.transfer.queued = false
  offset : s.flow.transfer.offset = 0
  history : s.flow.values = [] ∧ .notify true ∉ s.flow.out ∧ s.got = []
  calm : smooth → s.flow.window = true

/-- A client that asked was notified. -/
def Told (s : Sending) : Prop := s.flow.transfer.requestor.any Window.clientOwned = true → .notify true ∈ s.flow.out

/-- Between the announcement and the empty value -/
structure Moving (smooth : Prop) (content : List UInt8) (s : Sending) : Prop where
  used : s.flow.transfer.used = true
  incoming : s.flow.transfer.incoming = false
  incremental : s.flow.transfer.incremental = true
  large : chunkSize < content.length
  file : s.flow.file = content
  size : s.flow.transfer.size = content.length
  offset : s.flow.transfer.offset ≤ content.length
  values : ∃ chunks, Chunks chunks ∧ chunks.flatten = content.take s.flow.transfer.offset ∧
    s.flow.values = .announcement content.length :: chunks.map (.piece s.flow.transfer.target)
  told : s.Told
  calm : smooth → s.flow.window = true ∧ (s.flow.transfer.queued = true ↔ s.flow.property = none) ∧
    s.got ++ s.flow.property.toList = s.flow.values

/-- Behind the end -/
structure Over (smooth : Prop) (content : List UInt8) (s : Sending) : Prop where
  used : s.flow.transfer.used = false
  part : Part content s.flow.transfer.target s.flow.values
  calm : smooth → Whole content s.flow.transfer.target s.flow.values ∧
    s.got ++ s.flow.property.toList = s.flow.values ∧ s.flow.transfer.queued = false ∧ s.Told

variable {smooth : Prop} {content : List UInt8} {s t : Sending} {a : Answers}

/-- What was written, when the transfer fails: perhaps an empty value more. -/
theorem Moving.part (h : Moving smooth content s) {tail : List Content}
    (ht : tail = [] ∨ tail = [.piece s.flow.transfer.target []]) :
    Part content s.flow.transfer.target (s.flow.values ++ tail) := by
  obtain ⟨chunks, hchunks, hflat, hvalues⟩ := h.values
  have hlarge := h.large
  right
  rw [if_neg (by omega)]
  refine ⟨chunks, tail, hchunks, ?_, ht, ?_⟩
  · rw [hflat]
    exact List.take_prefix _ _
  · rw [hvalues, List.cons_append]

/-- A failure on the way -/
theorem Moving.fail (h : Moving smooth content s) (hs : ¬smooth) (a : Answers) (f : Flow) (hv : f.values = s.flow.values)
    (ht : f.transfer = { s.flow.transfer with queued := f.transfer.queued }) (got : List Content) :
    Over smooth content ⟨f.fail a, got⟩ := by
  have htarget : f.transfer.target = s.flow.transfer.target := by rw [ht]
  obtain ⟨tail, htail, hvalues, hsame⟩ := Flow.refuse_incremental (f := f) (by rw [ht]; exact h.incoming)
    (by rw [ht]; exact h.incremental) a
  refine ⟨Flow.used_fail f a, ?_, fun hc => absurd hc hs⟩
  dsimp only
  rw [Flow.fail, Flow.target_release, Flow.values_release, hvalues, hsame, hv, htarget]
  rw [htarget] at htail
  exact h.part htail

/-- The end on the way -/
theorem Moving.release (h : Moving smooth content s) (hs : ¬smooth) (f : Flow) (hv : f.values = s.flow.values)
    (ht : f.transfer.target = s.flow.transfer.target) (got : List Content) : Over smooth content ⟨f.release, got⟩ := by
  refine ⟨Flow.used_release f, ?_, fun hc => absurd hc hs⟩
  dsimp only
  rw [Flow.target_release, Flow.values_release, hv, ht, ← List.append_nil s.flow.values]
  exact h.part (.inl rfl)

/-- Everything was read when the next piece is due. -/
theorem Moving.got (h : Moving smooth content s) (hq : s.flow.transfer.queued = true) (hc : smooth) :
    s.got = s.flow.values := by
  obtain ⟨-, hflag, hgot⟩ := h.calm hc
  rw [hflag.1 hq] at hgot
  simpa using hgot

theorem Moving.chunk_eq (h : Moving smooth content s) :
    chunk s.flow.unqueued.transfer = min chunkSize (content.length - s.flow.transfer.offset) := by
  rw [← h.size]
  rfl

/-- The piece is as long as it should be. -/
theorem Moving.length_pread (h : Moving smooth content s) :
    (pread content (chunk s.flow.unqueued.transfer) s.flow.transfer.offset).length =
      chunk s.flow.unqueued.transfer := by
  refine pread_length ?_
  have hoffset := h.offset
  rw [h.chunk_eq]
  omega

/-- The empty value -/
theorem Moving.lastPiece (h : Moving smooth content s) (hq : s.flow.transfer.queued = true)
    (hlast : chunk s.flow.unqueued.transfer = 0) :
    Over smooth content
      ⟨(s.flow.unqueued.advance.change (.piece s.flow.transfer.target [])).release, s.got⟩ := by
  obtain ⟨chunks, hchunks, hflat, hvalues⟩ := h.values
  have hend : s.flow.transfer.offset = content.length := by
    have hpos : 0 < chunkSize := by decide
    have hoffset := h.offset
    have hchunk := h.chunk_eq
    omega
  have hwhole : Whole content s.flow.transfer.target (s.flow.values ++ [.piece s.flow.transfer.target []]) := by
    have hlarge := h.large
    unfold Whole
    rw [if_neg (by omega)]
    refine ⟨chunks, hchunks, ?_, ?_⟩
    · rw [hflat, hend, List.take_length]
    · rw [hvalues, List.cons_append]
  refine ⟨Flow.used_release _, ?_, fun hc => ⟨?_, ?_, ?_, ?_⟩⟩
  · dsimp only
    rw [Flow.values_release, Flow.target_release]
    exact hwhole.part
  · dsimp only
    rw [Flow.values_release, Flow.target_release]
    exact hwhole
  · dsimp only
    rw [Flow.values_release, Flow.property_release (by exact h.incoming), h.got hq hc]
    rfl
  · exact Flow.queued_release _
  · unfold Told
    rw [Flow.out_release, Flow.requestor_release]
    exact h.told

/-- A piece of the file -/
theorem Moving.nextPiece (h : Moving smooth content s) (hq : s.flow.transfer.queued = true)
    (hmore : chunk s.flow.unqueued.transfer ≠ 0) :
    Moving smooth content ⟨s.flow.unqueued.advance.change (.piece s.flow.transfer.target
      (pread content (chunk s.flow.unqueued.transfer) s.flow.transfer.offset)), s.got⟩ := by
  obtain ⟨chunks, hchunks, hflat, hvalues⟩ := h.values
  obtain ⟨piece, hpiece⟩ : ∃ piece,
      piece = pread content (chunk s.flow.unqueued.transfer) s.flow.transfer.offset := ⟨_, rfl⟩
  have hlen := h.length_pread
  have hchunk := h.chunk_eq
  rw [← hpiece] at hlen ⊢
  refine ⟨h.used, h.incoming, h.incremental, h.large, h.file, h.size, ?_, ⟨chunks ++ [piece], ?_, ?_, ?_⟩, h.told,
    fun hc => ⟨(h.calm hc).1, ?_, ?_⟩⟩
  · show s.flow.transfer.offset + chunk s.flow.unqueued.transfer ≤ _
    have hoffset := h.offset
    omega
  · intro c hc
    rcases List.mem_append.1 hc with hc | hc
    · exact hchunks c hc
    · rw [List.mem_singleton.1 hc]
      refine ⟨fun hnil => hmore ?_, ?_⟩
      · rw [← hlen, hnil, List.length_nil]
      · omega
  · show _ = content.take (s.flow.transfer.offset + chunk s.flow.unqueued.transfer)
    rw [List.flatten_append, hflat, List.flatten_singleton, List.take_add, hpiece]
    rfl
  · show s.flow.values ++ [.piece s.flow.transfer.target piece] =
      .announcement content.length :: (chunks ++ [piece]).map (.piece s.flow.transfer.target)
    rw [hvalues, List.map_append, List.cons_append]
    rfl
  · exact ⟨nofun, nofun⟩
  · show s.got ++ [.piece s.flow.transfer.target piece] = s.flow.values ++ [.piece s.flow.transfer.target piece]
    rw [h.got hq hc]

/-- Deferred work: the next piece of the file, or its end -/
theorem Moving.work (h : Moving smooth content s) (hq : s.flow.transfer.queued = true) (ha : smooth → a.Succeed) :
    (Moving smooth content { s with flow := s.flow.propertyWork a } ∧
        s.flow.transfer.offset < (s.flow.propertyWork a).transfer.offset) ∨
      Over smooth content { s with flow := s.flow.propertyWork a } := by
  have hlen := h.length_pread
  rw [← h.file] at hlen
  unfold Flow.propertyWork Flow.sendChunk
  dsimp only
  rw [if_neg (Bool.eq_false_iff.1 h.incoming)]
  by_cases hwindow : s.flow.unqueued.window = false
  · -- the window is gone
    rw [if_pos hwindow]
    refine .inr (h.release (fun hc => ?_) s.flow.unqueued rfl rfl s.got)
    have hlive : s.flow.unqueued.window = true := (h.calm hc).1
    rw [hwindow] at hlive
    cases hlive
  rw [if_neg hwindow]
  by_cases hread : chunk s.flow.unqueued.transfer ≠ 0 ∧ (a.pread = false ∨ (pread s.flow.unqueued.file
      (chunk s.flow.unqueued.transfer) s.flow.unqueued.transfer.offset).length ≠
        chunk s.flow.unqueued.transfer)
  · -- the file cannot be read
    rw [if_pos hread]
    refine .inr (h.fail (fun hc => ?_) a s.flow.unqueued rfl rfl s.got)
    have hpread := hread.2.resolve_right (not_not.2 hlen)
    rw [(ha hc).2.2.1] at hpread
    cases hpread
  rw [if_neg hread]
  cases hchange : a.change with
  | false =>
    -- the property cannot be written
    rw [if_pos ⟨h.incremental, .inl rfl⟩, Flow.put, if_neg (by rw [hchange]; nofun)]
    refine .inr (h.release (fun hc => ?_) s.flow.unqueued.advance rfl rfl s.got)
    have hwritten := (ha hc).2.2.2.1
    rw [hchange] at hwritten
    cases hwritten
  | true =>
    by_cases hlast : chunk s.flow.unqueued.transfer = 0
    · rw [if_pos ⟨h.incremental, .inr hlast⟩, Flow.put, if_pos hchange, hlast, pread, List.take_zero]
      exact .inr (h.lastPiece hq hlast)
    · rw [if_neg fun hc => hc.2.elim nofun hlast, Flow.put, if_pos hchange]
      have hfile : s.flow.unqueued.file = content := h.file
      rw [hfile]
      refine .inl ⟨h.nextPiece hq hlast, ?_⟩
      show s.flow.transfer.offset < s.flow.transfer.offset + chunk s.flow.unqueued.transfer
      omega

/-- Nothing happens to a transfer that ended but that its last value is read. -/
theorem Over.step (h : Over smooth content s) {b : Action} (hc : smooth → b.Smooth) (hs : step s b = some t) :
    Over smooth content t := by
  have hidle : ¬(s.flow.transfer.used = true) := by rw [h.used]; nofun
  cases b with
  | reply file a =>
    simp only [Sending.step] at hs
    rw [if_neg fun hg => hidle hg.1] at hs
    cases hs
  | work a =>
    simp only [Sending.step] at hs
    rw [if_neg fun hg => hidle hg.1] at hs
    cases hs
  | read a =>
    simp only [Sending.step] at hs
    split at hs
    · rename_i p hp
      split at hs
      · cases hs
        have hsame : ({ s.flow with property := none } : Flow).propertyChanged false a = { s.flow with property := none } :=
          if_neg fun hg => hidle hg.1
        rw [hsame]
        refine ⟨h.used, h.part, fun hc => ⟨(h.calm hc).1, ?_, (h.calm hc).2.2⟩⟩
        have hgot := (h.calm hc).2.1
        rw [hp] at hgot
        show (s.got ++ [p]) ++ [] = s.flow.values
        rw [List.append_nil]
        exact hgot
      · cases hs
    · cases hs
  | suffer m =>
    cases hs
    cases m with
    | failed a =>
      rw [Flow.suffer, if_neg hidle]
      exact h
    | released =>
      rw [Flow.suffer, Flow.release, if_pos h.used]
      exact h
    | lost => exact ⟨h.used, h.part, fun hg => (hc hg).elim⟩
    | outdated g => exact ⟨h.used, h.part, h.calm⟩

theorem Moving.step (h : Moving smooth content s) {b : Action} (hc : smooth → b.Smooth) (hs : step s b = some t) :
    Moving smooth content t ∨ Over smooth content t := by
  cases b with
  | reply file a =>
    simp only [Sending.step] at hs
    rw [if_neg fun hg => by rw [h.incremental] at hg; exact nomatch hg.2] at hs
    cases hs
  | work a =>
    simp only [Sending.step] at hs
    split at hs
    · rename_i hg
      cases hs
      exact (h.work hg.2 hc).imp And.left id
    · cases hs
  | read a =>
    simp only [Sending.step] at hs
    split at hs
    · rename_i p hp
      split at hs
      · cases hs
        left
        -- the callback queues the next piece
        rw [Flow.propertyChanged_eq (by exact h.used) (by exact h.incremental) (by exact h.incoming)]
        refine ⟨h.used, h.incoming, h.incremental, h.large, h.file, h.size, h.offset, h.values, h.told,
          fun hg => ⟨(h.calm hg).1, ?_, ?_⟩⟩
        · have hqueued : a.queued = true := (hc hg).2.2.2.2
          simp [Flow.withTransfer, hqueued]
        · have hgot := (h.calm hg).2.2
          rw [hp] at hgot
          show (s.got ++ [p]) ++ [] = s.flow.values
          rw [List.append_nil]
          exact hgot
      · cases hs
    · cases hs
  | suffer m =>
    cases hs
    cases m with
    | failed a =>
      rw [Flow.suffer, if_pos h.used]
      exact .inr (h.fail (fun hg => hc hg) a s.flow rfl rfl s.got)
    | released => exact .inr (h.release (fun hg => hc hg) s.flow rfl rfl s.got)
    | lost =>
      exact .inl ⟨h.used, h.incoming, h.incremental, h.large, h.file, h.size, h.offset, h.values, h.told,
        fun hg => (hc hg).elim⟩
    | outdated g =>
      exact .inl ⟨h.used, h.incoming, h.incremental, h.large, h.file, h.size, h.offset, h.values, h.told, h.calm⟩

/-- `sendChunk` of a small file fails, or takes it as a whole. -/
theorem Waiting.sendChunk (h : Waiting smooth s) (hsmall : content.length ≤ chunkSize) (hwindow : s.flow.window = true)
    (ha : smooth → a.Succeed) :
    (¬smooth ∧ (s.flow.takeFile content).sendChunk a = ((s.flow.takeFile content).fail a, false)) ∨
      (s.flow.takeFile content).sendChunk a = ((s.flow.takeFile content).put content a, a.change) := by
  have hchunk : chunk (s.flow.takeFile content).transfer = content.length := by
    show min chunkSize (content.length - s.flow.transfer.offset) = _
    rw [h.offset]
    omega
  have hpread : pread (s.flow.takeFile content).file content.length (s.flow.takeFile content).transfer.offset = content := by
    show pread content content.length s.flow.transfer.offset = content
    rw [h.offset, pread, List.drop_zero, List.take_length]
  have hinc : ¬(s.flow.takeFile content).transfer.incremental = true := by
    rw [show (s.flow.takeFile content).transfer.incremental = false from h.incremental]
    nofun
  unfold Flow.sendChunk
  dsimp only
  rw [if_neg (by rw [show (s.flow.takeFile content).window = true from hwindow]; nofun), hchunk, hpread]
  split
  · rename_i hread
    refine .inl ⟨fun hc => ?_, rfl⟩
    have hbad : a.pread = false := hread.2.resolve_right (not_not.2 rfl)
    rw [(ha hc).2.2.1] at hbad
    cases hbad
  · exact .inr (if_neg fun hc => hinc hc.1)

/-- A small file is sent as a whole. -/
theorem Waiting.sendWhole (h : Waiting smooth s) (hsmall : content.length ≤ chunkSize)
    (hwindow : s.flow.window = true) (ha : smooth → a.Succeed) :
    Over smooth content { s with flow := (s.flow.takeFile content).sendWhole a } := by
  obtain ⟨hvalues, -, hgot⟩ := h.history
  unfold Flow.sendWhole
  rcases h.sendChunk hsmall hwindow ha with ⟨hno, heq⟩ | heq
  · -- the client is told the failure
    have hused := Flow.used_fail (s.flow.takeFile content) a
    have hrefuse : (s.flow.takeFile content).refuse a = (s.flow.takeFile content).notify false := by
      unfold Flow.refuse
      rw [if_neg (by exact Bool.eq_false_iff.1 h.incoming), if_pos (by exact h.incremental)]
    rw [heq]
    dsimp only
    rw [if_neg (by rw [hused]; nofun)]
    refine ⟨Flow.used_release _, .inl ?_, fun hc => absurd hc hno⟩
    dsimp only
    rw [Flow.values_release, Flow.fail, Flow.values_release, hrefuse, Flow.values_notify]
    exact hvalues
  · have hput := Flow.put_advance (s.flow.takeFile content) content a
    rw [heq]
    dsimp only
    rw [if_pos (by rw [hput]; exact h.used)]
    unfold Flow.put
    cases hchange : a.change with
    | false =>
      rw [if_neg nofun]
      refine ⟨Flow.used_release _, .inl ?_, fun hc => ?_⟩
      · dsimp only
        rw [Flow.values_release, Flow.values_notify]
        exact hvalues
      · have hwritten := (ha hc).2.2.2.1
        rw [hchange] at hwritten
        cases hwritten
    | true =>
      rw [if_pos rfl]
      obtain ⟨f, hf⟩ : ∃ f, f = (s.flow.takeFile content).advance.change
        (.piece (s.flow.takeFile content).transfer.target content) := ⟨_, rfl⟩
      have htarget : f.transfer.target = s.flow.transfer.target := by rw [hf]; rfl
      have hwritten : f.values = [.piece s.flow.transfer.target content] := by
        rw [hf]
        show s.flow.values ++ _ = _
        rw [hvalues]
        rfl
      have hwhole : Whole content s.flow.transfer.target f.values := (if_pos hsmall).mpr hwritten
      rw [← hf]
      refine ⟨Flow.used_release _, ?_, fun _ => ⟨?_, ?_, ?_, ?_⟩⟩
      all_goals try dsimp only
      · rw [Flow.target_release, Flow.transfer_notify, Flow.values_release, Flow.values_notify, htarget]
        exact hwhole.part
      · rw [Flow.target_release, Flow.transfer_notify, Flow.values_release, Flow.values_notify, htarget]
        exact hwhole
      · rw [Flow.property_release (by rw [Flow.transfer_notify, hf]; exact h.incoming), Flow.property_notify,
          Flow.values_release, Flow.values_notify, hwritten, hgot, hf]
        rfl
      · rw [Flow.queued_release, Flow.transfer_notify, hf]
        exact h.queued
      · unfold Told
        rw [Flow.out_release, Flow.requestor_release]
        exact Flow.told_notify (by rw [hf]; exact hwindow) true

theorem Waiting.startIncremental (h : Waiting smooth s)
    (hlarge : chunkSize < content.length) (ha : smooth → a.Succeed) (hwindow : s.flow.window = true) :
    Moving smooth content { s with flow := (s.flow.takeFile content).startIncremental a } ∨
      Over smooth content { s with flow := (s.flow.takeFile content).startIncremental a } := by
  obtain ⟨hvalues, -, hgot⟩ := h.history
  unfold Flow.startIncremental
  dsimp only
  cases hchange : a.change with
  | false =>
    rw [if_neg nofun]
    refine .inr ⟨Flow.used_release _, .inl ?_, fun hc => ?_⟩
    · rw [Flow.values_release, Flow.values_notify]
      exact hvalues
    · have := (ha hc).2.2.2.1
      rw [hchange] at this
      cases this
  | true =>
    left
    rw [if_pos rfl, if_pos rfl]
    obtain ⟨f, hf⟩ : ∃ f, f = ((s.flow.takeFile content).withTransfer fun t => { t with incremental := true }).change
      (.announcement content.length) := ⟨_, rfl⟩
    have ht : (f.notify true).transfer = f.transfer := Flow.transfer_notify f true
    have hstart : f.transfer.offset = 0 ∧ f.transfer.queued = false ∧ f.values = [.announcement content.length] ∧
        f.property = some (.announcement content.length) := by
      rw [hf]
      refine ⟨h.offset, h.queued, ?_, rfl⟩
      show s.flow.values ++ _ = _
      rw [hvalues, List.nil_append]
    obtain ⟨hoffset, hq, hwritten, hproperty⟩ := hstart
    rw [show ((s.flow.takeFile content).withTransfer fun t => { t with incremental := true }).change (.announcement
      ((s.flow.takeFile content).withTransfer fun t => { t with incremental := true }).transfer.size) = f from hf.symm]
    refine ⟨?_, ?_, ?_, hlarge, ?_, ?_, ?_, ⟨[], nofun, ?_, ?_⟩, ?_, fun _ => ⟨?_, ?_, ?_⟩⟩
    all_goals try dsimp only
    · rw [ht, hf]
      exact h.used
    · rw [ht, hf]
      exact h.incoming
    · rw [ht, hf]
      rfl
    · rw [Flow.file_notify, hf]
      rfl
    · rw [ht, hf]
      rfl
    · rw [ht, hoffset]
      exact Nat.zero_le _
    · rw [ht, hoffset]
      rfl
    · rw [Flow.values_notify]
      exact hwritten
    · exact Flow.told_notify (by rw [hf]; exact hwindow) true
    · rw [Flow.window_notify, hf]
      exact hwindow
    · rw [ht, hq, Flow.property_notify, hproperty]
      exact ⟨nofun, nofun⟩
    · rw [hgot, Flow.property_notify, hproperty, Flow.values_notify, hwritten]
      rfl

/-- The host answers. -/
theorem Waiting.reply (h : Waiting smooth s) (hmax : content.length ≤ maxBytes) (ha : smooth → a.Succeed) :
    Moving smooth content { s with flow := s.flow.reply (some content) a } ∨
      Over smooth content { s with flow := s.flow.reply (some content) a } := by
  obtain ⟨hvalues, -, hgot⟩ := h.history
  unfold Flow.reply
  dsimp only
  rw [if_neg (by omega)]
  unfold Flow.deliver
  split
  · rename_i hwindow
    refine .inr ⟨Flow.used_release _, .inl ?_, fun hc => ?_⟩
    · rw [Flow.values_release]
      exact hvalues
    · have hlive : (s.flow.takeFile content).window = true := h.calm hc
      rw [hwindow] at hlive
      cases hlive
  · rename_i hwindow
    rw [Bool.not_eq_false] at hwindow
    have hlive : s.flow.window = true := hwindow
    have hsize : (s.flow.takeFile content).transfer.size = content.length := rfl
    rw [hsize]
    split
    · exact h.startIncremental ‹_› ha hlive
    · exact .inr (h.sendWhole (by omega) hlive ha)

/-- A transfer that ended does not begin again. -/
theorem unused_step (h : s.flow.transfer.used = false) {b : Action} (hs : step s b = some t) :
    t.flow.transfer.used = false := by
  have hidle : ¬(s.flow.transfer.used = true) := by rw [h]; nofun
  cases b with
  | reply file a =>
    simp only [Sending.step] at hs
    rw [if_neg fun hg => hidle hg.1] at hs
    cases hs
  | work a =>
    simp only [Sending.step] at hs
    rw [if_neg fun hg => hidle hg.1] at hs
    cases hs
  | read a =>
    simp only [Sending.step] at hs
    split at hs
    · split at hs
      · cases hs
        rw [Flow.propertyChanged, if_neg fun hg => hidle hg.1]
        exact h
      · cases hs
    · cases hs
  | suffer m =>
    cases hs
    cases m with
    | failed a =>
      rw [Flow.suffer, if_neg hidle]
      exact h
    | released => exact Flow.used_release _
    | lost => exact h
    | outdated g => exact h

/-- Before the host answers, nothing is written. -/
theorem Waiting.step (h : Waiting smooth s) {b : Action} (hc : smooth → b.Smooth) (hs : step s b = some t) :
    Waiting smooth t ∨ t.flow.transfer.used = false ∨ ∃ content, Moving smooth content t := by
  cases b with
  | reply file a =>
    simp only [Sending.step] at hs
    rw [if_pos ⟨h.used, h.incremental⟩] at hs
    cases hs
    right
    by_cases hmax : ∃ content, file = some content ∧ content.length ≤ maxBytes
    · obtain ⟨content, rfl, hmax⟩ := hmax
      rcases h.reply hmax hc with hm | ho
      · exact .inr ⟨content, hm⟩
      · exact .inl ho.used
    · left
      unfold Flow.reply
      split
      · rename_i content
        rw [if_pos (Nat.lt_of_not_le fun hle => hmax ⟨content, rfl, hle⟩)]
        exact Flow.used_fail _ a
      · exact Flow.used_fail _ a
  | work a =>
    simp only [Sending.step] at hs
    rw [if_neg fun hg => by rw [h.queued] at hg; exact nomatch hg.2] at hs
    cases hs
  | read a =>
    simp only [Sending.step] at hs
    split at hs
    · rw [if_neg h.history.2.1] at hs
      cases hs
    · cases hs
  | suffer m =>
    cases hs
    cases m with
    | failed a =>
      rw [Flow.suffer, if_pos h.used]
      exact .inr (.inl (Flow.used_fail _ a))
    | released => exact .inr (.inl (Flow.used_release _))
    | lost =>
      exact .inl ⟨h.used, h.incoming, h.incremental, h.queued, h.offset, h.history, fun hg => (hc hg).elim⟩
    | outdated g => exact .inl ⟨h.used, h.incoming, h.incremental, h.queued, h.offset, h.history, h.calm⟩

theorem Starts.waiting (h : Starts s) : Waiting smooth s :=
  ⟨h.used, h.incoming, h.incremental, h.queued, h.offset, ⟨h.history.1, by rw [h.history.2.1]; nofun, h.history.2.2⟩,
    fun _ => h.window⟩

/-- The host gave a file in a run under a condition. -/
def Replied (C : Sending → Action → Prop) (content : List UInt8) (s : Sending) : Prop :=
  ∃ s₀ s₁ s₂ a, Starts s₀ ∧ Reach step C s₀ s₁ ∧ C s₁ (.reply (some content) a) ∧
    step s₁ (.reply (some content) a) = some s₂ ∧ Reach step C s₂ s

/-- Behind the answer, the file is on its way or the transfer ended. -/
theorem Replied.cases {C : Sending → Action → Prop} (hC : ∀ s b, C s b → smooth → b.Smooth) (h : Replied C content s)
    (hmax : content.length ≤ maxBytes) : Moving smooth content s ∨ Over smooth content s := by
  obtain ⟨s₀, s₁, s₂, a, hstart, hbefore, hc, hs, hafter⟩ := h
  have hwait : Waiting smooth s₁ ∨ s₁.flow.transfer.used = false ∨ ∃ content, Moving smooth content s₁ := by
    refine hbefore.invariant (I := fun s => Waiting smooth s ∨ s.flow.transfer.used = false ∨
      ∃ content, Moving smooth content s) (.inl hstart.waiting) fun u b v hu hb hv => ?_
    rcases hu with hu | hu | ⟨content, hu⟩
    · exact hu.step (hC u b hb) hv
    · exact .inr (.inl (unused_step hu hv))
    · rcases hu.step (hC u b hb) hv with hm | ho
      · exact .inr (.inr ⟨content, hm⟩)
      · exact .inr (.inl ho.used)
  simp only [step] at hs
  split at hs
  · rename_i hg
    cases hs
    have hwait : Waiting smooth s₁ := by
      rcases hwait with hw | hu | ⟨content, hm⟩
      · exact hw
      · rw [hu] at hg
        exact nomatch hg.1
      · rw [hm.incremental] at hg
        exact nomatch hg.2
    refine hafter.invariant (I := fun s => Moving smooth content s ∨ Over smooth content s) (hwait.reply hmax (hC _ _ hc))
      fun u b v hu hb hv => ?_
    rcases hu with hu | hu
    · exact hu.step (hC u b hb) hv
    · exact .inr (hu.step (hC u b hb) hv)
  · cases hs

/-- Steps of a smooth run -/
def Smoothly (_ : Sending) (b : Action) : Prop := b.Smooth

theorem succeed_all : ({} : Answers).Succeed := ⟨nofun, rfl, rfl, rfl, rfl⟩

/-- The client reads the last value. -/
theorem Over.ends (h : Over True content s) (hclient : s.flow.transfer.requestor.any Window.clientOwned = true) :
    ∃ t, Reach Sending.step Smoothly s t ∧ t.flow.property = none ∧ t.flow.transfer.queued = false := by
  obtain ⟨-, -, hq, htold⟩ := h.calm trivial
  cases hp : s.flow.property with
  | none => exact ⟨s, .refl, hp, hq⟩
  | some p =>
    have hs : Sending.step s (.read {}) =
        some ⟨({ s.flow with property := none } : Flow).propertyChanged false {}, s.got ++ [p]⟩ := by
      simp only [Sending.step, hp]
      rw [if_pos (htold hclient)]
    have hsame : ({ s.flow with property := none } : Flow).propertyChanged false {} = { s.flow with property := none } :=
      if_neg fun hg => Bool.false_ne_true (h.used.symm.trans hg.1)
    refine ⟨_, Reach.refl.tail (a := .read {}) succeed_all hs, ?_, ?_⟩
    · rw [hsame]
    · rw [hsame]
      exact hq

/-- A client that reads and deletes what it is told of gets to the end. -/
theorem Moving.ends (h : Moving True content s) (hclient : s.flow.transfer.requestor.any Window.clientOwned = true) :
    ∃ t, Reach Sending.step Smoothly s t ∧ t.flow.property = none ∧ t.flow.transfer.queued = false := by
  obtain ⟨n, hn⟩ : ∃ n, n = content.length - s.flow.transfer.offset := ⟨_, rfl⟩
  induction n using Nat.strong_induction_on generalizing s with
  | _ n ih =>
    -- the work that is due, from a state in which everything was read
    have hdue : ∀ r : Sending, Moving True content r → r.flow.property = none →
        r.flow.transfer.requestor = s.flow.transfer.requestor → r.flow.transfer.offset = s.flow.transfer.offset →
        ∃ t, Reach Sending.step Smoothly r t ∧ t.flow.property = none ∧ t.flow.transfer.queued = false := by
      intro r hr hp hrequestor hoffset
      have hq := (hr.calm trivial).2.1.2 hp
      have hs : Sending.step r (.work {}) = some { r with flow := r.flow.propertyWork {} } := if_pos ⟨hr.used, hq⟩
      have hsame : (r.flow.propertyWork {}).transfer.requestor.any Window.clientOwned = true := by
        rw [Flow.requestor_propertyWork hr.incoming, hrequestor]
        exact hclient
      rcases hr.work hq fun _ => succeed_all with ⟨hm, hlt⟩ | ho
      · have hle : (r.flow.propertyWork {}).transfer.offset ≤ content.length := hm.offset
        obtain ⟨t, ht, hend⟩ := ih (content.length - (r.flow.propertyWork {}).transfer.offset) (by omega) hm hsame rfl
        exact ⟨t, .head (a := .work {}) succeed_all hs ht, hend⟩
      · obtain ⟨t, ht, hend⟩ := ho.ends hsame
        exact ⟨t, .head (a := .work {}) succeed_all hs ht, hend⟩
    cases hp : s.flow.property with
    | none => exact hdue s h hp rfl rfl
    | some p =>
      have hs : Sending.step s (.read {}) =
          some ⟨({ s.flow with property := none } : Flow).propertyChanged false {}, s.got ++ [p]⟩ := by
        simp only [Sending.step, hp]
        rw [if_pos (h.told hclient)]
      have heq := Flow.propertyChanged_eq (f := { s.flow with property := none }) h.used h.incremental h.incoming {}
      rcases h.step (b := .read {}) (fun _ => succeed_all) hs with hm | ho
      · obtain ⟨t, ht, hend⟩ := hdue _ hm (by rw [heq]; rfl) (by rw [heq]; rfl) (by rw [heq]; rfl)
        exact ⟨t, .head (a := .read {}) succeed_all hs ht, hend⟩
      · obtain ⟨t, ht, hend⟩ := ho.ends (by rw [heq]; exact hclient)
        exact ⟨t, .head (a := .read {}) succeed_all hs ht, hend⟩

end Sending

end Lorie.DataExchange
