import Lorie.Buffer.Allocate
import Lorie.Lib.Numbers
import Lorie.Resources.Ancillary

/-!
# A buffer on a socket

`LorieBuffer_sendHandleToUnixSocket` writes a record and then the descriptor or the hardware buffer;
`LorieBuffer_recvHandleFromUnixSocket` reads them and checks the record as `allocate` checks a new buffer (`buffer.c`,
`socket_io.h`).

- `readFully_fragments`, `writeFully_written`: the loops around `recv` and `send`;
- `ofBytes_bytes`: the record is read back;
- `recvHandle_accounts`: every descriptor that arrives is owned by the buffer or given back.
-/

namespace Lorie.Buffer.Wire

open Layout Lib
open Resources.Ancillary (Answer ancilRecvFd ancilRecvFd_skip ancilRecvFd_one)

/-! ## Bytes through a socket -/

/-- An answer of `recv` -/
inductive Recv where
  | failed (errno : Nat)
  /-- No bytes are the end. -/
  | data (bytes : List UInt8)
  deriving DecidableEq, Repr

/-- An answer of `send` -/
inductive Send where
  | failed (errno : Nat)
  | count (n : Nat)
  deriving DecidableEq, Repr

/-- `lorieReadFully` of so many bytes: nothing while it waits, and then the bytes, if it returns true. -/
def lorieReadFully (size : Nat) : List Recv → Option (Option (List UInt8))
  | [] => if size = 0 then some (some []) else none
  | answer :: answers =>
    if size = 0 then some (some [])
    else
      match answer with
      -- `EINTR`
      | .failed errno => if errno = 4 then lorieReadFully size answers else some none
      | .data bytes =>
        let bytes := bytes.take size
        if bytes = [] then some none
        else (lorieReadFully (size - bytes.length) answers).map fun rest => rest.map (bytes ++ ·)

/-- `lorieWriteFully`: what it returns, and the bytes that were written -/
def lorieWriteFully (bytes : List UInt8) : List Send → Option (Bool × List UInt8)
  | [] => if bytes = [] then some (true, []) else none
  | answer :: answers =>
    if bytes = [] then some (true, [])
    else
      match answer with
      | .failed errno => if errno = 4 then lorieWriteFully bytes answers else some (false, [])
      | .count n =>
        if n = 0 then some (false, [])
        else (lorieWriteFully (bytes.drop n) answers).map fun rest => (rest.1, bytes.take n ++ rest.2)

/-- The answers of `recv` bring these bytes, in any pieces. -/
inductive Fragments : List Recv → List UInt8 → Prop
  | done (answers : List Recv) : Fragments answers []
  | interrupted {answers : List Recv} {bytes : List UInt8} : Fragments answers bytes → Fragments (.failed 4 :: answers) bytes
  | piece {answers : List Recv} {piece bytes : List UInt8} :
      piece ≠ [] → Fragments answers bytes → Fragments (.data piece :: answers) (piece ++ bytes)

/-- **The bytes arrive whole, in whatever pieces.** -/
theorem readFully_fragments {answers : List Recv} {bytes : List UInt8} (h : Fragments answers bytes) :
    lorieReadFully bytes.length answers = some (some bytes) := by
  induction h with
  | done answers => cases answers <;> rfl
  | @interrupted answers bytes _ ih =>
    unfold lorieReadFully
    split
    · rename_i hempty
      rw [List.length_eq_zero_iff.1 hempty]
    · exact ih
  | @piece answers piece bytes hne _ ih =>
    have hlen : (piece ++ bytes).length ≠ 0 := fun h => hne (List.append_eq_nil_iff.1 (List.length_eq_zero_iff.1 h)).1
    have htake : piece.take (piece ++ bytes).length = piece :=
      List.take_of_length_le (by rw [List.length_append]; exact Nat.le_add_right _ _)
    unfold lorieReadFully
    rw [if_neg hlen]
    dsimp only
    rw [htake, if_neg hne, List.length_append, Nat.add_sub_cancel_left, ih]
    rfl

/-- The answers of `recv` end before there are so many bytes. -/
inductive Truncated : List Recv → Nat → Prop
  | ended (answers : List Recv) {size : Nat} : 0 < size → Truncated (.data [] :: answers) size
  | failed (answers : List Recv) {errno size : Nat} : 0 < size → errno ≠ 4 → Truncated (.failed errno :: answers) size
  | interrupted {answers : List Recv} {size : Nat} : Truncated answers size → Truncated (.failed 4 :: answers) size
  | piece {answers : List Recv} {piece : List UInt8} {size : Nat} : piece ≠ [] →
      Truncated answers size → Truncated (.data piece :: answers) (piece.length + size)

theorem readFully_truncated {answers : List Recv} {size : Nat} (h : Truncated answers size) :
    0 < size ∧ lorieReadFully size answers = some none := by
  induction h with
  | ended answers hpos =>
    refine ⟨hpos, ?_⟩
    unfold lorieReadFully
    rw [if_neg (Nat.ne_of_gt hpos)]
    dsimp only
    rw [List.take_nil, if_pos rfl]
  | failed answers hpos hne =>
    refine ⟨hpos, ?_⟩
    unfold lorieReadFully
    rw [if_neg (Nat.ne_of_gt hpos)]
    exact if_neg hne
  | interrupted _ ih =>
    refine ⟨ih.1, ?_⟩
    unfold lorieReadFully
    rw [if_neg (Nat.ne_of_gt ih.1)]
    exact ih.2
  | @piece answers piece size hne _ ih =>
    have hpos : 0 < piece.length + size := Nat.add_pos_right _ ih.1
    refine ⟨hpos, ?_⟩
    unfold lorieReadFully
    rw [if_neg (Nat.ne_of_gt hpos)]
    dsimp only
    rw [List.take_of_length_le (Nat.le_add_right _ _), if_neg hne, Nat.add_sub_cancel_left, ih.2]
    rfl

/-- When `lorieWriteFully` returns true, all of the bytes were written. -/
theorem writeFully_written {bytes written : List UInt8} {answers : List Send}
    (h : lorieWriteFully bytes answers = some (true, written)) : written = bytes := by
  induction answers generalizing bytes written with
  | nil =>
    unfold lorieWriteFully at h
    split at h
    · cases h
      exact ‹bytes = []›.symm
    · cases h
  | cons answer answers ih =>
    unfold lorieWriteFully at h
    split at h
    · cases h
      exact ‹bytes = []›.symm
    · cases answer with
      | failed errno =>
        dsimp only at h
        split at h
        · exact ih h
        · cases h
      | count n =>
        dsimp only at h
        split at h
        · cases h
        · obtain ⟨⟨ok, rest⟩, hrest, h⟩ := Option.map_eq_some_iff.1 h
          cases h
          rw [ih hrest]
          exact List.take_append_drop n bytes

/-! ## The record -/

/-- `LorieBufferWire` -/
structure LorieBufferWire where
  id : UInt64
  offset : UInt64
  width : Int32
  height : Int32
  stride : Int32
  format : UInt8
  type : UInt8
  reserved : UInt16
  deriving DecidableEq, Repr

/-- `sizeof(LorieBufferWire)` -/
def wireSize : Nat := 32

namespace LorieBufferWire

/-- The memory of a record -/
def bytes (w : LorieBufferWire) : List UInt8 :=
  littleEndian 8 w.id.toNat ++ littleEndian 8 w.offset.toNat ++ littleEndian 4 w.width.toUInt32.toNat ++
    littleEndian 4 w.height.toUInt32.toNat ++ littleEndian 4 w.stride.toUInt32.toNat ++
    littleEndian 1 w.format.toNat ++ littleEndian 1 w.type.toNat ++ littleEndian 2 w.reserved.toNat

/-- The record in memory -/
def ofBytes (bytes : List UInt8) : LorieBufferWire :=
  { id := .ofNat (field bytes 0 8)
    offset := .ofNat (field bytes 8 8)
    width := (UInt32.ofNat (field bytes 16 4)).toInt32
    height := (UInt32.ofNat (field bytes 20 4)).toInt32
    stride := (UInt32.ofNat (field bytes 24 4)).toInt32
    format := .ofNat (field bytes 28 1)
    type := .ofNat (field bytes 29 1)
    reserved := .ofNat (field bytes 30 2) }

theorem bytes_length (w : LorieBufferWire) : w.bytes.length = wireSize := by
  unfold bytes
  simp only [List.length_append, littleEndian_length]
  rfl

/-- **The record is read back**: each field is the bytes that were written for it. -/
theorem ofBytes_bytes (w : LorieBufferWire) : ofBytes w.bytes = w := by
  have hid : field w.bytes 0 8 = w.id.toNat := @ofLittleEndian_littleEndian 8 _ w.id.toNat_lt
  have hoffset : field w.bytes 8 8 = w.offset.toNat := @ofLittleEndian_littleEndian 8 _ w.offset.toNat_lt
  have hwidth : field w.bytes 16 4 = w.width.toUInt32.toNat := @ofLittleEndian_littleEndian 4 _ w.width.toUInt32.toNat_lt
  have hheight : field w.bytes 20 4 = w.height.toUInt32.toNat := @ofLittleEndian_littleEndian 4 _ w.height.toUInt32.toNat_lt
  have hstride : field w.bytes 24 4 = w.stride.toUInt32.toNat := @ofLittleEndian_littleEndian 4 _ w.stride.toUInt32.toNat_lt
  have hformat : field w.bytes 28 1 = w.format.toNat := @ofLittleEndian_littleEndian 1 _ w.format.toNat_lt
  have htype : field w.bytes 29 1 = w.type.toNat := @ofLittleEndian_littleEndian 1 _ w.type.toNat_lt
  have hreserved : field w.bytes 30 2 = w.reserved.toNat := @ofLittleEndian_littleEndian 2 _ w.reserved.toNat_lt
  unfold ofBytes
  rw [hid, hoffset, hwidth, hheight, hstride, hformat, htype, hreserved]
  simp only [UInt64.ofNat_toNat, UInt32.ofNat_toNat, UInt8.ofNat_toNat, UInt16.ofNat_toNat]
  rfl

end LorieBufferWire

/-! ## Sending and receiving -/

/-- The record of a buffer -/
def wireOf (b : SharedBuffer) : LorieBufferWire :=
  { id := b.id
    offset := b.offset.toUInt64
    width := b.width
    height := b.height
    stride := b.stride
    format := b.format
    type := b.type
    reserved := 0 }

/-- `LorieBuffer_sendHandleToUnixSocket`, for a socket that is open; `handle`: the call that sends the descriptor or the
hardware buffer succeeds. -/
def sendHandle (b : SharedBuffer) (answers : List Send) (handle : Bool) : Option (Bool × List UInt8) :=
  if b.type ≠ typeFd ∧ b.type ≠ typeAHardwareBuffer then some (false, [])
  else (lorieWriteFully (wireOf b).bytes answers).map fun (ok, written) => (ok && handle, written)

/-- What arrives: the record, the packet with the descriptor, and what
`AHardwareBuffer_recvHandleFromUnixSocket` returns. -/
structure Arrival (header : Nat) where
  record : List Recv
  ancillary : List (Answer header)
  /-- Nothing when it does not return 0 -/
  hardware : Option (Option Nat)

/-- The buffer, what came out of the socket for it, and what was given back -/
structure Outcome where
  buffer : Option SharedBuffer
  received : List Release
  released : List Release
  deriving DecidableEq, Repr

/-- The descriptors of the first packet -/
def arrived {header : Nat} : List (Answer header) → List Nat
  | [] => []
  | .failed errno _ :: answers => if errno = 4 then arrived answers else []
  | a :: _ => a.installed

section Receive

variable {header : Nat} (r : Layout.Answers) (id : UInt64)

/-- `LorieBuffer_recvHandleFromUnixSocket` with a record for a file -/
def recvFile (wire : LorieBufferWire) (ancillary : List (Answer header)) : Option Outcome :=
  (ancilRecvFd ancillary).map fun (fd, closed) =>
    let received := (arrived ancillary).map .close
    match fd with
    | none => ⟨none, received, closed.map .close⟩
    | some fd =>
      let (buffer, released) := r.allocate id wire.width wire.stride wire.height wire.format wire.type none (some fd)
        wire.offset.toInt64 true
      ⟨buffer.map fun b => { b with id := wire.id }, received, closed.map .close ++ released⟩

/-- `LorieBuffer_recvHandleFromUnixSocket` with a record for a hardware buffer -/
def recvHardware (wire : LorieBufferWire) (hardware : Option (Option Nat)) : Outcome :=
  match hardware with
  | none => ⟨none, [], []⟩
  | some hardware =>
    let (buffer, released) := r.wrapAHardwareBuffer id hardware
    let received := (hardware.map .hardware).toList
    match buffer with
    | none => ⟨none, received, released⟩
    | some b =>
      if b.width ≠ wire.width ∨ b.height ≠ wire.height ∨ b.stride ≠ wire.stride ∨ b.format ≠ wire.format then
        -- `LorieBuffer_release` of the only reference
        ⟨none, received, released ++ (b.buffer.map .hardware).toList⟩
      else ⟨some { b with id := wire.id }, received, released⟩

/-- `LorieBuffer_recvHandleFromUnixSocket`; nothing while it waits. -/
def recvHandle (s : Arrival header) : Option Outcome :=
  (lorieReadFully wireSize s.record).bind fun record =>
    match record with
    | none => some ⟨none, [], []⟩
    | some bytes =>
      let wire := LorieBufferWire.ofBytes bytes
      if wire.reserved ≠ 0 ∨ (Layout.lorieBufferLayout r.sizeMax wire.width wire.stride wire.height wire.offset).isNone ∨
          wire.offset.toInt64.toUInt64 ≠ wire.offset then some ⟨none, [], []⟩
      else if wire.type = typeFd then recvFile r id wire s.ancillary
      else if wire.type = typeAHardwareBuffer ∧ wire.offset = 0 then some (recvHardware r id wire s.hardware)
      else some ⟨none, [], []⟩

end Receive

/-! ### Every descriptor -/

theorem arrived_skip {header : Nat} (interruptions : List (Answer header)) {a : Answer header} {rest : List (Answer header)}
    (h : ∀ x ∈ interruptions, x.Interrupted) (ha : ancilRecvFd [a] ≠ none) :
    arrived (interruptions ++ a :: rest) = a.installed := by
  induction interruptions with
  | nil =>
    cases a with
    | message n first trunc ctrunc control => rfl
    | failed errno set =>
      unfold arrived
      simp only [List.nil_append]
      split
      · rename_i herrno
        subst herrno
        exact absurd rfl ha
      · rfl
  | cons x interruptions ih =>
    obtain ⟨set, rfl⟩ := h x List.mem_cons_self
    exact ih fun y hy => h y (List.mem_cons_of_mem _ hy)

/-- The descriptors that arrive in the packet are taken or closed. -/
theorem arrived_perm {header : Nat} {ancillary : List (Answer header)} {fd : Option Nat} {closed : List Nat}
    (h : ancilRecvFd ancillary = some (fd, closed)) : (fd.toList ++ closed).Perm (arrived ancillary) := by
  obtain ⟨interruptions, a, rest, rfl, hall, hout⟩ := ancilRecvFd_skip h
  rw [arrived_skip interruptions hall (by rw [hout]; exact Option.some_ne_none _)]
  exact (ancilRecvFd_one hout).1

/-- The handles of an outcome are where they were received. -/
def Outcome.Accounted (out : Outcome) : Prop :=
  (out.buffer.elim [] owned ++ out.released.filter isHandle).Perm out.received

section Receive

variable {header : Nat} {r : Layout.Answers} {id : UInt64}

theorem recvFile_accounts {wire : LorieBufferWire} {ancillary : List (Answer header)} {out : Outcome}
    (h : recvFile r id wire ancillary = some out) : out.Accounted := by
  obtain ⟨⟨fd, closed⟩, hrecv, h⟩ := Option.map_eq_some_iff.1 h
  have hperm := (arrived_perm hrecv).map Release.close
  have hclosed : (closed.map Release.close).filter isHandle = closed.map Release.close :=
    List.filter_eq_self.2 fun x hx => by
      obtain ⟨n, -, rfl⟩ := List.mem_map.1 hx
      rfl
  dsimp only at h
  cases fd with
  | none =>
    cases h
    show ([] ++ (closed.map Release.close).filter isHandle).Perm _
    rw [hclosed]
    exact hperm
  | some fd =>
    dsimp only at h
    subst h
    have hhandles := allocate_handles r id wire.width wire.stride wire.height wire.format wire.type none (some fd)
      wire.offset.toInt64 true (.inl rfl)
    generalize r.allocate id wire.width wire.stride wire.height wire.format wire.type none (some fd)
      wire.offset.toInt64 true = made at hhandles ⊢
    have howned : ((made.1.map fun b => { b with id := wire.id }).elim [] owned) = made.1.elim [] owned := by
      cases made.1 <;> rfl
    show (((made.1.map fun b => { b with id := wire.id }).elim [] owned) ++
      (closed.map Release.close ++ made.2).filter isHandle).Perm ((arrived ancillary).map Release.close)
    rw [howned, List.filter_append, hclosed]
    refine .trans ?_ hperm
    have hone : made.1.elim [] owned ++ made.2.filter isHandle = [Release.close fd] := hhandles
    have hswap : (made.1.elim [] owned ++ (closed.map Release.close ++ made.2.filter isHandle)).Perm
        ((made.1.elim [] owned ++ made.2.filter isHandle) ++ closed.map Release.close) := by
      rw [List.append_assoc]
      exact List.Perm.append_left _ List.perm_append_comm
    rw [hone] at hswap
    exact hswap

theorem recvHardware_accounts (wire : LorieBufferWire) (hardware : Option (Option Nat)) :
    (recvHardware r id wire hardware).Accounted := by
  unfold recvHardware
  cases hardware with
  | none => exact .refl _
  | some hardware =>
    dsimp only
    have hhandles := allocate_handles r id 0 0 0 0 typeAHardwareBuffer hardware none 0 false (.inr (by decide))
    have hnofd : ∀ b, (r.wrapAHardwareBuffer id hardware).1 = some b → b.fd = none := by
      intro b hb
      have hpair : r.wrapAHardwareBuffer id hardware = (some b, (r.wrapAHardwareBuffer id hardware).2) := by
        rw [← hb]
      obtain ⟨-, -, c, bytes, hc, -, -, hok⟩ := allocate_iff.1 hpair
      obtain ⟨hattached, hfd⟩ := attach_attached r typeAHardwareBuffer bytes false c
      rw [hok] at hfd
      rw [if_pos rfl] at hc
      rw [show b.fd = c.fd from hfd (.inr (by decide)), (describeHardware_iff.1 hc).2]
      rfl
    change (r.wrapAHardwareBuffer id hardware).1.elim [] owned ++
      (r.wrapAHardwareBuffer id hardware).2.filter isHandle = (hardware.map Release.hardware).toList at hhandles
    generalize r.wrapAHardwareBuffer id hardware = made at hhandles hnofd ⊢
    obtain ⟨buffer, released⟩ := made
    dsimp only at hhandles hnofd ⊢
    cases buffer with
    | none => exact .of_eq hhandles
    | some b =>
      have howned : owned b = (b.buffer.map Release.hardware).toList := by
        unfold owned
        rw [hnofd b rfl]
        rfl
      dsimp only
      split
      · show ([] ++ (released ++ (b.buffer.map Release.hardware).toList).filter isHandle).Perm _
        have hself : (b.buffer.map Release.hardware).toList.filter isHandle = (b.buffer.map Release.hardware).toList := by
          cases b.buffer <;> rfl
        rw [List.nil_append, List.filter_append, hself, ← howned]
        exact List.perm_append_comm.trans (.of_eq hhandles)
      · exact .of_eq hhandles

/-- **Every descriptor that arrives is owned by the buffer or given back**, once. -/
theorem recvHandle_accounts {s : Arrival header} {out : Outcome} (h : recvHandle r id s = some out) : out.Accounted := by
  obtain ⟨record, -, h⟩ := Option.bind_eq_some_iff.1 h
  cases record with
  | none =>
    cases h
    exact .refl _
  | some bytes =>
    dsimp only at h
    split at h
    · cases h
      exact .refl _
    · split at h
      · exact recvFile_accounts h
      · split at h
        · cases h
          exact recvHardware_accounts _ _
        · cases h
          exact .refl _

end Receive

end Lorie.Buffer.Wire
