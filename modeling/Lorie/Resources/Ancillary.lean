import Lorie.Resources.Channel
import Mathlib.Data.List.Perm.Basic

/-!
# Receiving descriptors

`ancil_recv_fd` (`buffer.c`) and `receive` (`resource_channel.c`) walk the control messages of a packet, keep some of
the descriptors that the kernel installed and close the others. A control message is what `CMSG_FIRSTHDR` and
`CMSG_NXTHDR` find; its header has 12 or 16 bytes.

- `Answer.installed`: the descriptors that the kernel installed;
- `ancilRecvFd_message`, `receive_message`: what the loops leave;
- `receivers_account`: when the functions succeed, and where every descriptor is;
- `receive_refines`: the packets of `Channel` are received the same way.
-/

namespace Lorie.Resources.Ancillary

/-! ## Packets -/

def solSocket : Int32 := 1
def scmRights : Int32 := 1

/-- A control message, behind a header of so many bytes. -/
structure Cmsg (header : Nat) where
  level : Int32
  type : Int32
  /-- `cmsg_len` -/
  len : Nat
  /-- `CMSG_DATA`, as far as it is descriptors -/
  data : List Fd
  /-- The kernel passes whole descriptors. -/
  whole : level = solSocket → type = scmRights → len = header + 4 * data.length

variable {header : Nat}

/-- A message of `SCM_RIGHTS` -/
def Cmsg.isRights (c : Cmsg header) : Bool := c.level = solSocket && c.type = scmRights

/-- The descriptors of a message -/
def Cmsg.rights (c : Cmsg header) : List Fd := if c.isRights then c.data else []

/-- What `recvmsg` gives. -/
inductive Answer (header : Nat) where
  | failed (errno : Nat) (set : 0 < errno)
  /-- So many bytes, the first of them, `MSG_TRUNC` and `MSG_CTRUNC` -/
  | message (n : Nat) (first : UInt8) (trunc ctrunc : Bool) (control : List (Cmsg header))

namespace Answer

/-- The descriptors that are installed, in the order of the messages -/
def installed : Answer header → List Fd
  | failed _ _ => []
  | message _ _ _ _ control => control.flatMap Cmsg.rights

/-- The shape that `ancil_recv_fd` expects: one byte `!` and one descriptor, and all of the control data. -/
def IsDescriptor (fd : Fd) : Answer header → Prop
  | failed _ _ => False
  | message n first _ ctrunc control =>
    n = 1 ∧ first = 33 ∧ ctrunc = false ∧ control.flatMap Cmsg.rights = [fd]

/-- The shape that `receive` expects: all of the data, and at most two descriptors and nothing else. -/
def IsPacket (size : Nat) : Answer header → Prop
  | failed _ _ => False
  | message n _ trunc ctrunc control =>
    n = size ∧ trunc = false ∧ ctrunc = false ∧ (∀ c ∈ control, c.isRights = true) ∧
      (control.flatMap Cmsg.rights).length ≤ 2

/-- `EINTR` -/
def Interrupted (a : Answer header) : Prop := ∃ set, a = failed 4 set

end Answer

/-! ## One descriptor -/

/-- `received` and `count`, and what was closed -/
structure Kept where
  received : Option Fd
  count : Nat
  closed : List Fd
  deriving DecidableEq, Repr

/-- `if (count++ == 0) received = fd; else close(fd);` -/
def Kept.take (s : Kept) (fd : Fd) : Kept :=
  if s.count = 0 then { s with received := some fd, count := s.count + 1 }
  else { s with count := s.count + 1, closed := s.closed ++ [fd] }

/-- One turn of the loop of `ancil_recv_fd` -/
def Kept.message (s : Kept) (c : Cmsg header) : Kept :=
  if c.level ≠ solSocket ∨ c.type ≠ scmRights ∨ c.len < header then s
  else (c.data.take ((c.len - header) / 4)).foldl Kept.take s

/-- `ancil_recv_fd`, for the answers of `recvmsg`: the descriptor, and what was closed. It waits when there is no answer
but `EINTR`. -/
def ancilRecvFd : List (Answer header) → Option (Option Fd × List Fd)
  | [] => none
  | .failed errno _ :: answers => if errno = 4 then ancilRecvFd answers else some (none, [])
  | .message n first _ ctrunc control :: _ =>
    let s := control.foldl Kept.message ⟨none, 0, []⟩
    if n ≠ 1 ∨ first ≠ 33 ∨ s.count ≠ 1 ∨ ctrunc = true then some (none, s.closed ++ s.received.toList)
    else some (s.received, s.closed)

/-! ## At most two descriptors -/

/-- `error`, `fds` up to `*count`, and what was closed -/
structure Rights where
  error : Bool
  fds : List Fd
  closed : List Fd
  deriving DecidableEq, Repr

/-- `if (*count < 2) fds[(*count)++] = fd; else { close(fd); error = -EPROTO; }` -/
def Rights.take (s : Rights) (fd : Fd) : Rights :=
  if s.fds.length < 2 then { s with fds := s.fds ++ [fd] } else { s with closed := s.closed ++ [fd], error := true }

/-- One turn of the loop of `receive` -/
def Rights.message (s : Rights) (c : Cmsg header) : Rights :=
  if c.level ≠ solSocket ∨ c.type ≠ scmRights ∨ c.len < header ∨ (c.len - header) % 4 ≠ 0 then { s with error := true }
  else (c.data.take ((c.len - header) / 4)).foldl Rights.take s

/-- `receive` of so many bytes -/
def receive (size : Nat) : Answer header → Receipt
  | .failed errno _ => ⟨-errno, [], []⟩
  | .message n _ trunc ctrunc control =>
    let s := control.foldl Rights.message ⟨trunc || ctrunc, [], []⟩
    -- `close_rights`
    if s.error = true ∨ n ≠ size then ⟨-eproto, [], s.closed ++ s.fds⟩ else ⟨0, s.fds, s.closed⟩

/-! ## What the loops leave -/

theorem Kept.message_eq (s : Kept) (c : Cmsg header) : s.message c = c.rights.foldl Kept.take s := by
  unfold Kept.message Cmsg.rights Cmsg.isRights
  by_cases h : c.level = solSocket ∧ c.type = scmRights
  · have hlen := c.whole h.1 h.2
    rw [if_neg (by rintro (h' | h' | h') <;> [exact h' h.1; exact h' h.2; omega]), if_pos (by simp [h])]
    rw [hlen, Nat.add_sub_cancel_left, Nat.mul_div_cancel_left _ (by omega), List.take_length]
  · rw [if_pos (by tauto), if_neg (by simpa using h)]
    rfl

theorem Kept.foldl_message (s : Kept) (control : List (Cmsg header)) :
    control.foldl Kept.message s = (control.flatMap Cmsg.rights).foldl Kept.take s := by
  induction control generalizing s with
  | nil => rfl
  | cons c control ih => rw [List.foldl_cons, ih, Kept.message_eq, List.flatMap_cons, List.foldl_append]

/-- Behind the first descriptor the others are closed. -/
theorem Kept.foldl_take_closed (fd : Fd) (ds : List Fd) (n : Nat) (closed : List Fd) :
    ds.foldl Kept.take ⟨some fd, n + 1, closed⟩ = ⟨some fd, n + 1 + ds.length, closed ++ ds⟩ := by
  induction ds generalizing n closed with
  | nil => rw [List.append_nil]; rfl
  | cons d ds ih =>
    have hne : n + 1 ≠ 0 := Nat.succ_ne_zero n
    rw [List.foldl_cons, Kept.take, if_neg hne, ih, List.append_assoc, List.length_cons, Kept.mk.injEq]
    exact ⟨rfl, by dsimp only; omega, rfl⟩

theorem Kept.foldl_take (ds : List Fd) : ds.foldl Kept.take ⟨none, 0, []⟩ = ⟨ds.head?, ds.length, ds.tail⟩ := by
  cases ds with
  | nil => rfl
  | cons d ds =>
    rw [List.foldl_cons, Kept.take, if_pos rfl, Kept.foldl_take_closed, List.length_cons, Kept.mk.injEq]
    exact ⟨rfl, by dsimp only; omega, rfl⟩

/-- `ancil_recv_fd` with a message: the only descriptor, or none. -/
theorem ancilRecvFd_message (n : Nat) (first : UInt8) (trunc ctrunc : Bool) (control : List (Cmsg header))
    (answers : List (Answer header)) :
    ancilRecvFd (.message n first trunc ctrunc control :: answers) =
      let ds := control.flatMap Cmsg.rights
      if n ≠ 1 ∨ first ≠ 33 ∨ ds.length ≠ 1 ∨ ctrunc = true then some (none, ds.tail ++ ds.head?.toList)
      else some (ds.head?, ds.tail) := by
  unfold ancilRecvFd
  rw [Kept.foldl_message, Kept.foldl_take]

/-- The loop over the descriptors of one message, behind any others. -/
theorem Rights.foldl_take (error : Bool) (all ds : List Fd) (h : 2 < all.length → error = true) :
    ds.foldl Rights.take ⟨error, all.take 2, all.drop 2⟩ =
      ⟨error || decide (2 < (all ++ ds).length), (all ++ ds).take 2, (all ++ ds).drop 2⟩ := by
  induction ds generalizing all error with
  | nil =>
    rw [List.append_nil]
    by_cases hlen : 2 < all.length
    · rw [h hlen]
      rfl
    · simp [hlen]
  | cons d ds ih =>
    rw [List.foldl_cons, Rights.take]
    by_cases hlen : all.length < 2
    · have htake : (all ++ [d]).take 2 = all.take 2 ++ [d] := by
        rw [List.take_of_length_le (by simp; omega), List.take_of_length_le (by omega)]
      have hdrop : (all ++ [d]).drop 2 = all.drop 2 := by
        rw [List.drop_eq_nil_of_le (by simp; omega), List.drop_eq_nil_of_le (by omega)]
      rw [if_pos (by simp; omega)]
      have hnext := ih error (all ++ [d]) (fun hl => by simp at hl; omega)
      rw [htake, hdrop, List.append_assoc, List.singleton_append] at hnext
      exact hnext
    · have htake : (all ++ [d]).take 2 = all.take 2 := List.take_append_of_le_length (by omega)
      have hdrop : (all ++ [d]).drop 2 = all.drop 2 ++ [d] := List.drop_append_of_le_length (by omega)
      rw [if_neg (by simp; omega)]
      have hnext := ih true (all ++ [d]) (fun _ => rfl)
      rw [htake, hdrop, List.append_assoc, List.singleton_append] at hnext
      refine hnext.trans ?_
      have hlong : 2 < (all ++ d :: ds).length := by simp; omega
      rw [decide_eq_true hlong, Bool.or_true, Bool.or_true]

theorem Rights.message_eq (s : Rights) (c : Cmsg header) :
    s.message c = if c.isRights then c.rights.foldl Rights.take s else { s with error := true } := by
  unfold Rights.message Cmsg.rights Cmsg.isRights
  by_cases h : c.level = solSocket ∧ c.type = scmRights
  · have hlen := c.whole h.1 h.2
    have hand : (decide (c.level = solSocket) && decide (c.type = scmRights)) = true := by simp [h]
    rw [if_neg (by rintro (h' | h' | h' | h') <;> [exact h' h.1; exact h' h.2; omega; omega]), hand, if_pos rfl, if_pos rfl]
    rw [hlen, Nat.add_sub_cancel_left, Nat.mul_div_cancel_left _ (by omega), List.take_length]
  · rw [if_pos (by tauto), if_neg (by simpa using h)]

/-- The loop over the messages, behind any descriptors. -/
theorem Rights.foldl_message (error : Bool) (all : List Fd) (control : List (Cmsg header))
    (h : 2 < all.length → error = true) :
    control.foldl Rights.message ⟨error, all.take 2, all.drop 2⟩ =
      ⟨error || control.any (fun c => !c.isRights) || decide (2 < (all ++ control.flatMap Cmsg.rights).length),
        (all ++ control.flatMap Cmsg.rights).take 2, (all ++ control.flatMap Cmsg.rights).drop 2⟩ := by
  induction control generalizing all error with
  | nil =>
    rw [List.flatMap_nil, List.append_nil]
    by_cases hlen : 2 < all.length
    · rw [h hlen]
      rfl
    · simp [hlen]
  | cons c control ih =>
    rw [List.foldl_cons, Rights.message_eq, List.flatMap_cons, List.any_cons]
    by_cases hc : c.isRights = true
    · rw [if_pos hc, Rights.foldl_take error all c.rights h,
        ih _ _ fun hl => by rw [decide_eq_true hl, Bool.or_true], List.append_assoc, hc, Bool.not_true, Bool.false_or]
      by_cases hlen : 2 < (all ++ c.rights).length
      · have hlong : 2 < (all ++ (c.rights ++ control.flatMap Cmsg.rights)).length := by
          simp only [List.length_append] at hlen ⊢
          omega
        rw [decide_eq_true hlong, Bool.or_true, Bool.or_true]
      · rw [decide_eq_false hlen, Bool.or_false]
    · have hrights : c.rights = [] := by
        unfold Cmsg.rights
        rw [if_neg hc]
      rw [if_neg hc, ih true all fun _ => rfl, hrights, List.nil_append]
      simp [hc]

/-- `receive` of a message: the descriptors, or an error. -/
theorem receive_message (size n : Nat) (first : UInt8) (trunc ctrunc : Bool) (control : List (Cmsg header)) :
    receive size (.message n first trunc ctrunc control) =
      let ds := control.flatMap Cmsg.rights
      if (trunc || ctrunc || control.any (fun c => !c.isRights) || decide (2 < ds.length)) = true ∨ n ≠ size then
        ⟨-eproto, [], ds.drop 2 ++ ds.take 2⟩
      else ⟨0, ds.take 2, ds.drop 2⟩ := by
  have hloop := Rights.foldl_message (trunc || ctrunc) [] control (fun h => by simp at h)
  rw [List.take_nil, List.drop_nil, List.nil_append] at hloop
  simp only [receive, hloop]

/-! ## Every descriptor -/

/-- What `ancil_recv_fd` makes of the first answer that is no interruption. -/
theorem ancilRecvFd_skip {answers : List (Answer header)} {out : Option Fd × List Fd}
    (h : ancilRecvFd answers = some out) :
    ∃ interruptions a rest, answers = interruptions ++ a :: rest ∧ (∀ x ∈ interruptions, x.Interrupted) ∧
      ancilRecvFd [a] = some out := by
  induction answers with
  | nil => cases h
  | cons a answers ih =>
    cases a with
    | message n first trunc ctrunc control => exact ⟨[], _, answers, rfl, List.forall_mem_nil _, h⟩
    | failed errno set =>
      by_cases heintr : errno = 4
      · subst heintr
        obtain ⟨interruptions, a, rest, rfl, hall, hout⟩ := ih h
        refine ⟨.failed 4 set :: interruptions, a, rest, rfl, ?_, hout⟩
        exact List.forall_mem_cons.2 ⟨⟨set, rfl⟩, hall⟩
      · refine ⟨[], _, answers, rfl, List.forall_mem_nil _, ?_⟩
        rw [ancilRecvFd, if_neg heintr] at h ⊢
        exact h

/-- One answer of `recvmsg` to `ancil_recv_fd` -/
theorem ancilRecvFd_one {a : Answer header} {out : Option Fd × List Fd} (h : ancilRecvFd [a] = some out) :
    (out.1.toList ++ out.2).Perm a.installed ∧ ∀ fd, out.1 = some fd ↔ a.IsDescriptor fd := by
  cases a with
  | failed errno set =>
    have hout : out = (none, []) := by
      rw [ancilRecvFd] at h
      split at h
      · cases h
      · cases h
        rfl
    rw [hout]
    exact ⟨.refl _, fun fd => ⟨fun he => (by cases he), False.elim⟩⟩
  | message n first trunc ctrunc control =>
    rw [ancilRecvFd_message] at h
    simp only [Answer.installed, Answer.IsDescriptor]
    generalize control.flatMap Cmsg.rights = ds at h ⊢
    dsimp only at h
    have hsplit : ds.head?.toList ++ ds.tail = ds := by cases ds <;> rfl
    by_cases hbad : n ≠ 1 ∨ first ≠ 33 ∨ ds.length ≠ 1 ∨ ctrunc = true
    · rw [if_pos hbad] at h
      cases h
      refine ⟨?_, fun fd => ⟨fun he => (by cases he), ?_⟩⟩
      · have hperm : (ds.tail ++ ds.head?.toList).Perm (ds.head?.toList ++ ds.tail) := List.perm_append_comm
        rwa [hsplit] at hperm
      · rintro ⟨rfl, rfl, rfl, rfl⟩
        simp at hbad
    · rw [if_neg hbad] at h
      cases h
      obtain ⟨hn, hfirst, hlen, hctrunc⟩ : n = 1 ∧ first = 33 ∧ ds.length = 1 ∧ ctrunc = false := by
        simpa only [not_or, not_not, ne_eq, Bool.not_eq_true] using hbad
      obtain ⟨d, rfl⟩ := List.length_eq_one_iff.1 hlen
      refine ⟨.refl _, fun fd => ?_⟩
      simp only [List.head?_cons, Option.some_inj, hn, hfirst, hctrunc, true_and, List.cons.injEq, and_true]

/-- One answer of `recvmsg` to `receive` -/
theorem receive_accounts (size : Nat) (a : Answer header) :
    ((receive size a).fds ++ (receive size a).closed).Perm a.installed ∧
      ((receive size a).error = 0 ↔ a.IsPacket size) ∧
      ((receive size a).error = 0 → (receive size a).fds = a.installed) ∧
      ((receive size a).error ≠ 0 → (receive size a).fds = []) := by
  cases a with
  | failed errno set =>
    have hne : (-errno : Int) ≠ 0 := by omega
    exact ⟨.refl _, ⟨fun h => absurd h hne, False.elim⟩, fun h => absurd h hne, fun _ => rfl⟩
  | message n first trunc ctrunc control =>
    rw [receive_message]
    simp only [Answer.installed, Answer.IsPacket]
    generalize control.flatMap Cmsg.rights = ds
    have hproto : (-eproto : Int) ≠ 0 := by decide
    have hbad_iff : ((trunc || ctrunc || control.any (fun c => !c.isRights) || decide (2 < ds.length)) = true ∨ n ≠ size) ↔
        ¬ (n = size ∧ trunc = false ∧ ctrunc = false ∧ (∀ c ∈ control, c.isRights = true) ∧ ds.length ≤ 2) := by
      simp only [Bool.or_eq_true, decide_eq_true_eq, List.any_eq_true, Bool.not_eq_true', ← Nat.not_lt,
        ← Bool.not_eq_true, not_and_or, not_forall, not_not]
      constructor
      · rintro ((((h | h) | ⟨c, hc, h⟩) | h) | h)
        · exact .inr (.inl h)
        · exact .inr (.inr (.inl h))
        · exact .inr (.inr (.inr (.inl ⟨c, hc, h⟩)))
        · exact .inr (.inr (.inr (.inr h)))
        · exact .inl h
      · rintro (h | h | h | ⟨c, hc, h⟩ | h)
        · exact .inr h
        · exact .inl (.inl (.inl (.inl h)))
        · exact .inl (.inl (.inl (.inr h)))
        · exact .inl (.inl (.inr ⟨c, hc, h⟩))
        · exact .inl (.inr h)
    by_cases hbad : (trunc || ctrunc || control.any (fun c => !c.isRights) || decide (2 < ds.length)) = true ∨ n ≠ size
    · rw [if_pos hbad]
      refine ⟨?_, ⟨fun h => absurd h hproto, fun h => absurd h (hbad_iff.1 hbad)⟩, fun h => absurd h hproto, fun _ => rfl⟩
      have hperm : (ds.drop 2 ++ ds.take 2).Perm (ds.take 2 ++ ds.drop 2) := List.perm_append_comm
      rwa [List.take_append_drop] at hperm
    · rw [if_neg hbad]
      have hgood := not_not.1 fun h => hbad (hbad_iff.2 h)
      have hshort : ds.length ≤ 2 := hgood.2.2.2.2
      rw [List.take_of_length_le hshort, List.drop_eq_nil_of_le hshort, List.append_nil]
      exact ⟨.refl _, ⟨fun _ => hgood, fun _ => rfl⟩, fun _ => rfl, fun h => absurd rfl h⟩

/-- **Descriptor receivers account for every descriptor**: `ancil_recv_fd` returns a descriptor exactly when the first
answer that is no interruption is one byte `!` with this descriptor and all of its control data, and `receive` succeeds
exactly when the answer is all of the data with at most two descriptors and nothing else; whatever was installed is
handed to the caller or closed, once. -/
theorem receivers_account (header size : Nat) :
    (∀ (answers : List (Answer header)) out, ancilRecvFd answers = some out →
      ∃ interruptions a rest, answers = interruptions ++ a :: rest ∧ (∀ x ∈ interruptions, x.Interrupted) ∧
        (out.1.toList ++ out.2).Perm a.installed ∧ ∀ fd, out.1 = some fd ↔ a.IsDescriptor fd) ∧
    ∀ a : Answer header, ((receive size a).fds ++ (receive size a).closed).Perm a.installed ∧
      ((receive size a).error = 0 ↔ a.IsPacket size) ∧
      ((receive size a).error = 0 → (receive size a).fds = a.installed) ∧
      ((receive size a).error ≠ 0 → (receive size a).fds = []) := by
  refine ⟨fun answers out h => ?_, receive_accounts size⟩
  obtain ⟨interruptions, a, rest, heq, hall, hout⟩ := ancilRecvFd_skip h
  exact ⟨interruptions, a, rest, heq, hall, ancilRecvFd_one hout⟩

/-- A packet with one descriptor -/
def descriptorPacket (first : UInt8) (trunc : Bool) (fd : Fd) : Answer 16 :=
  .message 1 first trunc false [⟨solSocket, scmRights, 20, [fd], fun _ _ => rfl⟩]

/-- A descriptor behind an interruption, and a packet of one byte for `receive` -/
theorem receivers_account_interrupted :
    (∃ interruptions a rest, [.failed 4 (by decide), descriptorPacket 33 false 5] = interruptions ++ a :: rest ∧
      (∀ x ∈ interruptions, x.Interrupted) ∧ ((some 5).toList ++ []).Perm a.installed ∧
      ∀ fd, some 5 = some fd ↔ a.IsDescriptor fd) ∧
    (receive 1 (descriptorPacket 33 false 5)).fds = (descriptorPacket 33 false 5).installed :=
  ⟨(receivers_account 16 1).1 [.failed 4 (by decide), descriptorPacket 33 false 5] (some 5, []) rfl,
    ((receivers_account 16 1).2 (descriptorPacket 33 false 5)).2.2.1 (by decide)⟩

/-- `ancil_recv_fd` takes a descriptor whose data was cut off. -/
theorem truncated_descriptor_taken : ¬ ∀ (a : Answer 16) out fd, ancilRecvFd [a] = some out → out.1 = some fd →
    ∃ n first control, a = .message n first false false control ∧ n = 1 ∧ first = 33 ∧
      control.flatMap Cmsg.rights = [fd] := by
  intro h
  obtain ⟨n, first, control, heq, -⟩ := h (descriptorPacket 33 true 5) (some 5, []) 5 (by decide) rfl
  cases heq

/-! ## The packets of the resource channels -/

/-- A control message as `Channel` sees it -/
def Cmsg.control (c : Cmsg header) : Control := if c.isRights then .rights c.data.length else .other

/-- An answer with a reply, as a packet of `Channel` -/
def packet (reply : Reply) (n : Nat) (trunc ctrunc : Bool) (control : List (Cmsg header)) : Packet :=
  ⟨n, trunc || ctrunc, control.map Cmsg.control, reply⟩

theorem packet_descriptors (reply : Reply) (n : Nat) (trunc ctrunc : Bool) (control : List (Cmsg header)) :
    (packet reply n trunc ctrunc control).descriptors = (control.flatMap Cmsg.rights).length := by
  simp only [packet, Packet.descriptors]
  induction control with
  | nil => rfl
  | cons c control ih =>
    rw [List.map_cons, List.map_cons, List.sum_cons, ih, List.flatMap_cons, List.length_append]
    unfold Cmsg.control Cmsg.rights
    cases c.isRights <;> rfl

/-- **Packets of the resource channels are received as `Channel` has it**: the same error and descriptors, and the same
descriptors are closed. -/
theorem receive_refines (size next : Nat) (reply : Reply) (n : Nat) (first : UInt8) (trunc ctrunc : Bool)
    (control : List (Cmsg header))
    (hfds : control.flatMap Cmsg.rights = List.range' next (control.flatMap Cmsg.rights).length) :
    let r := Resources.receive (packet reply n trunc ctrunc control) size next
    (receive size (.message n first trunc ctrunc control)).error = r.error ∧
      (receive size (.message n first trunc ctrunc control)).fds = r.fds ∧
      (receive size (.message n first trunc ctrunc control)).closed.Perm r.closed := by
  have hother : (control.map Cmsg.control).contains .other = control.any fun c => !c.isRights := by
    rw [List.contains_eq_any_beq, List.any_map]
    refine List.any_congr rfl fun c => ?_
    unfold Function.comp Cmsg.control
    cases c.isRights <;> rfl
  have hmalformed : (packet reply n trunc ctrunc control).malformed size =
      ((trunc || ctrunc || control.any (fun c => !c.isRights) || decide (2 < (control.flatMap Cmsg.rights).length)) ||
        decide (n ≠ size)) := by
    rw [Packet.malformed, packet_descriptors]
    simp only [packet, hother]
    rfl
  dsimp only
  rw [receive_message, Resources.receive, hmalformed, packet_descriptors, ← hfds]
  generalize control.flatMap Cmsg.rights = ds
  dsimp only
  by_cases hbad : (trunc || ctrunc || control.any (fun c => !c.isRights) || decide (2 < ds.length)) = true ∨ n ≠ size
  · rw [if_pos hbad, if_pos (Bool.or_eq_true_iff.2 (hbad.imp_right fun h => decide_eq_true h))]
    refine ⟨rfl, rfl, ?_⟩
    have hperm : (ds.drop 2 ++ ds.take 2).Perm (ds.take 2 ++ ds.drop 2) := List.perm_append_comm
    rwa [List.take_append_drop] at hperm
  · rw [if_neg hbad, if_neg fun h => hbad ((Bool.or_eq_true_iff.1 h).imp_right of_decide_eq_true)]
    have hshort : ds.length ≤ 2 := by
      simp only [not_or, Bool.or_eq_true, decide_eq_true_eq] at hbad
      omega
    rw [List.take_of_length_le hshort, List.drop_eq_nil_of_le hshort]
    exact ⟨rfl, rfl, .refl _⟩

end Lorie.Resources.Ancillary
