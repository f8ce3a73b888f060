import Lorie.Commands.Transport
import Lorie.Lib.Counter
import Lorie.Lib.LinkedList

/-!
# The memory and the descriptors of `LorieCommandQueue`

Messages are addresses, chained by `next`; a message holds a duplicate of the descriptor of the caller. `append` is one
step, and so is each turn of the loops of `flush` and `clear`; the answer of a system call, a descriptor that `fcntl` gives
and an address that `malloc` gives are part of the action. Between the steps the process opens and closes descriptors of
its own. An open descriptor has an identity that is never used again, other than its number.

History, which no step reads: `duplicates`, `sent`, `closed` and `flushed`.

- `Queued`: the chain, the memory and the counters;
- `Owned`: the descriptors;
- `command_queue_bounded`: both, after any steps.
-/

namespace Lorie.Commands.Queue

open Lorie.Lib Lorie.Lib.Links
open Lorie.Connection (Bytes)

/-- What `send` and `sendmsg` answer. -/
inductive Sent where
  /-- So many bytes. -/
  | count (k : Nat)
  /-- `EAGAIN` or `EWOULDBLOCK` -/
  | again
  /-- `EINTR` -/
  | interrupted
  /-- Any other error. -/
  | failed
  deriving DecidableEq, Repr

/-- Where the looper stands. -/
inductive Stage where
  | idle
  /-- In the loop of `flush`. -/
  | flushing
  /-- In the loop of `clear`. -/
  | clearing
  deriving DecidableEq, Repr

/-- Where the queue closes a descriptor. -/
inductive Cause where
  /-- In `append`, when `malloc` fails. -/
  | memory
  /-- In `flush`, behind `sendmsg`. -/
  | sent
  | clear
  deriving DecidableEq, Repr

/-- The open descriptors of the process by their numbers, each with an identity of its own, and the next identity. -/
structure Descriptors where
  table : Nat → Option Nat
  opened : Nat
  lt : ∀ {n d}, table n = some d → d < opened
  inj : ∀ {m n d}, table m = some d → table n = some d → m = n

namespace Descriptors

/-- A new descriptor -/
def openAt (f : Descriptors) (n : Nat) : Descriptors where
  table := Function.update f.table n (some f.opened)
  opened := f.opened + 1
  lt := by
    intro m d h
    rw [Function.update_apply] at h
    split_ifs at h with hm
    · cases h
      exact Nat.lt_succ_self _
    · exact Nat.lt_succ_of_lt (f.lt h)
  inj := by
    intro a b d ha hb
    rw [Function.update_apply] at ha hb
    split_ifs at ha hb with hea heb heb
    · rw [hea, heb]
    · cases ha
      exact absurd (f.lt hb) (Nat.lt_irrefl _)
    · cases hb
      exact absurd (f.lt ha) (Nat.lt_irrefl _)
    · exact f.inj ha hb

def closeAt (f : Descriptors) (n : Nat) : Descriptors where
  table := Function.update f.table n none
  opened := f.opened
  lt := by
    intro m d h
    rw [Function.update_apply] at h
    split_ifs at h
    exact f.lt h
  inj := by
    intro a b d ha hb
    rw [Function.update_apply] at ha hb
    split_ifs at ha hb
    exact f.inj ha hb

end Descriptors

structure State where
  stage : Stage
  first : Option Nat
  last : Option Nat
  /-- `message->next` -/
  next : Nat → Option Nat
  messages : Nat → Message
  bytes : Nat
  count : Nat
  /-- What is allocated. -/
  allocated : List Nat
  files : Descriptors
  /-- History: the descriptors that `fcntl` made in `append`. -/
  duplicates : List Nat
  /-- History: the descriptors that were sent. -/
  sent : List Nat
  /-- History: the descriptors that the queue closed. -/
  closed : List (Nat × Cause)
  /-- History: what `flush` returned, and behind which answer. -/
  flushed : List (Bool × Option Sent)

namespace State

/-- An empty queue in a process with some descriptors -/
def init (files : Descriptors) (messages : Nat → Message) (next : Nat → Option Nat) : State :=
  { stage := .idle, first := none, last := none, next, messages, bytes := 0, count := 0, allocated := [], files,
    duplicates := [], sent := [], closed := [], flushed := [] }

/-! ## Descriptors -/

/-- The open descriptor of a number -/
def table (s : State) (n : Nat) : Option Nat := s.files.table n

/-- `fcntl` with `F_DUPFD_CLOEXEC` -/
def duplicate (s : State) (n : Nat) : State :=
  { s with files := s.files.openAt n, duplicates := s.duplicates ++ [s.files.opened] }

/-- `close`, if there is a descriptor -/
def close (s : State) (descriptor : Option Nat) (cause : Cause) : State :=
  match descriptor with
  | none => s
  | some n =>
    { s with files := s.files.closeAt n, closed := s.closed ++ (s.table n).toList.map fun d => (d, cause) }

/-! ## The functions of the queue -/

/-- A message behind the last one -/
def push (s : State) (p : Nat) (m : Message) : State :=
  { s with
    allocated := p :: s.allocated
    messages := Function.update s.messages p m
    next :=
      match s.last with
      | some l => Function.update (Function.update s.next p none) l (some p)
      | none => Function.update s.next p none
    first := if s.last.isSome then s.first else some p
    last := some p
    count := s.count + 1
    bytes := s.bytes + m.bytes.length }

/-- `append` from `malloc` on -/
def allocate (s : State) (data : Bytes) (copy : Option Nat) : Option Nat → Bool × State
  | none => (false, s.close copy .memory)
  | some p => (true, s.push p ⟨data, 0, copy⟩)

/-- `append`; `copy` is what `fcntl` answers and `memory` what `malloc` does. -/
def append (s : State) (data : Bytes) (descriptor copy memory : Option Nat) : Bool × State :=
  if sizeSub maxBytes s.bytes < data.length ∨ s.count = maxMessages then (false, s)
  else
    match descriptor, copy with
    | none, _ => s.allocate data none memory
    | some _, none => (false, s)
    | some _, some n => (s.duplicate n).allocate data (some n) memory

/-- `flush` returns. -/
def finish (s : State) (result : Bool) (answer : Option Sent) : State :=
  { s with stage := .idle, flushed := s.flushed ++ [(result, answer)] }

/-- `flush` behind a call that did not do what it should -/
def stop (s : State) (answer : Sent) : State :=
  if answer = .interrupted then s else s.finish (answer = .again) (some answer)

/-- The first message has been sent. -/
def remove (s : State) (p : Nat) : State :=
  { s with
    bytes := sizeSub s.bytes (s.messages p).bytes.length
    first := s.next p
    last := if (s.next p).isSome then s.last else none
    allocated := s.allocated.erase p
    count := sizeSub s.count 1 }

/-- The descriptor of the first message has been sent. -/
def release (s : State) (p n : Nat) : State :=
  { s.close (some n) .sent with
    sent := s.sent ++ (s.table n).toList
    messages := Function.update s.messages p { s.messages p with descriptor := none } }

/-- One turn of the loop of `flush` -/
def flush (s : State) (answer : Sent) : Option State :=
  match s.first with
  | none => some (s.finish true none)
  | some p =>
    if (s.messages p).sent < (s.messages p).bytes.length then
      match answer with
      | .count (k + 1) =>
        if k + 1 ≤ (s.messages p).bytes.length - (s.messages p).sent then
          some { s with
            messages := Function.update s.messages p { s.messages p with sent := (s.messages p).sent + (k + 1) } }
        else none
      | answer => some (s.stop answer)
    else
      match (s.messages p).descriptor with
      | some n =>
        match answer with
        | .count 1 => some (s.release p n)
        | .count (_ + 2) => none
        | answer => some (s.stop answer)
      | none => some (s.remove p)

/-- One turn of the loop of `clear`, or what follows it -/
def clear (s : State) : State :=
  match s.first with
  | none => { s with stage := .idle, last := none, bytes := 0, count := 0 }
  | some p =>
    { s.close (s.messages p).descriptor .clear with first := s.next p, allocated := s.allocated.erase p }

end State

inductive Action where
  | openNumber (n : Nat)
  | closeNumber (n : Nat)
  | append (data : Bytes) (descriptor copy memory : Option Nat)
  /-- `flush` is called. -/
  | enterFlush
  | flush (answer : Sent)
  /-- `clear` is called. -/
  | enterClear
  | clear
  deriving DecidableEq

/-- What `fcntl` and `malloc` answer: a free number for an open descriptor, and memory that is free. -/
def State.Answers (s : State) (descriptor copy memory : Option Nat) : Prop :=
  (∀ d ∈ descriptor, ∀ n ∈ copy, s.table d ≠ none ∧ s.table n = none) ∧ ∀ p ∈ memory, p ∉ s.allocated

instance (s : State) (descriptor copy memory : Option Nat) : Decidable (s.Answers descriptor copy memory) :=
  inferInstanceAs (Decidable ((∀ d ∈ descriptor, ∀ n ∈ copy, s.table d ≠ none ∧ s.table n = none) ∧
    ∀ p ∈ memory, p ∉ s.allocated))

/-- One step of the looper or of the rest of the process, which closes no duplicate of the queue. -/
def step (s : State) : Action → Option State
  | .openNumber n => if s.table n = none then some { s with files := s.files.openAt n } else none
  | .closeNumber n =>
    if ∀ d ∈ s.table n, d ∉ s.duplicates then some { s with files := s.files.closeAt n } else none
  | .append data descriptor copy memory =>
    if s.stage = .idle ∧ s.Answers descriptor copy memory then some (s.append data descriptor copy memory).2 else none
  | .enterFlush => if s.stage = .idle then some { s with stage := .flushing } else none
  | .flush answer => if s.stage = .flushing then s.flush answer else none
  | .enterClear => if s.stage = .idle then some { s with stage := .clearing } else none
  | .clear => if s.stage = .clearing then some s.clear else none

/-! ## The chain of messages -/

namespace State

/-- What the links of the queue hold. -/
def cell (s : State) : Link → Option Nat
  | .head => s.first
  | .next p => s.next p

/-- The size of a message -/
def size (s : State) (p : Nat) : Nat := (s.messages p).bytes.length

end State

variable {s t : State} {ps : List Nat} {p : Nat}

/-- The link that `last` stands for. -/
theorem lastLink_getLast? (ps : List Nat) :
    lastLink .head ps = match ps.getLast? with
      | none => .head
      | some p => .next p := by
  rcases List.eq_nil_or_concat ps with rfl | ⟨qs, p, rfl⟩
  · rfl
  · rw [List.concat_eq_append, lastLink_append, List.getLast?_append]
    rfl

/-- The messages `ps`, in the order of the queue. While `clear` goes on, `last` and the counters are behind. -/
structure Queued (s : State) (ps : List Nat) : Prop where
  holds : Holds ⟨s.cell, lastLink .head ps⟩ ps
  memory : s.allocated.Perm ps
  last : s.stage ≠ .clearing → s.last = ps.getLast?
  bytes : s.stage ≠ .clearing → s.bytes = (ps.map s.size).sum
  count : s.stage ≠ .clearing → s.count = ps.length
  bytes_le : s.bytes ≤ maxBytes
  count_le : s.count ≤ maxMessages

theorem Queued.init (files : Descriptors) (messages : Nat → Message) (next : Nat → Option Nat) :
    Queued (State.init files messages next) [] where
  holds := ⟨trivial, rfl, rfl, List.nodup_nil⟩
  memory := .nil
  last _ := rfl
  bytes _ := rfl
  count _ := rfl
  bytes_le := Nat.zero_le _
  count_le := Nat.zero_le _

/-- What the list of messages depends on. -/
theorem Queued.congr (h : Queued s ps) (hstage : t.stage = .clearing ↔ s.stage = .clearing) (hfirst : t.first = s.first)
    (hlast : t.last = s.last) (hnext : t.next = s.next) (hsize : t.size = s.size) (hbytes : t.bytes = s.bytes)
    (hcount : t.count = s.count) (hallocated : t.allocated = s.allocated) : Queued t ps := by
  have hcell : t.cell = s.cell := by
    funext c
    cases c with
    | head => exact hfirst
    | next p => exact congrFun hnext p
  have hstage' : t.stage ≠ .clearing → s.stage ≠ .clearing := fun ht hs => ht (hstage.2 hs)
  constructor
  · rw [hcell]
    exact h.holds
  · rw [hallocated]
    exact h.memory
  · intro ht
    rw [hlast]
    exact h.last (hstage' ht)
  · intro ht
    rw [hbytes, hsize]
    exact h.bytes (hstage' ht)
  · intro ht
    rw [hcount]
    exact h.count (hstage' ht)
  · rw [hbytes]
    exact h.bytes_le
  · rw [hcount]
    exact h.count_le

theorem Queued.mem (h : Queued s ps) : p ∈ s.allocated ↔ p ∈ ps := h.memory.mem_iff

/-- The first message -/
theorem Queued.head (h : Queued s ps) : s.first = ps.head? := @Holds.cell_lastLink _ [] _ h.holds

/-- The messages behind the first one -/
theorem Queued.tail (h : Queued s (p :: ps)) : Holds ⟨Function.update s.cell .head (s.next p), lastLink .head ps⟩ ps := by
  have hremove := @Holds.remove _ [] p ps h.holds
  exact ⟨hremove.leads, hremove.ends, rfl, hremove.nodup⟩

/-- Changes of the descriptors -/
theorem Queued.close (h : Queued s ps) (descriptor : Option Nat) (cause : Cause) : Queued (s.close descriptor cause) ps := by
  unfold State.close
  cases descriptor <;> exact h.congr Iff.rfl rfl rfl rfl rfl rfl rfl rfl

theorem Queued.duplicate (h : Queued s ps) (n : Nat) : Queued (s.duplicate n) ps :=
  h.congr Iff.rfl rfl rfl rfl rfl rfl rfl rfl

/-- The chain behind a new message -/
theorem push_cell (s : State) (p : Nat) (m : Message) (hlast : s.last = ps.getLast?) :
    (s.push p m).cell = (Links.push ⟨s.cell, lastLink .head ps⟩ p).cell := by
  funext c
  rw [lastLink_getLast?, ← hlast]
  cases hl : s.last with
  | none => cases c <;> simp [Links.push, State.push, State.cell, hl, Function.update_apply]
  | some l => cases c <;> simp [Links.push, State.push, State.cell, hl, Function.update_apply]

theorem push_size (s : State) (p : Nat) (m : Message) :
    (s.push p m).size = Function.update s.size p m.bytes.length := by
  funext q
  simp only [State.size, State.push, Function.update_apply]
  split <;> rfl

/-- A message is appended. -/
theorem Queued.push (h : Queued s ps) (hstage : s.stage = .idle) (hp : p ∉ s.allocated) {m : Message}
    (hbytes : m.bytes.length ≤ maxBytes - s.bytes) (hcount : s.count ≠ maxMessages) :
    Queued (s.push p m) (ps ++ [p]) := by
  have hp' : p ∉ ps := fun hm => hp (h.mem.2 hm)
  have hidle : s.stage ≠ .clearing := by
    rw [hstage]
    decide
  have hsizes : (ps.map (s.push p m).size) = ps.map s.size := by
    rw [push_size]
    exact List.map_congr_left fun q hq => Function.update_of_ne (ne_of_mem_of_not_mem hq hp') _ _
  have hself : (s.push p m).size p = m.bytes.length := by
    rw [push_size, Function.update_self]
  have hb := h.bytes_le
  have hc := h.count_le
  constructor
  · have hpush := h.holds.push hp'
    rw [push_cell s p m (h.last hidle)]
    exact ⟨hpush.leads, hpush.ends, rfl, hpush.nodup⟩
  · exact (h.memory.cons p).trans (List.perm_append_singleton p ps).symm
  · intro _
    exact List.getLast?_concat.symm
  · intro _
    rw [List.map_append, List.sum_append, hsizes, List.map_singleton, List.sum_singleton, hself, ← h.bytes hidle]
    rfl
  · intro _
    rw [List.length_append, List.length_singleton, ← h.count hidle]
    rfl
  · show s.bytes + m.bytes.length ≤ maxBytes
    omega
  · show s.count + 1 ≤ maxMessages
    omega

/-- The first message is removed. -/
theorem Queued.remove (h : Queued s (p :: ps)) (hstage : s.stage ≠ .clearing) : Queued (s.remove p) ps := by
  have hfirst := @Holds.cell_lastLink _ [] _ h.tail
  have hsum := h.bytes hstage
  have hlen := h.count hstage
  have hb := h.bytes_le
  have hc := h.count_le
  have hmax : maxBytes < 2 ^ 64 := by decide
  have hmax' : maxMessages < 2 ^ 64 := by decide
  rw [List.map_cons, List.sum_cons] at hsum
  rw [List.length_cons] at hlen
  have hbytes : (s.remove p).bytes = s.bytes - s.size p :=
    sizeSub_eq (show s.size p ≤ s.bytes by omega) (by omega)
  have hcount : (s.remove p).count = s.count - 1 := sizeSub_eq (by omega) (by omega)
  have hcell : (s.remove p).cell = Function.update s.cell .head (s.next p) := by
    funext c
    cases c <;> simp [State.remove, State.cell]
  constructor
  · rw [hcell]
    exact h.tail
  · exact (h.memory.erase p).trans (by rw [List.erase_cons_head])
  · intro _
    have hlast := h.last hstage
    have hnext : s.next p = ps.head? := by
      rw [← hfirst]
      exact (Function.update_self Link.head (s.next p) s.cell).symm
    show (if (s.next p).isSome then s.last else none) = ps.getLast?
    rw [hnext, hlast]
    cases ps with
    | nil => rfl
    | cons q qs => rfl
  · intro _
    rw [hbytes]
    show s.bytes - s.size p = (ps.map s.size).sum
    omega
  · intro _
    rw [hcount]
    omega
  · rw [hbytes]
    omega
  · rw [hcount]
    omega

/-- A message changes, other than in its size. -/
theorem Queued.change (h : Queued s ps) {m : Message} (hm : m.bytes = (s.messages p).bytes) :
    Queued { s with messages := Function.update s.messages p m } ps := by
  refine h.congr Iff.rfl rfl rfl rfl ?_ rfl rfl rfl
  funext q
  by_cases hq : q = p
  · subst hq
    simp [State.size, hm]
  · simp [State.size, hq]

/-- One turn of `clear` -/
theorem Queued.clear (h : Queued s ps) (hstage : s.stage = .clearing) : Queued s.clear ps.tail := by
  cases ps with
  | nil =>
    have hclear : s.clear = { s with stage := .idle, last := none, bytes := 0, count := 0 } := by
      unfold State.clear
      rw [h.head]
      rfl
    rw [hclear]
    refine ⟨?_, h.memory, fun _ => rfl, fun _ => rfl, fun _ => rfl, Nat.zero_le _, Nat.zero_le _⟩
    exact ⟨trivial, h.holds.ends, rfl, .nil⟩
  | cons p ps =>
    have hclear : s.clear =
        { s.close (s.messages p).descriptor .clear with first := s.next p, allocated := s.allocated.erase p } := by
      unfold State.clear
      rw [h.head]
      rfl
    have hclose := h.close (s.messages p).descriptor .clear
    have hkeep : (s.close (s.messages p).descriptor .clear).stage = .clearing := by
      unfold State.close
      split <;> exact hstage
    have hcell : s.clear.cell = Function.update s.cell .head (s.next p) := by
      rw [hclear]
      unfold State.close
      funext c
      cases c with
      | head => rfl
      | next q => split <;> rfl
    refine ⟨?_, ?_, ?_, ?_, ?_, ?_, ?_⟩
    · rw [hcell]
      exact h.tail
    · rw [hclear]
      exact (h.memory.erase p).trans (by rw [List.erase_cons_head]; rfl)
    · intro ht
      rw [hclear] at ht
      exact absurd hkeep ht
    · intro ht
      rw [hclear] at ht
      exact absurd hkeep ht
    · intro ht
      rw [hclear] at ht
      exact absurd hkeep ht
    · rw [hclear]
      exact hclose.bytes_le
    · rw [hclear]
      exact hclose.count_le

/-! ## What a step does -/

/-- What one turn of `flush` comes to. -/
inductive Turn (s : State) : State → Prop where
  /-- Nothing is left. -/
  | done : s.first = none → Turn s (s.finish true none)
  /-- A part of the bytes is sent. -/
  | bytes {p k : Nat} : s.first = some p →
      Turn s { s with messages := Function.update s.messages p { s.messages p with sent := k } }
  /-- The descriptor is sent. -/
  | descriptor {p n : Nat} : s.first = some p → (s.messages p).descriptor = some n → Turn s (s.release p n)
  /-- Both have been sent. -/
  | remove {p : Nat} : s.first = some p → (s.messages p).descriptor = none → Turn s (s.remove p)
  | again {p : Nat} : s.first = some p → Turn s s
  | stop {p : Nat} {answer : Sent} : s.first = some p → answer ≠ .interrupted →
      (answer = .again ∨ answer = .count 0 ∨ answer = .failed) → Turn s (s.finish (answer = .again) (some answer))

theorem turn_stop {answer : Sent} (hp : s.first = some p) (h : ∀ k, answer ≠ .count (k + 1)) : Turn s (s.stop answer) := by
  unfold State.stop
  by_cases hint : answer = .interrupted
  · rw [if_pos hint]
    exact .again hp
  · rw [if_neg hint]
    refine .stop hp hint ?_
    cases answer with
    | count k =>
      cases k with
      | zero => exact .inr (.inl rfl)
      | succ k => exact absurd rfl (h k)
    | again => exact .inl rfl
    | interrupted => exact absurd rfl hint
    | failed => exact .inr (.inr rfl)

theorem flush_turn {answer : Sent} (h : s.flush answer = some t) : Turn s t := by
  unfold State.flush at h
  split at h
  · next hp =>
    cases h
    exact .done hp
  · next p hp =>
    by_cases hsent : (s.messages p).sent < (s.messages p).bytes.length
    · rw [if_pos hsent] at h
      split at h
      · split_ifs at h
        cases h
        exact .bytes hp
      · next hno =>
        cases h
        exact turn_stop hp fun k hk => hno k hk
    · rw [if_neg hsent] at h
      split at h
      · next n hn =>
        split at h
        · cases h
          exact .descriptor hp hn
        · cases h
        · next hone htwo =>
          cases h
          refine turn_stop hp fun k hk => ?_
          cases k with
          | zero => exact hone hk
          | succ k => exact htwo k hk
      · next hn =>
        cases h
        exact .remove hp hn

/-- What `append` comes to. -/
inductive Appended (s : State) (data : Bytes) : Bool × State → Prop where
  | refused : Appended s data (false, s)
  | plain {p : Nat} : p ∉ s.allocated → Appended s data (true, s.push p ⟨data, 0, none⟩)
  | descriptor {p n : Nat} : p ∉ s.allocated → s.table n = none →
      Appended s data (true, (s.duplicate n).push p ⟨data, 0, some n⟩)
  /-- There is no memory for the message. -/
  | memory {n : Nat} : s.table n = none → Appended s data (false, (s.duplicate n).close (some n) .memory)

theorem append_appended {d : Bytes} {descriptor copy memory : Option Nat} (h : s.Answers descriptor copy memory)
    (hb : s.bytes ≤ maxBytes) :
    Appended s d (s.append d descriptor copy memory) ∧
      ((s.append d descriptor copy memory).1 = true → d.length ≤ maxBytes - s.bytes ∧ s.count ≠ maxMessages) := by
  obtain ⟨htable, hmemory⟩ := h
  have hroom : sizeSub maxBytes s.bytes = maxBytes - s.bytes := sizeSub_eq hb (by decide)
  unfold State.append
  by_cases hfull : sizeSub maxBytes s.bytes < d.length ∨ s.count = maxMessages
  · rw [if_pos hfull]
    exact ⟨.refused, fun hfalse => by cases hfalse⟩
  · rw [if_neg hfull]
    rw [hroom] at hfull
    refine ⟨?_, fun _ => ⟨by omega, fun hc => hfull (.inr hc)⟩⟩
    cases descriptor with
    | none =>
      cases memory with
      | none => exact .refused
      | some p => exact .plain (hmemory p rfl)
    | some n₀ =>
      cases copy with
      | none => exact .refused
      | some n =>
        cases memory with
        | none => exact .memory (htable n₀ rfl n rfl).2
        | some p => exact .descriptor (hmemory p rfl) (htable n₀ rfl n rfl).2

/-! ## The descriptors of the queue -/

/-- The descriptor that a message holds. -/
def State.held (s : State) (p : Nat) : Option Nat := (s.messages p).descriptor.bind s.table

/-- The duplicates are those that the messages `ps` hold, which are open, and those that are closed. -/
structure Owned (s : State) (ps : List Nat) : Prop where
  valid : ∀ p ∈ ps, ∀ n, (s.messages p).descriptor = some n → ∃ d, s.table n = some d
  ledger : (ps.filterMap s.held ++ s.closed.map Prod.fst).Perm s.duplicates
  nodup : s.duplicates.Nodup
  lt : ∀ d ∈ s.duplicates, d < s.files.opened
  sent : s.sent = (s.closed.filter fun c => c.2 = .sent).map Prod.fst

theorem Owned.init (files : Descriptors) (messages : Nat → Message) (next : Nat → Option Nat) :
    Owned (State.init files messages next) [] where
  valid p hp := by cases hp
  ledger := .nil
  nodup := .nil
  lt d hd := by cases hd
  sent := rfl

/-- What the messages hold depends on their descriptors, and on what these stand for. -/
theorem held_congr (hm : ∀ p ∈ ps, (t.messages p).descriptor = (s.messages p).descriptor)
    (htable : ∀ p ∈ ps, ∀ n, (s.messages p).descriptor = some n → t.table n = s.table n) :
    ps.filterMap t.held = ps.filterMap s.held := by
  apply List.filterMap_congr
  intro p hp
  unfold State.held
  rw [hm p hp]
  cases hn : (s.messages p).descriptor with
  | none => rfl
  | some n => exact htable p hp n hn

theorem Owned.congr (h : Owned s ps) (hm : ∀ p ∈ ps, (t.messages p).descriptor = (s.messages p).descriptor)
    (htable : ∀ p ∈ ps, ∀ n, (s.messages p).descriptor = some n → t.table n = s.table n) (hclosed : t.closed = s.closed)
    (hduplicates : t.duplicates = s.duplicates) (hsent : t.sent = s.sent) (hopened : s.files.opened ≤ t.files.opened) :
    Owned t ps := by
  constructor
  · intro p hp n hn
    rw [hm p hp] at hn
    rw [htable p hp n hn]
    exact h.valid p hp n hn
  · rw [held_congr hm htable, hclosed, hduplicates]
    exact h.ledger
  · rw [hduplicates]
    exact h.nodup
  · intro d hd
    rw [hduplicates] at hd
    exact lt_of_lt_of_le (h.lt d hd) hopened
  · rw [hsent, hclosed]
    exact h.sent

/-- The descriptor of a message is a duplicate. -/
theorem Owned.duplicates (h : Owned s ps) (hp : p ∈ ps) {n : Nat} (hn : (s.messages p).descriptor = some n) :
    ∃ d ∈ s.duplicates, s.table n = some d := by
  obtain ⟨d, hd⟩ := h.valid p hp n hn
  refine ⟨d, h.ledger.subset (List.mem_append_left _ (List.mem_filterMap.2 ⟨p, hp, ?_⟩)), hd⟩
  unfold State.held
  rw [hn]
  exact hd

theorem table_openAt (f : Descriptors) {m n : Nat} (h : m ≠ n) : (f.openAt n).table m = f.table m :=
  Function.update_of_ne h _ _

theorem table_closeAt (f : Descriptors) {m n : Nat} (h : m ≠ n) : (f.closeAt n).table m = f.table m :=
  Function.update_of_ne h _ _

/-- The process opens a descriptor. -/
theorem Owned.openNumber (h : Owned s ps) {n : Nat} (hn : s.table n = none) :
    Owned { s with files := s.files.openAt n } ps := by
  refine h.congr (fun _ _ => rfl) ?_ rfl rfl rfl (Nat.le_succ _)
  intro p hp m hm
  obtain ⟨d, hd⟩ := h.valid p hp m hm
  apply table_openAt
  rintro rfl
  rw [hn] at hd
  cases hd

/-- The process closes a descriptor. -/
theorem Owned.closeNumber (h : Owned s ps) {n : Nat} (hn : ∀ d ∈ s.table n, d ∉ s.duplicates) :
    Owned { s with files := s.files.closeAt n } ps := by
  refine h.congr (fun _ _ => rfl) ?_ rfl rfl rfl (Nat.le_refl _)
  intro p hp m hm
  obtain ⟨d, hdup, hd⟩ := h.duplicates hp hm
  apply table_closeAt
  rintro rfl
  exact hn d hd hdup

/-- A message without a descriptor -/
theorem Owned.cons (h : Owned s ps) (hp : (s.messages p).descriptor = none) : Owned s (p :: ps) := by
  have hheld : s.held p = none := by
    unfold State.held
    rw [hp]
    rfl
  refine ⟨?_, ?_, h.nodup, h.lt, h.sent⟩
  · intro q hq n hn
    rcases List.mem_cons.1 hq with rfl | hq
    · rw [hp] at hn
      cases hn
    · exact h.valid q hq n hn
  · rw [List.filterMap_cons_none hheld]
    exact h.ledger

theorem Owned.tail (h : Owned s (p :: ps)) (hp : (s.messages p).descriptor = none) : Owned s ps := by
  have hheld : s.held p = none := by
    unfold State.held
    rw [hp]
    rfl
  refine ⟨fun q hq => h.valid q (List.mem_cons_of_mem _ hq), ?_, h.nodup, h.lt, h.sent⟩
  have hledger := h.ledger
  rw [List.filterMap_cons_none hheld] at hledger
  exact hledger

/-- The descriptor of the first message is closed, and the message is dropped or loses it. -/
theorem Owned.release (h : Owned s (p :: ps)) {n : Nat} {c : Cause} (hn : (s.messages p).descriptor = some n)
    (hm : ∀ q ∈ ps, (t.messages q).descriptor = (s.messages q).descriptor) (hfiles : t.files = s.files.closeAt n)
    (hclosed : t.closed = s.closed ++ (s.table n).toList.map fun d => (d, c))
    (hsent : t.sent = s.sent ++ if c = .sent then (s.table n).toList else [])
    (hduplicates : t.duplicates = s.duplicates) : Owned t ps := by
  obtain ⟨d, hd⟩ := h.valid p List.mem_cons_self n hn
  have hheld : s.held p = some d := by
    unfold State.held
    rw [hn]
    exact hd
  have hledger := h.ledger
  rw [List.filterMap_cons_some hheld] at hledger
  have hnotin : d ∉ ps.filterMap s.held := by
    have hnodup := hledger.nodup_iff.2 h.nodup
    exact fun hin => (List.nodup_cons.1 hnodup).1 (List.mem_append_left _ hin)
  -- no other message has the same number
  have hother : ∀ q ∈ ps, ∀ m, (s.messages q).descriptor = some m → t.table m = s.table m := by
    intro q hq m hm'
    unfold State.table
    rw [hfiles]
    apply table_closeAt
    rintro rfl
    refine hnotin (List.mem_filterMap.2 ⟨q, hq, ?_⟩)
    unfold State.held
    rw [hm']
    exact hd
  rw [hd] at hclosed hsent
  constructor
  · intro q hq m hm'
    rw [hm q hq] at hm'
    rw [hother q hq m hm']
    exact h.valid q (List.mem_cons_of_mem _ hq) m hm'
  · rw [held_congr hm hother, hclosed, hduplicates, List.map_append, ← List.append_assoc]
    exact (List.perm_append_singleton _ _).trans hledger
  · rw [hduplicates]
    exact h.nodup
  · intro e he
    rw [hduplicates] at he
    rw [hfiles]
    exact h.lt e he
  · rw [hsent, hclosed, h.sent, List.filter_append, List.map_append]
    cases c <;> rfl

/-- A message behind the others: what it holds is held by none of them. -/
theorem Owned.push (h : Owned s ps) (hp : p ∉ ps) (data : Bytes) : Owned (s.push p ⟨data, 0, none⟩) (ps ++ [p]) := by
  have hm : ∀ q ∈ ps, ((s.push p ⟨data, 0, none⟩).messages q).descriptor = (s.messages q).descriptor := by
    intro q hq
    show (Function.update s.messages p _ q).descriptor = _
    rw [Function.update_of_ne (ne_of_mem_of_not_mem hq hp)]
  have hself : ((s.push p ⟨data, 0, none⟩).messages p).descriptor = none := by
    show (Function.update s.messages p _ p).descriptor = _
    rw [Function.update_self]
  have hpush := (h.congr (t := s.push p ⟨data, 0, none⟩) hm (fun _ _ _ _ => rfl) rfl rfl rfl (Nat.le_refl _)).cons hself
  refine ⟨?_, ?_, hpush.nodup, hpush.lt, hpush.sent⟩
  · intro q hq
    exact hpush.valid q ((List.perm_append_singleton p ps).subset hq)
  · exact (((List.perm_append_singleton p ps).filterMap _).append_right _).trans hpush.ledger

/-- A message that holds a new duplicate -/
theorem Owned.pushDuplicate (h : Owned s ps) (hp : p ∉ ps) {n : Nat} (hn : s.table n = none) (data : Bytes) :
    Owned ((s.duplicate n).push p ⟨data, 0, some n⟩) (ps ++ [p]) := by
  have hm : ∀ q ∈ ps, (((s.duplicate n).push p ⟨data, 0, some n⟩).messages q).descriptor =
      (s.messages q).descriptor := by
    intro q hq
    show (Function.update s.messages p _ q).descriptor = _
    rw [Function.update_of_ne (ne_of_mem_of_not_mem hq hp)]
  have hself : ((s.duplicate n).push p ⟨data, 0, some n⟩).messages p = ⟨data, 0, some n⟩ := Function.update_self _ _ _
  have hnew : ((s.duplicate n).push p ⟨data, 0, some n⟩).table n = some s.files.opened := Function.update_self _ _ _
  have htable : ∀ q ∈ ps, ∀ m, (s.messages q).descriptor = some m →
      ((s.duplicate n).push p ⟨data, 0, some n⟩).table m = s.table m := by
    intro q hq m hm'
    obtain ⟨d, hd⟩ := h.valid q hq m hm'
    apply table_openAt
    rintro rfl
    rw [hn] at hd
    cases hd
  have hfresh : s.files.opened ∉ s.duplicates := fun hin => absurd (h.lt _ hin) (Nat.lt_irrefl _)
  constructor
  · intro q hq m hm'
    rcases List.mem_append.1 hq with hq | hq
    · rw [hm q hq] at hm'
      rw [htable q hq m hm']
      exact h.valid q hq m hm'
    · obtain rfl := List.mem_singleton.1 hq
      rw [hself] at hm'
      cases hm'
      exact ⟨_, hnew⟩
  · have hheld : ((s.duplicate n).push p ⟨data, 0, some n⟩).held p = some s.files.opened := by
      unfold State.held
      rw [hself]
      exact hnew
    have hlist : (ps ++ [p]).filterMap ((s.duplicate n).push p ⟨data, 0, some n⟩).held =
        ps.filterMap s.held ++ [s.files.opened] := by
      rw [List.filterMap_append, held_congr hm htable, List.filterMap_cons_some hheld, List.filterMap_nil]
    rw [hlist]
    show (ps.filterMap s.held ++ [s.files.opened] ++ s.closed.map Prod.fst).Perm (s.duplicates ++ [s.files.opened])
    rw [List.append_assoc]
    exact ((List.perm_append_comm : ([s.files.opened] ++ _).Perm (_ ++ [s.files.opened])).append_left _).trans
      (by rw [← List.append_assoc]; exact h.ledger.append_right _)
  · exact List.nodup_append.2 ⟨h.nodup, List.nodup_singleton _, by
      rintro a ha b hb rfl
      exact hfresh (List.mem_singleton.1 hb ▸ ha)⟩
  · intro d hd
    rcases List.mem_append.1 hd with hd | hd
    · exact Nat.lt_succ_of_lt (h.lt d hd)
    · rw [List.mem_singleton.1 hd]
      exact Nat.lt_succ_self _
  · exact h.sent

/-- A duplicate that is closed at once: nothing of the process has changed. -/
theorem duplicate_close_table {n : Nat} (hn : s.table n = none) :
    ((s.duplicate n).close (some n) .memory).table = s.table := by
  funext m
  show Function.update (Function.update s.table n _) n none m = s.table m
  rw [Function.update_idem, Function.update_apply]
  split
  · next hm =>
    rw [hm, hn]
  · rfl

theorem Owned.closeDuplicate (h : Owned s ps) {n : Nat} (hn : s.table n = none) :
    Owned ((s.duplicate n).close (some n) .memory) ps := by
  have htable := duplicate_close_table hn
  have hnew : (s.duplicate n).table n = some s.files.opened := Function.update_self _ _ _
  have hclosed : ((s.duplicate n).close (some n) .memory).closed = s.closed ++ [(s.files.opened, .memory)] := by
    unfold State.close
    simp only
    rw [hnew]
    rfl
  have hfresh : s.files.opened ∉ s.duplicates := fun hin => absurd (h.lt _ hin) (Nat.lt_irrefl _)
  constructor
  · intro p hp m hm
    rw [htable]
    exact h.valid p hp m hm
  · rw [held_congr (s := s) (t := (s.duplicate n).close (some n) .memory) (fun _ _ => rfl)
      (fun _ _ m _ => congrFun htable m), hclosed, List.map_append,
      ← List.append_assoc]
    exact h.ledger.append_right _
  · exact List.nodup_append.2 ⟨h.nodup, List.nodup_singleton _, by
      rintro a ha b hb rfl
      exact hfresh (List.mem_singleton.1 hb ▸ ha)⟩
  · intro d hd
    rcases List.mem_append.1 hd with hd | hd
    · exact Nat.lt_succ_of_lt (h.lt d hd)
    · rw [List.mem_singleton.1 hd]
      exact Nat.lt_succ_self _
  · rw [hclosed, List.filter_append, List.map_append]
    exact h.sent.trans (List.append_nil _).symm

/-- One turn of `clear` -/
theorem Owned.clear (h : Owned s ps) (hfirst : s.first = ps.head?) : Owned s.clear ps.tail := by
  unfold State.clear
  rw [hfirst]
  cases ps with
  | nil => exact h.congr (fun _ _ => rfl) (fun _ _ _ _ => rfl) rfl rfl rfl (Nat.le_refl _)
  | cons p ps =>
    simp only [List.head?_cons, List.tail_cons]
    cases hn : (s.messages p).descriptor with
    | none => exact (h.tail hn).congr (fun _ _ => rfl) (fun _ _ _ _ => rfl) rfl rfl rfl (Nat.le_refl _)
    | some n => exact h.release (c := .clear) hn (fun _ _ => rfl) rfl rfl (List.append_nil _).symm rfl

/-! ## Runs -/

/-- What holds of the queue between two steps. -/
structure Inv (s : State) (ps : List Nat) : Prop where
  queued : Queued s ps
  owned : Owned s ps
  flushed : ∀ r ∈ s.flushed, r.1 = false → r.2 = some .failed ∨ r.2 = some (.count 0)

/-- One turn of `flush` -/
theorem Inv.turn (h : Inv s ps) (hstage : s.stage = .flushing) (ht : Turn s t) : ∃ qs, Inv t qs := by
  have hno : s.stage ≠ .clearing := by
    rw [hstage]
    decide
  have hstages : (s.stage = .clearing) = False := eq_false hno
  have hfinish : ∀ result answer, Queued (s.finish result answer) ps := fun result answer =>
    h.queued.congr (by simp [State.finish, hstages]) rfl rfl rfl rfl rfl rfl rfl
  have hhead : ∀ {p}, s.first = some p → ∃ qs, ps = p :: qs := fun hp => by
    rw [h.queued.head] at hp
    obtain ⟨qs, hqs⟩ := List.head?_eq_some_iff.1 hp
    exact ⟨qs, hqs⟩
  cases ht with
  | done hp =>
    refine ⟨ps, hfinish _ _, h.owned.congr (fun _ _ => rfl) (fun _ _ _ _ => rfl) rfl rfl rfl (Nat.le_refl _), ?_⟩
    intro r hr
    rcases List.mem_append.1 hr with hr | hr
    · exact h.flushed r hr
    · rw [List.mem_singleton.1 hr]
      exact fun hfalse => by cases hfalse
  | @bytes p k hp =>
    refine ⟨ps, h.queued.change rfl, h.owned.congr ?_ (fun _ _ _ _ => rfl) rfl rfl rfl (Nat.le_refl _), h.flushed⟩
    intro q _
    simp only [Function.update_apply]
    split
    · next hq => rw [hq]
    · rfl
  | @descriptor p n hp hn =>
    obtain ⟨qs, rfl⟩ := hhead hp
    have hnotin : p ∉ qs := (List.nodup_cons.1 h.queued.holds.nodup).1
    have hchange := h.queued.change (p := p) (m := { s.messages p with descriptor := none }) rfl
    have howned : Owned (s.release p n) qs := by
      refine h.owned.release (c := .sent) hn ?_ rfl rfl rfl rfl
      intro q hq
      show (Function.update s.messages p _ q).descriptor = _
      rw [Function.update_of_ne (ne_of_mem_of_not_mem hq hnotin)]
    refine ⟨p :: qs, hchange.congr Iff.rfl rfl rfl rfl rfl rfl rfl rfl, howned.cons ?_, h.flushed⟩
    show (Function.update s.messages p _ p).descriptor = _
    rw [Function.update_self]
  | @remove p hp hn =>
    obtain ⟨qs, rfl⟩ := hhead hp
    exact ⟨qs, h.queued.remove hno,
      (h.owned.tail hn).congr (fun _ _ => rfl) (fun _ _ _ _ => rfl) rfl rfl rfl (Nat.le_refl _), h.flushed⟩
  | again hp => exact ⟨ps, h⟩
  | stop hp hint hanswer =>
    refine ⟨ps, hfinish _ _, h.owned.congr (fun _ _ => rfl) (fun _ _ _ _ => rfl) rfl rfl rfl (Nat.le_refl _), ?_⟩
    intro r hr
    rcases List.mem_append.1 hr with hr | hr
    · exact h.flushed r hr
    · rw [List.mem_singleton.1 hr]
      rcases hanswer with rfl | rfl | rfl
      · exact fun hfalse => by cases hfalse
      · exact fun _ => .inr rfl
      · exact fun _ => .inl rfl

/-- `append`, whatever it comes to -/
theorem Inv.append (h : Inv s ps) (hstage : s.stage = .idle) {data : Bytes} {descriptor copy memory : Option Nat}
    (ha : s.Answers descriptor copy memory) : ∃ qs, Inv (s.append data descriptor copy memory).2 qs := by
  obtain ⟨happended, hroom⟩ := append_appended (d := data) ha h.queued.bytes_le
  generalize s.append data descriptor copy memory = r at happended hroom
  cases happended with
  | refused => exact ⟨ps, h⟩
  | @plain p hp =>
    obtain ⟨hbytes, hcount⟩ := hroom rfl
    exact ⟨ps ++ [p], h.queued.push hstage hp hbytes hcount, h.owned.push (fun hm => hp (h.queued.mem.2 hm)) data,
      h.flushed⟩
  | @descriptor p n hp hn =>
    obtain ⟨hbytes, hcount⟩ := hroom rfl
    exact ⟨ps ++ [p], (h.queued.duplicate n).push hstage hp hbytes hcount,
      h.owned.pushDuplicate (fun hm => hp (h.queued.mem.2 hm)) hn data, h.flushed⟩
  | @memory n hn => exact ⟨ps, (h.queued.duplicate n).close (some n) .memory, h.owned.closeDuplicate hn, h.flushed⟩

theorem Inv.step {a : Action} (h : Inv s ps) (hs : step s a = some t) : ∃ qs, Inv t qs := by
  unfold Queue.step at hs
  cases a with
  | openNumber n =>
    simp only at hs
    split_ifs at hs with hn
    cases hs
    exact ⟨ps, h.queued.congr Iff.rfl rfl rfl rfl rfl rfl rfl rfl, h.owned.openNumber hn, h.flushed⟩
  | closeNumber n =>
    simp only at hs
    split_ifs at hs with hn
    cases hs
    exact ⟨ps, h.queued.congr Iff.rfl rfl rfl rfl rfl rfl rfl rfl, h.owned.closeNumber hn, h.flushed⟩
  | append data descriptor copy memory =>
    simp only at hs
    split_ifs at hs with hidle
    cases hs
    exact h.append hidle.1 hidle.2
  | enterFlush =>
    simp only at hs
    split_ifs at hs with hidle
    cases hs
    refine ⟨ps, h.queued.congr ?_ rfl rfl rfl rfl rfl rfl rfl,
      h.owned.congr (fun _ _ => rfl) (fun _ _ _ _ => rfl) rfl rfl rfl (Nat.le_refl _), h.flushed⟩
    simp [hidle]
  | flush answer =>
    simp only at hs
    split_ifs at hs with hflushing
    exact h.turn hflushing (flush_turn hs)
  | enterClear =>
    simp only at hs
    split_ifs at hs with hidle
    cases hs
    refine ⟨ps, ⟨h.queued.holds, h.queued.memory, ?_, ?_, ?_, h.queued.bytes_le, h.queued.count_le⟩,
      h.owned.congr (fun _ _ => rfl) (fun _ _ _ _ => rfl) rfl rfl rfl (Nat.le_refl _), h.flushed⟩
    all_goals exact fun hno => absurd rfl hno
  | clear =>
    simp only at hs
    split_ifs at hs with hclearing
    cases hs
    refine ⟨ps.tail, h.queued.clear hclearing, h.owned.clear h.queued.head, ?_⟩
    have hsame : s.clear.flushed = s.flushed := by
      unfold State.clear State.close
      split
      · rfl
      · split <;> rfl
    rw [hsame]
    exact h.flushed

/-- An `append` that returns `false` changes neither the queue nor what is open. -/
theorem append_false (hb : s.bytes ≤ maxBytes) {data : Bytes} {descriptor copy memory : Option Nat}
    (ha : s.Answers descriptor copy memory) (hfalse : (s.append data descriptor copy memory).1 = false) :
    ∃ files closed duplicates, (s.append data descriptor copy memory).2 = { s with files, closed, duplicates } ∧
      files.table = s.files.table := by
  obtain ⟨happended, -⟩ := append_appended (d := data) ha hb
  generalize s.append data descriptor copy memory = r at happended hfalse
  cases happended with
  | refused => exact ⟨s.files, s.closed, s.duplicates, rfl, rfl⟩
  | plain => cases hfalse
  | descriptor => cases hfalse
  | @memory n hn => exact ⟨_, _, _, rfl, duplicate_close_table hn⟩

/-- **The command queue keeps its bounds and its descriptors**, after any steps. There are messages `ps` which the links hold
and the memory is allocated for; unless `clear` goes on, the counters and `last` are those of `ps`, within their bounds. An
`append` that returns `false` leaves all of that and the open descriptors as they are. Every duplicate is held by one message
and not closed, or closed once; those that are closed in `flush` are those that were sent. And `flush` returns `false` only
behind an error, or when nothing was sent. -/
theorem command_queue_bounded {files : Descriptors} {messages : Nat → Message} {next : Nat → Option Nat}
    (h : Reach step Free (State.init files messages next) s) :
    ∃ ps : List Nat, Holds ⟨s.cell, lastLink .head ps⟩ ps ∧ s.allocated.Perm ps ∧
      (s.stage ≠ .clearing → s.bytes = (ps.map s.size).sum ∧ s.bytes ≤ maxBytes ∧ s.count = ps.length ∧
        s.count ≤ maxMessages ∧ s.last = ps.getLast?) ∧
      (∀ data descriptor copy memory, s.Answers descriptor copy memory →
        (s.append data descriptor copy memory).1 = false →
          ∃ files closed duplicates, (s.append data descriptor copy memory).2 = { s with files, closed, duplicates } ∧
            files.table = s.files.table) ∧
      (s.duplicates.Nodup ∧ (ps.filterMap s.held ++ s.closed.map Prod.fst).Perm s.duplicates ∧
        s.sent = (s.closed.filter fun c => c.2 = .sent).map Prod.fst) ∧
      ∀ r ∈ s.flushed, r.1 = false → r.2 = some .failed ∨ r.2 = some (.count 0) := by
  have hinv : ∃ ps, Inv s ps := by
    refine h.invariant (I := fun s => ∃ ps, Inv s ps) ?_ ?_
    · exact ⟨[], Queued.init files messages next, Owned.init files messages next, fun r hr => by cases hr⟩
    · rintro t a u ⟨ps, hps⟩ - hs
      exact hps.step hs
  obtain ⟨ps, hps⟩ := hinv
  refine ⟨ps, hps.queued.holds, hps.queued.memory, ?_, ?_, ⟨hps.owned.nodup, hps.owned.ledger, hps.owned.sent⟩,
    hps.flushed⟩
  · intro hno
    exact ⟨hps.queued.bytes hno, hps.queued.bytes_le, hps.queued.count hno, hps.queued.count_le, hps.queued.last hno⟩
  · intro data descriptor copy memory ha hfalse
    exact append_false hps.queued.bytes_le ha hfalse

/-- A process with one open descriptor -/
def oneFile : Descriptors where
  table n := if n = 3 then some 0 else none
  opened := 1
  lt := by
    intro n d h
    split_ifs at h
    cases h
    exact Nat.one_pos
  inj := by
    intro m n d hm hn
    split_ifs at hm hn with h₁ h₂
    rw [h₁, h₂]

/-- Two bytes and a descriptor are sent, with a signal and a full socket between them. -/
def sendOnce : List Action :=
  [.append [1, 2] (some 3) (some 4) (some 100), .enterFlush, .flush (.count 1), .flush .interrupted, .flush .again,
    .openNumber 5, .enterFlush, .flush (.count 1), .flush (.count 1), .flush .again, .flush .again]

theorem command_queue_bounded_sendOnce :
    ∃ s, exec step (State.init oneFile (fun _ => ⟨[], 0, none⟩) fun _ => none) sendOnce = some s ∧
      s.flushed = [(true, some .again), (true, none)] ∧ s.sent = [1] ∧ s.closed = [(1, .sent)] ∧
      ∃ ps : List Nat, s.allocated.Perm ps ∧ (ps.filterMap s.held ++ s.closed.map Prod.fst).Perm s.duplicates := by
  have hs : exec step (State.init oneFile (fun _ => ⟨[], 0, none⟩) fun _ => none) sendOnce = some _ := rfl
  obtain ⟨ps, -, hmemory, -, -, ⟨-, hledger, -⟩, -⟩ := command_queue_bounded (.of_exec sendOnce hs)
  exact ⟨_, hs, rfl, rfl, rfl, ps, hmemory, hledger⟩

end Lorie.Commands.Queue
