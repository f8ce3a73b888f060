import Lorie.Lib.Ledger
import Lorie.Resources.Suspend
import Mathlib.Data.Fintype.Basic

/-!
# Descriptors of the resource channels

Every descriptor that a channel receives is in the slot of its client until it is closed or handed out; what is handed
out is owned by `ShmAttachMemory` and by the segment.

- `Channel.held_progress`, `Channel.held_lorieResourcesShm`: what a call adds is what it closes, hands out and keeps;
- `Channel.Matched`: the answer in the slot is the answer to the request in the slot;
- `Ledger`: the descriptors of the whole server, as one equation for each;
- `descriptors_owned_once`: the results for every run.
-/

namespace Lorie.Resources

open Lorie.Lib

namespace Channel

variable {r : Channel}

/-! ## The slot -/

/-- How often a channel holds a descriptor: as its endpoint, or in the slot. -/
def held (r : Channel) (d : Fd) : Nat := r.fd.toList.count d + r.rights.count d

/-- Descriptors are in the slot only behind a successful answer; a slot that is ready has no deadline. -/
structure Slot (r : Channel) : Prop where
  empty : r.ready = false → r.rights = []
  error : r.ready = true → r.reply.error ≠ 0 → r.rights = []
  full : r.ready = true → r.reply.error = 0 → r.rights.length = 2
  timer : r.ready = true → r.timer ≠ some true

theorem Slot.new (fd : Fd) : (Channel.new fd).Slot :=
  ⟨fun _ => rfl, nofun, nofun, nofun⟩

theorem Slot.fail {error : Int} (h0 : error ≠ 0) : (r.finish error).1.Slot := by
  unfold Channel.finish
  dsimp only
  rw [if_pos h0]
  refine ⟨nofun, fun _ _ => rfl, fun _ h => absurd h h0, fun _ => ?_⟩
  show (r.timer.map fun _ => false) ≠ some true
  cases r.timer <;> simp

/-- Finishing with an answer. -/
theorem Slot.done (herror : r.reply.error ≠ 0 → r.rights = []) (hfull : r.reply.error = 0 → r.rights.length = 2) :
    (r.finish 0).1.Slot := by
  refine ⟨nofun, fun _ => herror, fun _ => hfull, fun _ => ?_⟩
  show (r.timer.map fun _ => false) ≠ some true
  cases r.timer <;> simp

/-- The descriptors of an accepted answer. -/
theorem accepted_fds {p : Packet} (h : p.accepted = true) (next : Nat) :
    (p.reply.error ≠ 0 → (receive p replySize next).fds = []) ∧
      (p.reply.error = 0 → (receive p replySize next).fds.length = 2) := by
  unfold Packet.accepted at h
  simp only [Bool.and_eq_true, Bool.not_eq_true'] at h
  obtain ⟨hm, hv⟩ := h
  have hlen := receive_fds_length hm next
  unfold Reply.valid at hv
  constructor
  · intro he
    rw [if_pos he] at hv
    apply List.eq_nil_of_length_eq_zero
    rw [hlen]
    by_contra hne
    simp [hne] at hv
  · intro he
    rw [if_neg (by simpa using he)] at hv
    rw [hlen]
    by_contra hne
    simp [hne] at hv

theorem Slot.hear (h : r.Slot) {errno : Option Int} (he : ∀ e ∈ errno, 0 < e) (next : Nat) (hready : r.ready = false) :
    (r.hear errno next).1.Slot := by
  unfold Channel.hear
  split
  · rename_i e
    have hpos := he e rfl
    dsimp only
    split
    · refine ⟨fun _ => rfl, fun _ _ => rfl, fun hr => ?_, h.timer⟩
      rw [show r.ready = true from hr] at hready
      cases hready
    · exact .fail (by omega)
  · dsimp only
    rw [hear_error]
    split
    · rename_i ha
      obtain ⟨herror, hfull⟩ := accepted_fds ha next
      exact .done herror hfull
    · exact .fail (by decide)

theorem Slot.progress (h : r.Slot) (hready : r.ready = false) (send : Send) (setNotifyFd : Bool) {errno : Option Int}
    (he : ∀ e ∈ errno, 0 < e) (next : Nat) : (r.progress send setNotifyFd errno next).1.Slot := by
  unfold Channel.progress
  split
  · exact h.hear he next hready
  split
  · exact h
  · exact .fail (by decide)
  · dsimp only
    split
    · apply Slot.hear
      · exact ⟨h.empty, h.error, h.full, h.timer⟩
      · exact he
      · exact hready
    · exact .fail (by decide)

theorem Slot.lorieResourcesShm (h : r.Slot) (id : Nat) (readonly timerSet setNotifyFd : Bool) :
    (r.lorieResourcesShm id readonly timerSet setNotifyFd).2.1.Slot := by
  unfold Channel.lorieResourcesShm
  split
  · rename_i hr
    dsimp only
    split
    · exact ⟨fun _ => rfl, nofun, nofun, nofun⟩
    split
    · rename_i he
      exact ⟨fun _ => h.error hr he, nofun, nofun, nofun⟩
    · exact ⟨fun _ => rfl, nofun, nofun, nofun⟩
  · rename_i hr
    have hr : r.ready = false := by simpa using hr
    have hready : ∀ {P : Prop}, r.ready = true → P := fun h => by
      rw [h] at hr
      cases hr
    split
    · exact h
    split
    · exact h
    · dsimp only
      split
      · exact ⟨h.empty, h.error, h.full, fun h' => hready h'⟩
      · exact ⟨h.empty, h.error, h.full, fun h' => hready h'⟩

/-! ## What a call closes, hands out and keeps -/

theorem held_finish (r : Channel) (error : Int) (d : Fd) :
    (r.finish error).1.held d + (r.finish error).2.count d = r.held d := by
  unfold Channel.finish Channel.held
  dsimp only
  split
  · simp [Channel.disconnect]
  · simp

/-- Every descriptor of a packet is given to the caller or closed. -/
theorem receive_count (p : Packet) (size next : Nat) (d : Fd) :
    (receive p size next).fds.count d + (receive p size next).closed.count d =
      (List.range' next p.descriptors).count d := by
  unfold receive
  split <;> simp

theorem held_hear (hempty : r.rights = []) (errno : Option Int) (next : Nat) (d : Fd) :
    ∃ k, (r.hear errno next).2.2 = next + k ∧
      (r.hear errno next).1.held d + (r.hear errno next).2.1.count d = r.held d + (List.range' next k).count d := by
  unfold Channel.hear
  split
  · have hsame : ({ r with rights := [] } : Channel) = r := by rw [← hempty]
    refine ⟨0, ?_⟩
    dsimp only
    rw [hsame]
    split
    · exact ⟨rfl, by simp⟩
    · exact ⟨rfl, by rw [held_finish]; simp⟩
  · refine ⟨r.nextPacket.descriptors, rfl, ?_⟩
    dsimp only
    have hr := receive_count r.nextPacket replySize next d
    have hf := held_finish { r with
      packets := r.packets.tail
      heard := r.heard + 1
      replyTo := r.packets.head?.map Prod.fst
      reply := r.nextPacket.reply
      rights := (receive r.nextPacket replySize next).fds }
      (if (receive r.nextPacket replySize next).error = 0 ∧
        !r.nextPacket.reply.valid (receive r.nextPacket replySize next).fds.length then -eproto
        else (receive r.nextPacket replySize next).error) d
    have hheld : r.held d = r.fd.toList.count d := by rw [Channel.held, hempty, List.count_nil, Nat.add_zero]
    rw [List.count_append]
    unfold Channel.held at hf hheld ⊢
    dsimp only at hf
    omega

/-- What `progress` receives is what it closes and keeps. -/
theorem held_progress (hempty : r.rights = []) (send : Send) (setNotifyFd : Bool) (errno : Option Int) (next : Nat)
    (d : Fd) : ∃ k, (r.progress send setNotifyFd errno next).2.2 = next + k ∧
      (r.progress send setNotifyFd errno next).1.held d + (r.progress send setNotifyFd errno next).2.1.count d =
        r.held d + (List.range' next k).count d := by
  unfold Channel.progress
  split
  · exact held_hear hempty errno next d
  split
  · exact ⟨0, rfl, by simp⟩
  · exact ⟨0, rfl, by dsimp only; rw [held_finish]; simp⟩
  · dsimp only
    split
    · exact held_hear (r := { r with
        sent := true, requests := r.requests ++ [r.request], watch := some .read }) hempty errno next d
    · exact ⟨0, rfl, by dsimp only; rw [held_finish]; rfl⟩

/-- What `lorieResourcesShm` finds is what it hands out, closes and keeps. -/
theorem held_lorieResourcesShm (r : Channel) (id : Nat) (readonly timerSet setNotifyFd : Bool) (d : Fd) :
    let result := r.lorieResourcesShm id readonly timerSet setNotifyFd
    result.2.1.held d + result.2.2.count d + result.1.fds.count d = r.held d := by
  intro result
  subst result
  unfold Channel.lorieResourcesShm
  split
  · dsimp only
    split
    · simp [Channel.held, Channel.disconnect]
    split
    · simp [Channel.held]
    · simp [Channel.held]
  · split
    · simp [Channel.held]
    split
    · simp [Channel.held]
    · dsimp only
      split
      · simp [Channel.held, Channel.disconnect]
        omega
      · simp [Channel.held]

/-! ## Requests and answers -/

/-- The request is sent and awaited. -/
def Awaiting (r : Channel) : Prop := r.pending = true ∧ r.ready = false ∧ r.sent = true

/-- The requests and answers of a channel: only the last request may be without an answer, and the answer in the slot
is that of the request in the slot. -/
structure Matched (r : Channel) : Prop where
  sent : r.requests.length ≤ r.heard + 1
  last : r.Awaiting → r.requests.getLast? = some r.request ∧ r.requests.length = r.heard + 1
  earlier : r.Awaiting → ∀ k, k + 1 < r.requests.length → k ∈ r.answered
  packets : r.Awaiting → r.packets = [] ∨ ∃ k p, r.packets = [(k, p)] ∧ k + 1 = r.requests.length ∧ k ∈ r.answered
  idle : r.fd.isSome = true → ¬r.Awaiting →
    r.requests.length = r.heard ∧ r.packets = [] ∧ ∀ k < r.requests.length, k ∈ r.answered
  slot : r.ready = true → r.reply.error = 0 → ∃ k, r.replyTo = some k ∧ r.requests[k]? = some r.request

theorem Matched.new (fd : Fd) : (Channel.new fd).Matched where
  sent := Nat.zero_le _
  last := nofun
  earlier := nofun
  packets := nofun
  idle _ _ := ⟨rfl, rfl, nofun⟩
  slot := nofun

theorem not_awaiting_of_ready (h : r.ready = true) : ¬r.Awaiting := by
  rintro ⟨-, hr, -⟩
  rw [h] at hr
  cases hr

/-- Finishing with an error closes the channel. -/
theorem Matched.fail (hsent : r.requests.length ≤ r.heard + 1) {error : Int} (h0 : error ≠ 0) :
    (r.finish error).1.Matched := by
  unfold Channel.finish
  dsimp only
  rw [if_pos h0]
  exact {
    sent := hsent
    last := fun h => absurd h (not_awaiting_of_ready rfl)
    earlier := fun h => absurd h (not_awaiting_of_ready rfl)
    packets := fun h => absurd h (not_awaiting_of_ready rfl)
    idle := nofun
    slot := fun _ h => absurd h h0 }

/-- The answer to the last request is received. -/
theorem Matched.hear (h : r.Matched) (hw : r.Awaiting) {errno : Option Int} (he : ∀ e ∈ errno, 0 < e) (next : Nat) :
    (r.hear errno next).1.Matched := by
  unfold Channel.hear
  split
  · rename_i e
    have hpos := he e rfl
    dsimp only
    split
    · exact ⟨h.sent, h.last, h.earlier, h.packets, h.idle, h.slot⟩
    · apply Matched.fail
      · exact h.sent
      · omega
  · obtain ⟨hlast, hlen⟩ := h.last hw
    dsimp only
    rw [hear_error]
    split
    · rename_i ha
      rcases h.packets hw with hp | ⟨k, p, hp, hk, hmem⟩
      · -- the end of the stream is not accepted
        have heof : r.nextPacket = .eof := by simp only [Channel.nextPacket, hp]
        rw [heof, eof_not_accepted] at ha
        cases ha
      · have hall : ∀ j < r.requests.length, j ∈ r.answered := by
          intro j hj
          by_cases hj' : j + 1 < r.requests.length
          · exact h.earlier hw j hj'
          · have : j = k := by omega
            rw [this]
            exact hmem
        have hget : r.requests[k]? = some r.request := by
          rw [List.getLast?_eq_getElem?] at hlast
          rw [← hlast]
          congr 1
          omega
        refine {
          sent := by show r.requests.length ≤ r.heard + 1 + 1; omega
          last := fun h => absurd h (not_awaiting_of_ready rfl)
          earlier := fun h => absurd h (not_awaiting_of_ready rfl)
          packets := fun h => absurd h (not_awaiting_of_ready rfl)
          idle := fun _ _ => ⟨hlen, ?_, hall⟩
          slot := fun _ _ => ⟨k, ?_, hget⟩ }
        · show r.packets.tail = []
          rw [hp]
          rfl
        · show r.packets.head?.map Prod.fst = some k
          rw [hp]
          rfl
    · exact .fail (by show r.requests.length ≤ r.heard + 1 + 1; omega) (by decide)

theorem Matched.progress (h : r.Matched) (hwaits : r.Waits) (hw : r.watch.isSome) (send : Send) (setNotifyFd : Bool)
    {errno : Option Int} (he : ∀ e ∈ errno, 0 < e) (next : Nat) : (r.progress send setNotifyFd errno next).1.Matched := by
  obtain ⟨hp, hr⟩ := hwaits.watched hw
  obtain ⟨-, -, -, hfd, -⟩ := hwaits.outstanding hp hr
  unfold Channel.progress
  split
  · rename_i hs
    exact h.hear ⟨hp, hr, hs⟩ he next
  · rename_i hs
    obtain ⟨hlen, hpackets, hall⟩ := h.idle hfd fun ha => hs ha.2.2
    split
    · exact h
    · exact .fail h.sent (by decide)
    · have hsent : (r.requests ++ [r.request]).length ≤ r.heard + 1 := by
        rw [List.length_append, List.length_singleton, hlen]
      dsimp only
      split
      · apply Matched.hear
        · exact {
            sent := hsent
            last := fun _ => ⟨by simp, by rw [List.length_append, hlen]; rfl⟩
            earlier := fun _ k hk => hall k (by rw [List.length_append, List.length_singleton] at hk; omega)
            packets := fun _ => .inl hpackets
            idle := fun _ hn => absurd ⟨hp, hr, rfl⟩ hn
            slot := fun hr' => by
              rw [show r.ready = true from hr'] at hr
              cases hr }
        · exact ⟨hp, hr, rfl⟩
        · exact he
      · exact .fail hsent (by decide)

theorem Matched.lorieResourcesShm (h : r.Matched) (id : Nat) (readonly timerSet setNotifyFd : Bool) :
    (r.lorieResourcesShm id readonly timerSet setNotifyFd).2.1.Matched := by
  unfold Channel.lorieResourcesShm
  split
  · rename_i hr
    have hidle := fun hfd => h.idle hfd (not_awaiting_of_ready hr)
    dsimp only
    split
    · exact ⟨h.sent, nofun, nofun, nofun, nofun, nofun⟩
    split
    · exact ⟨h.sent, nofun, nofun, nofun, fun hfd _ => hidle hfd, nofun⟩
    · exact ⟨h.sent, nofun, nofun, nofun, fun hfd _ => hidle hfd, nofun⟩
  · rename_i hr
    have hr : r.ready = false := by simpa using hr
    split
    · exact h
    split
    · exact h
    · rename_i hp
      have hslot : ∀ {P : Prop}, r.ready = true → P := fun h => by
        rw [h] at hr
        cases hr
      have hidle := fun hfd => h.idle hfd fun ha => hp ha.1
      dsimp only
      split
      · exact ⟨h.sent, fun ha => absurd ha.1 hp, fun ha => absurd ha.1 hp, fun ha => absurd ha.1 hp, nofun,
          fun h => hslot h⟩
      · exact ⟨h.sent, nofun, nofun, nofun, fun hfd _ => hidle hfd, fun h => hslot h⟩

/-- The issuer answers a request that it did not answer yet: the last one. -/
theorem Matched.issue (h : r.Matched) (hfd : r.fd.isSome) {k : Nat} (p : Packet) (hk : k < r.requests.length)
    (hnew : k ∉ r.answered) :
    Matched { r with packets := r.packets ++ [(k, p)], answered := r.answered ++ [k] } := by
  have hw : r.Awaiting := by
    by_contra hw
    exact hnew ((h.idle hfd hw).2.2 k hk)
  have hlast : k + 1 = r.requests.length := by
    by_contra hne
    exact hnew (h.earlier hw k (by omega))
  have hempty : r.packets = [] := by
    rcases h.packets hw with hp | ⟨j, q, hp, hj, hmem⟩
    · exact hp
    · have : j = k := by omega
      rw [this] at hmem
      exact absurd hmem hnew
  exact {
    sent := h.sent
    last := h.last
    earlier := fun hw j hj => List.mem_append_left _ (h.earlier hw j hj)
    packets := fun _ => .inr ⟨k, p, by rw [hempty]; rfl, hlast, List.mem_append_right _ List.mem_cons_self⟩
    idle := fun _ hn => absurd hw hn
    slot := h.slot }

/-- The requests that were made and not answered. -/
def outstanding (r : Channel) : Nat :=
  (r.requests.length - r.heard) + if r.pending && !r.ready && !r.sent then 1 else 0

theorem outstanding_le_one (h : r.Matched) (hwaits : r.Waits) : r.outstanding ≤ 1 := by
  have hsent := h.sent
  unfold outstanding
  split
  · rename_i hq
    simp only [Bool.and_eq_true, Bool.not_eq_true'] at hq
    obtain ⟨⟨hp, hr⟩, hs⟩ := hq
    obtain ⟨-, -, -, hfd, -⟩ := hwaits.outstanding hp hr
    obtain ⟨hlen, -⟩ := h.idle hfd fun ha => by
      rw [ha.2.2] at hs
      cases hs
    omega
  · omega

/-- A result without an error has two descriptors, those of the answer to the same request; any other has none. -/
theorem shm_result (hslot : r.Slot) (hmatched : r.Matched) (id : Nat) (readonly timerSet setNotifyFd : Bool) :
    let result := r.lorieResourcesShm id readonly timerSet setNotifyFd
    (result.1.error ≠ 0 ∧ result.1.fds = []) ∨
    (result.1.error = 0 ∧ (∃ backing lease, result.1.fds = [backing, lease]) ∧
      ∃ k, result.2.1.replyTo = some k ∧ result.2.1.requests[k]? = some ⟨id, readonly⟩) := by
  intro result
  subst result
  unfold Channel.lorieResourcesShm
  split
  · rename_i hr
    dsimp only
    split
    · exact .inl ⟨show -eproto ≠ 0 by decide, rfl⟩
    · rename_i hreq
      have hreq : r.request = ⟨id, readonly⟩ := by simpa using hreq
      split
      · rename_i he
        exact .inl ⟨he, rfl⟩
      · rename_i he
        have he : r.reply.error = 0 := by simpa using he
        refine .inr ⟨rfl, List.length_eq_two.1 (hslot.full hr he), ?_⟩
        rw [← hreq]
        exact hmatched.slot hr he
  · split
    · exact .inl ⟨show -epipe ≠ 0 by decide, rfl⟩
    split
    · exact .inl ⟨show -eagain ≠ 0 by decide, rfl⟩
    · dsimp only
      split
      · exact .inl ⟨show -enomem ≠ 0 by decide, rfl⟩
      · exact .inl ⟨show -eagain ≠ 0 by decide, rfl⟩

end Channel

/-! ## Channels of a run -/

/-- What holds of every channel in every run. -/
structure Channel.Inv (r : Channel) : Prop where
  waits : r.Waits
  slot : r.Slot
  matched : r.Matched

theorem step_channel_inv {n : Nat} {s t : State n} {a : Action n} (hs : AllChannels Channel.Inv s)
    (ht : s.step a = some t) : AllChannels Channel.Inv t := by
  apply step_channels (fun fd => ⟨.new fd, .new fd, .new fd⟩) _ _ _ _ hs ht
  · intro r id readonly timerSet setNotifyFd hr
    exact ⟨hr.waits.lorieResourcesShm id readonly timerSet setNotifyFd,
      hr.slot.lorieResourcesShm id readonly timerSet setNotifyFd,
      hr.matched.lorieResourcesShm id readonly timerSet setNotifyFd⟩
  · intro r send setNotifyFd errno next hr hw he
    have hready := (hr.waits.watched hw).2
    exact ⟨hr.waits.progress hw send setNotifyFd errno next, hr.slot.progress hready send setNotifyFd he next,
      hr.matched.progress hr.waits hw send setNotifyFd he next⟩
  · intro r hr _
    exact ⟨.finish r _, .fail (by decide), .fail hr.matched.sent (by decide)⟩
  · intro r i request p _ hr hfd hlt hnew
    exact ⟨⟨hr.waits.watched, hr.waits.outstanding⟩, ⟨hr.slot.empty, hr.slot.error, hr.slot.full, hr.slot.timer⟩,
      hr.matched.issue hfd p hlt hnew⟩

/-! ## The ledger -/

/-- How often a client holds a descriptor. -/
def clientHeld (d : Fd) : Option Client → Nat
  | some client => (client.channel.map fun r => r.held d).getD 0
  | none => 0

namespace State

variable {n : Nat}

def backings (s : State n) : List Fd := s.handed.map (·.backing)

def leases (s : State n) : List Fd := s.handed.map (·.lease)

/-- The leases that segments keep. -/
def segmentLeases (s : State n) : List Fd := s.segments.filterMap (·.lease)

/-- Where the descriptors of the server are. -/
structure Ledger (s : State n) : Prop where
  /-- Every descriptor was closed by a channel, handed out, passed by a client, or is held, once. -/
  owned : ∀ d : Nat, s.closed.count d + (s.backings.count d + s.leases.count d) + s.direct.count d +
    tally (clientHeld d) s.clients = if d < s.next then 1 else 0
  /-- What was handed out or passed was closed or is the lease of a segment, once. -/
  mapped : ∀ d, s.shmClosed.count d + s.segmentLeases.count d = s.backings.count d + s.leases.count d + s.direct.count d
  /-- Backing descriptors are closed. -/
  backing : ∀ d, s.backings.count d + s.direct.count d ≤ s.shmClosed.count d

theorem Ledger.init (n : Nat) : (State.init n).Ledger where
  owned d := by
    have h : tally (clientHeld d) (State.init n).clients = 0 := tally_eq_zero fun _ => rfl
    rw [h]
    rfl
  mapped _ := rfl
  backing _ := Nat.le_refl _

/-- Descriptors are installed; they are held by clients or closed. -/
theorem Ledger.flow {s t : State n} (h : s.Ledger) {k : Nat} (hnext : t.next = s.next + k)
    (hhanded : t.handed = s.handed) (hdirect : t.direct = s.direct) (hsegments : t.segments = s.segments)
    (hshm : t.shmClosed = s.shmClosed)
    (hcount : ∀ d : Nat, t.closed.count d + tally (clientHeld d) t.clients =
      s.closed.count d + tally (clientHeld d) s.clients + (List.range' s.next k).count d) : t.Ledger := by
  have hb : t.backings = s.backings := by unfold backings; rw [hhanded]
  have hl : t.leases = s.leases := by unfold leases; rw [hhanded]
  have hsl : t.segmentLeases = s.segmentLeases := by unfold segmentLeases; rw [hsegments]
  constructor
  · intro d
    have howned := h.owned d
    have hc := hcount d
    rw [count_range'] at hc
    rw [hb, hl, hdirect, hnext]
    split at howned <;> split at hc <;> split <;> omega
  · rw [hb, hl, hsl, hdirect, hshm]
    exact h.mapped
  · rw [hb, hdirect, hshm]
    exact h.backing

/-- Descriptors are installed, and one client changes. -/
theorem Ledger.update {s t : State n} (h : s.Ledger) {i : Fin n} {client : Option Client} {k : Nat}
    (hclients : t.clients = Function.update s.clients i client) (hnext : t.next = s.next + k)
    (hhanded : t.handed = s.handed) (hdirect : t.direct = s.direct) (hsegments : t.segments = s.segments)
    (hshm : t.shmClosed = s.shmClosed)
    (hcount : ∀ d : Nat, t.closed.count d + clientHeld d client =
      s.closed.count d + clientHeld d (s.clients i) + (List.range' s.next k).count d) : t.Ledger := by
  refine h.flow hnext hhanded hdirect hsegments hshm fun d => ?_
  have htally := tally_update (clientHeld d) s.clients i client
  have hc := hcount d
  rw [← hclients] at htally
  omega

/-- Nothing of it changes. -/
theorem Ledger.congr {s t : State n} (h : s.Ledger) (hclients : t.clients = s.clients) (hnext : t.next = s.next)
    (hclosed : t.closed = s.closed) (hhanded : t.handed = s.handed) (hdirect : t.direct = s.direct)
    (hsegments : t.segmentLeases = s.segmentLeases) (hshm : t.shmClosed = s.shmClosed) : t.Ledger := by
  have hb : t.backings = s.backings := by unfold backings; rw [hhanded]
  have hl : t.leases = s.leases := by unfold leases; rw [hhanded]
  constructor
  · rw [hclients, hb, hl, hdirect, hnext, hclosed]
    exact h.owned
  · rw [hb, hl, hsegments, hdirect, hshm]
    exact h.mapped
  · rw [hb, hdirect, hshm]
    exact h.backing

/-- `ShmAttachMemory` closes the backing descriptor; it closes the lease, or a segment keeps it. -/
theorem shmAttachMemory_count (s : State n) (resource : Nat) (fd : Fd) (lease : Option Fd) (size : Nat) (env : Attach)
    (d : Fd) :
    let t := s.shmAttachMemory resource fd lease size env
    t.shmClosed.count d + t.segmentLeases.count d =
      s.shmClosed.count d + s.segmentLeases.count d + [fd].count d + lease.toList.count d ∧
    s.shmClosed.count d + [fd].count d ≤ t.shmClosed.count d := by
  intro t
  have hfailed : t = { s with shmClosed := s.shmClosed ++ fd :: lease.toList } ∨
      t = { s with shmClosed := s.shmClosed ++ [fd], segments := ⟨resource, 1, lease⟩ :: s.segments } := by
    simp only [t, shmAttachMemory]
    repeat' split
    all_goals first | exact .inl rfl | exact .inr rfl
  rcases hfailed with ht | ht
  · rw [ht]
    simp only [segmentLeases, List.count_append, List.count_cons, List.count_nil]
    constructor <;> omega
  · rw [ht]
    simp only [segmentLeases, List.count_append, List.filterMap_cons]
    cases lease with
    | none =>
      simp only [Option.toList_none, List.count_nil]
      constructor <;> omega
    | some l =>
      simp only [Option.toList_some, List.count_cons, List.count_nil]
      constructor <;> omega

/-- The rest of the state is not touched. -/
theorem shmAttachMemory_frame (s : State n) (resource : Nat) (fd : Fd) (lease : Option Fd) (size : Nat) (env : Attach) :
    let t := s.shmAttachMemory resource fd lease size env
    t.next = s.next ∧ t.closed = s.closed ∧ t.handed = s.handed ∧ t.direct = s.direct ∧ t.connects = s.connects ∧
      t.channelClients = s.channelClients ∧ t.native = s.native := by
  intro t
  simp only [t, shmAttachMemory]
  repeat' split
  all_goals exact ⟨rfl, rfl, rfl, rfl, rfl, rfl, rfl⟩

/-- Descriptors that the state does not own yet are passed to `ShmAttachMemory`: the first is handed out or passed by a
client, and so is the lease. -/
theorem Ledger.attach {s : State n} {resource size : Nat} {fd : Fd} {lease : Option Fd} {env : Attach}
    (howned : ∀ d : Nat, s.closed.count d + (s.backings.count d + s.leases.count d) + s.direct.count d +
      tally (clientHeld d) s.clients = if d < s.next then 1 else 0)
    (hmapped : ∀ d, s.shmClosed.count d + s.segmentLeases.count d + [fd].count d + lease.toList.count d =
      s.backings.count d + s.leases.count d + s.direct.count d)
    (hbacking : ∀ d, s.backings.count d + s.direct.count d ≤ s.shmClosed.count d + [fd].count d) :
    (s.shmAttachMemory resource fd lease size env).Ledger := by
  obtain ⟨hnext, hclosed, hhanded, hdirect, -⟩ := s.shmAttachMemory_frame resource fd lease size env
  have hclients := shmAttachMemory_clients s resource fd lease size env
  have hcount := fun d => s.shmAttachMemory_count resource fd lease size env d
  generalize s.shmAttachMemory resource fd lease size env = t at *
  have hb : t.backings = s.backings := by unfold backings; rw [hhanded]
  have hl : t.leases = s.leases := by unfold leases; rw [hhanded]
  constructor
  · rw [hclients, hb, hl, hdirect, hnext, hclosed]
    exact howned
  · intro d
    obtain ⟨h₁, h₂⟩ := hcount d
    have := hmapped d
    rw [hb, hl, hdirect]
    omega
  · intro d
    obtain ⟨h₁, h₂⟩ := hcount d
    have := hbacking d
    rw [hb, hdirect]
    omega

/-- A segment and the others. -/
theorem segments_split {l : List Segment} {k : Nat} {seg : Segment} (h : l[k]? = some seg) :
    l = l.take k ++ seg :: l.drop (k + 1) := by
  obtain ⟨hk, hget⟩ := List.getElem?_eq_some_iff.1 h
  rw [← hget, ← List.drop_eq_getElem_cons hk, List.take_append_drop]

/-- The references of a segment do not matter. -/
theorem segmentLeases_set {s : State n} {k : Nat} {seg : Segment} (h : s.segments[k]? = some seg) (refcnt : Nat) :
    (s.segments.set k { seg with refcnt := refcnt }).filterMap (·.lease) = s.segments.filterMap (·.lease) := by
  obtain ⟨hk, -⟩ := List.getElem?_eq_some_iff.1 h
  rw [List.set_eq_take_append_cons_drop, if_pos hk]
  conv_rhs => rw [segments_split h]
  simp only [List.filterMap_append, List.filterMap_cons]

/-- `ShmDetachSegment` closes the lease with the last reference. -/
theorem Ledger.detach {s : State n} (h : s.Ledger) (k : Nat) : (s.shmDetachSegment k).Ledger := by
  unfold shmDetachSegment
  split
  · exact h
  rename_i seg hseg
  split
  · exact h.congr rfl rfl rfl rfl rfl (segmentLeases_set hseg _) rfl
  · have hcount : ∀ d, s.segmentLeases.count d =
        ((s.segments.eraseIdx k).filterMap (·.lease)).count d + seg.lease.toList.count d := by
      intro d
      unfold segmentLeases
      conv_lhs => rw [segments_split hseg]
      rw [List.eraseIdx_eq_take_drop_succ]
      simp only [List.filterMap_append, List.filterMap_cons, List.count_append]
      cases seg.lease with
      | none =>
        simp only [Option.toList_none, List.count_nil]
        omega
      | some l =>
        simp only [Option.toList_some, List.count_cons, List.count_nil]
        omega
    constructor
    · exact h.owned
    · intro d
      have hm := h.mapped d
      have hc := hcount d
      show (s.shmClosed ++ seg.lease.toList).count d + ((s.segments.eraseIdx k).filterMap (·.lease)).count d =
        s.backings.count d + s.leases.count d + s.direct.count d
      rw [List.count_append]
      omega
    · intro d
      have hb := h.backing d
      show s.backings.count d + s.direct.count d ≤ (s.shmClosed ++ seg.lease.toList).count d
      rw [List.count_append]
      omega

/-- What `ProcShmAttach` comes to: the channel of the client changes, and what it hands out is mapped. -/
theorem procShmAttach_cases {s : State n} (hinv : AllChannels Channel.Inv s) {i : Fin n} {client : Client} {r : Channel}
    (hc : s.clients i = some client) (hr : client.channel = some r) (resource id : Nat)
    (readonly timerSet setNotifyFd : Bool) (env : Attach) :
    ∃ (r' : Channel) (closed fds : List Fd) (ignored : Bool) (t : State n),
      (∀ d, r'.held d + closed.count d + fds.count d = r.held d) ∧
      t = { s with
        clients := Function.update s.clients i (some { client with channel := some r', ignored := ignored })
        closed := s.closed ++ closed } ∧
      ((fds = [] ∧ s.procShmAttach i resource id readonly timerSet setNotifyFd env = t) ∨
        ∃ backing lease size, fds = [backing, lease] ∧
          s.procShmAttach i resource id readonly timerSet setNotifyFd env =
            State.shmAttachMemory { t with handed := t.handed ++ [⟨⟨id, readonly⟩, backing, lease, some ⟨id, readonly⟩⟩] }
              resource backing (some lease) size env) := by
  have hcr := hinv.client hc hr
  have hheld := fun d => r.held_lorieResourcesShm id readonly timerSet setNotifyFd d
  have hresult := r.shm_result hcr.slot hcr.matched id readonly timerSet setNotifyFd
  simp only [State.procShmAttach, hc, hr]
  generalize r.lorieResourcesShm id readonly timerSet setNotifyFd = call at *
  obtain ⟨result, r', closed⟩ := call
  dsimp only at hheld hresult ⊢
  rcases hresult with ⟨herror, hfds⟩ | ⟨herror, ⟨backing, lease, hfds⟩, k, hk, hget⟩
  · by_cases hagain : result.error = -eagain
    · refine ⟨r', closed, [], true, _, ?_, rfl, .inl ⟨rfl, ?_⟩⟩
      · rw [← hfds]
        exact hheld
      · simp only [hagain, if_true, Function.update_idem]
    · refine ⟨r', closed, [], client.ignored, _, ?_, rfl, .inl ⟨rfl, ?_⟩⟩
      · rw [← hfds]
        exact hheld
      · rw [if_neg hagain, if_pos herror]
  · refine ⟨r', closed, _, client.ignored, _, hheld, rfl, .inr ⟨backing, lease, result.size, hfds, ?_⟩⟩
    have hagain : ¬(0 : Int) = -eagain := by decide
    simp only [herror, hagain, if_false, ne_eq, not_true_eq_false, hfds, hk, Option.bind_some, hget]

/-- A client asks for a segment. -/
theorem Ledger.procShmAttach {s : State n} (h : s.Ledger) (hinv : AllChannels Channel.Inv s) (i : Fin n)
    (resource id : Nat) (readonly timerSet setNotifyFd : Bool) (env : Attach) :
    (s.procShmAttach i resource id readonly timerSet setNotifyFd env).Ledger := by
  cases hc : s.clients i with
  | none =>
    simp only [State.procShmAttach, hc]
    exact h
  | some client =>
    cases hr : client.channel with
    | none =>
      simp only [State.procShmAttach, hc, hr]
      exact h.congr rfl rfl rfl rfl rfl rfl rfl
    | some r =>
      have hold : ∀ d, clientHeld d (s.clients i) = r.held d := by
        intro d
        simp only [clientHeld, hc, hr]
        rfl
      obtain ⟨r', closed, fds, ignored, t, hheld, ht, hcase⟩ :=
        procShmAttach_cases hinv hc hr resource id readonly timerSet setNotifyFd env
      have htally : ∀ d, tally (clientHeld d) t.clients + r.held d = tally (clientHeld d) s.clients + r'.held d := by
        intro d
        have htu := tally_update (clientHeld d) s.clients i (some { client with channel := some r', ignored := ignored })
        rw [hold d] at htu
        rw [ht]
        exact htu
      rcases hcase with ⟨hfds, heq⟩ | ⟨backing, lease, size, hfds, heq⟩
      · rw [heq]
        apply h.update (k := 0) (by rw [ht]) <;> try rw [ht]
        · rfl
        · intro d
          have := hheld d
          rw [hfds] at this
          rw [hold d]
          show (s.closed ++ closed).count d + r'.held d = _
          simp only [List.count_append, List.range'_zero, List.count_nil] at this ⊢
          omega
      · rw [heq]
        have hcounts : ∀ d, r'.held d + closed.count d + [backing, lease].count d = r.held d := by
          rw [← hfds]
          exact hheld
        obtain ⟨u, hu⟩ : ∃ u : State n, u =
          { t with handed := t.handed ++ [⟨⟨id, readonly⟩, backing, lease, some ⟨id, readonly⟩⟩] } := ⟨_, rfl⟩
        have hb : ∀ d, u.backings.count d = s.backings.count d + [backing].count d := by
          intro d
          rw [hu, ht]
          simp only [backings, List.map_append, List.map_cons, List.map_nil, List.count_append]
        have hl : ∀ d, u.leases.count d = s.leases.count d + [lease].count d := by
          intro d
          rw [hu, ht]
          simp only [leases, List.map_append, List.map_cons, List.map_nil, List.count_append]
        have htwo : ∀ d, [backing, lease].count d = [backing].count d + [lease].count d := by
          intro d
          rw [show [backing, lease] = [backing] ++ [lease] from rfl, List.count_append]
        have hclosed : ∀ d, u.closed.count d = s.closed.count d + closed.count d := by
          intro d
          rw [hu, ht]
          exact List.count_append
        have hclients : u.clients = t.clients := by rw [hu]
        have hframe : u.direct = s.direct ∧ u.next = s.next ∧ u.shmClosed = s.shmClosed ∧
            u.segmentLeases = s.segmentLeases := by
          rw [hu, ht]
          exact ⟨rfl, rfl, rfl, rfl⟩
        obtain ⟨hdirect, hnext, hshm, hsegments⟩ := hframe
        rw [← hu]
        apply Ledger.attach
        · intro d
          have ho := h.owned d
          have ht := htally d
          have hc := hcounts d
          have h2 := htwo d
          have h3 := hb d
          have h4 := hl d
          have h5 := hclosed d
          rw [hclients, hdirect, hnext]
          omega
        · intro d
          have hm := h.mapped d
          have h3 := hb d
          have h4 := hl d
          rw [hdirect, hshm, hsegments]
          simp only [Option.toList_some]
          omega
        · intro d
          have hm := h.backing d
          have h3 := hb d
          rw [hdirect, hshm]
          omega

/-! ## Who came to `shmat` -/

/-- The clients and their numbers: one without a channel was not admitted with one, and no client that was came to
`shmat`. -/
structure Serials (s : State n) : Prop where
  clients : ∀ i c, s.clients i = some c → c.serial < s.connects ∧ (c.channel = none → c.serial ∉ s.channelClients)
  channelClients : ∀ k ∈ s.channelClients, k < s.connects
  native : ∀ k ∈ s.native, k < s.connects ∧ k ∉ s.channelClients

/-- One client changes, and keeps its number and its channel. -/
theorem Serials.update {s t : State n} (h : s.Serials) {i : Fin n} {client : Option Client}
    (hclients : t.clients = Function.update s.clients i client)
    (hnew : ∀ c ∈ client, c.serial < s.connects ∧ (c.channel = none → c.serial ∉ s.channelClients))
    (hconnects : t.connects = s.connects) (hchannel : t.channelClients = s.channelClients) (hnative : t.native = s.native) :
    t.Serials := by
  constructor
  · intro j c hc
    rw [hclients] at hc
    rw [hconnects, hchannel]
    by_cases hj : j = i
    · subst hj
      rw [Function.update_self] at hc
      exact hnew c hc
    · rw [Function.update_of_ne hj] at hc
      exact h.clients j c hc
  · rw [hconnects, hchannel]
    exact h.channelClients
  · rw [hconnects, hchannel, hnative]
    exact h.native

/-- A new client. -/
theorem Serials.connect {s : State n} (h : s.Serials) (i : Fin n) (channel : Option Channel) :
    (s.connect i channel).Serials := by
  have hmem : ∀ k ∈ (s.connect i channel).channelClients, k < s.connects ∧ k ∈ s.channelClients ∨
      k = s.connects ∧ channel.isSome = true := by
    intro k hk
    rcases List.mem_append.1 hk with hk | hk
    · exact .inl ⟨h.channelClients k hk, hk⟩
    · split at hk
      · rename_i hs
        exact .inr ⟨List.mem_singleton.1 hk, hs⟩
      · cases hk
  constructor
  · intro j c hc
    by_cases hj : j = i
    · subst hj
      simp only [State.connect, Function.update_self] at hc
      cases hc
      refine ⟨Nat.lt_succ_self _, fun hn hin => ?_⟩
      rcases hmem _ hin with ⟨hlt, -⟩ | ⟨-, hs⟩
      · exact absurd hlt (Nat.lt_irrefl _)
      · rw [show channel = none from hn] at hs
        cases hs
    · simp only [State.connect, Function.update_of_ne hj] at hc
      obtain ⟨hlt, hn⟩ := h.clients j c hc
      refine ⟨Nat.lt_succ_of_lt hlt, fun hnone hin => ?_⟩
      rcases hmem _ hin with ⟨-, hin⟩ | ⟨heq, -⟩
      · exact hn hnone hin
      · omega
  · intro k hk
    show k < s.connects + 1
    rcases hmem k hk with ⟨hlt, -⟩ | ⟨heq, -⟩ <;> omega
  · intro k hk
    obtain ⟨hlt, hn⟩ := h.native k hk
    refine ⟨Nat.lt_succ_of_lt hlt, fun hin => ?_⟩
    rcases hmem k hin with ⟨-, hin⟩ | ⟨heq, -⟩
    · exact hn hin
    · omega

/-! ## Runs -/

/-- What holds beside the invariant of the channels. -/
structure Inv (s : State n) : Prop where
  ledger : s.Ledger
  answers : ∀ x ∈ s.handed, x.answers = some x.request
  serials : s.Serials

theorem Inv.init (n : Nat) : (State.init n).Inv where
  ledger := .init n
  answers := List.forall_mem_nil _
  serials := ⟨fun _ _ hc => (Option.some_ne_none _ hc.symm).elim, List.forall_mem_nil _, List.forall_mem_nil _⟩

/-- A callback of a channel: `progress` or `expired`. -/
theorem Inv.callback {s : State n} (h : s.Inv) {i : Fin n} {client : Client} {r r' : Channel} {closed : List Fd} {k : Nat}
    (hc : s.clients i = some client) (hr : client.channel = some r)
    (hheld : ∀ d, r'.held d + closed.count d = r.held d + (List.range' s.next k).count d) :
    (s.callback i client r' closed (s.next + k)).Inv where
  ledger := by
    refine h.ledger.update (k := k) rfl rfl rfl rfl rfl rfl ?_
    intro d
    have := hheld d
    have hold : clientHeld d (s.clients i) = r.held d := by
      simp only [clientHeld, hc, hr]
      rfl
    rw [hold]
    show (s.closed ++ closed).count d + r'.held d = _
    rw [List.count_append]
    omega
  answers := h.answers
  serials := by
    refine h.serials.update rfl ?_ rfl rfl rfl
    rintro c ⟨⟩
    exact ⟨(h.serials.clients i client hc).1, fun hnone => by cases hnone⟩

theorem Inv.admitClient {s : State n} (h : s.Inv) (hello : Hello) (client : Option (Fin n))
    (hfree : ∀ i ∈ client, s.clients i = none) :
    (s.admitClient hello client).Inv := by
  have hleft : State.Inv { s with admissions := s.admissions - 1 } :=
    ⟨h.ledger.congr rfl rfl rfl rfl rfl rfl rfl, h.answers, ⟨h.serials.clients, h.serials.channelClients, h.serials.native⟩⟩
  unfold State.admitClient
  dsimp only
  split
  · exact h
  · exact hleft
  · split
    · rename_i i
      refine ⟨?_, hleft.answers, hleft.serials.connect i none⟩
      refine hleft.ledger.update (k := 0) rfl rfl rfl rfl rfl rfl ?_
      intro d
      rw [show s.clients i = none from hfree i rfl]
      rfl
    · exact hleft
  · rename_i p ok
    have hcount := Channel.receive_count p 1 s.next
    have hnone : (receive p 1 s.next).error = 0 → (receive p 1 s.next).closed = [] := by
      intro herror
      unfold receive at herror ⊢
      split at herror
      · cases herror
      · rename_i hm
        rw [if_neg hm]
    split
    · rename_i fd i herror hfds
      refine ⟨?_, h.answers, State.Serials.connect (s := { s with
        admissions := s.admissions - 1, next := s.next + p.descriptors })
        ⟨h.serials.clients, h.serials.channelClients, h.serials.native⟩ i (some (.new fd))⟩
      refine h.ledger.update (k := p.descriptors) rfl rfl rfl rfl rfl rfl ?_
      intro d
      have hc := hcount d
      rw [hfds, hnone herror] at hc
      rw [show s.clients i = none from hfree i rfl]
      show s.closed.count d + ([fd].count d + 0) = s.closed.count d + 0 + _
      rw [List.count_nil] at hc
      omega
    · rename_i fd herror hfds
      refine ⟨?_, h.answers, ⟨h.serials.clients, h.serials.channelClients, h.serials.native⟩⟩
      refine h.ledger.flow (k := p.descriptors) rfl rfl rfl rfl rfl fun d => ?_
      have hc := hcount d
      rw [hfds, hnone herror] at hc
      show (s.closed ++ [fd]).count d + tally (clientHeld d) s.clients = _
      rw [List.count_append]
      rw [List.count_nil] at hc
      omega
    · refine ⟨?_, h.answers, ⟨h.serials.clients, h.serials.channelClients, h.serials.native⟩⟩
      refine h.ledger.flow (k := p.descriptors) rfl rfl rfl rfl rfl fun d => ?_
      have hc := hcount d
      show (s.closed ++ (receive p 1 s.next).closed ++ (receive p 1 s.next).fds).count d +
        tally (clientHeld d) s.clients = _
      rw [List.count_append, List.count_append]
      omega

theorem Inv.procShmAttach {s : State n} (h : s.Inv) (hinv : AllChannels Channel.Inv s) (i : Fin n) (resource id : Nat)
    (readonly timerSet setNotifyFd : Bool) (env : Attach) :
    (s.procShmAttach i resource id readonly timerSet setNotifyFd env).Inv := by
  suffices hrest : (∀ x ∈ (s.procShmAttach i resource id readonly timerSet setNotifyFd env).handed,
      x.answers = some x.request) ∧ (s.procShmAttach i resource id readonly timerSet setNotifyFd env).Serials from
    ⟨h.ledger.procShmAttach hinv i resource id readonly timerSet setNotifyFd env, hrest.1, hrest.2⟩
  cases hc : s.clients i with
  | none =>
    simp only [State.procShmAttach, hc]
    exact ⟨h.answers, h.serials⟩
  | some client =>
    obtain ⟨hlt, hn⟩ := h.serials.clients i client hc
    cases hr : client.channel with
    | none =>
      -- only a client without a channel comes to `shmat`
      simp only [State.procShmAttach, hc, hr]
      refine ⟨h.answers, ⟨h.serials.clients, h.serials.channelClients, fun k hk => ?_⟩⟩
      rcases List.mem_append.1 hk with hk | hk
      · exact h.serials.native k hk
      · rw [List.mem_singleton.1 hk]
        exact ⟨hlt, hn hr⟩
    | some r =>
      obtain ⟨r', closed, fds, ignored, t, -, ht, hcase⟩ :=
        procShmAttach_cases hinv hc hr resource id readonly timerSet setNotifyFd env
      have hserials : t.Serials := by
        refine h.serials.update (by rw [ht]) (fun c hc => ?_) (by rw [ht]) (by rw [ht]) (by rw [ht])
        cases hc
        exact ⟨hlt, fun hnone => by cases hnone⟩
      have hanswers : ∀ x ∈ t.handed, x.answers = some x.request := by
        rw [ht]
        exact h.answers
      rcases hcase with ⟨-, heq⟩ | ⟨backing, lease, size, -, heq⟩
      · rw [heq]
        exact ⟨hanswers, hserials⟩
      · obtain ⟨-, -, hhanded, -, hconnects, hchannel, hnative⟩ := State.shmAttachMemory_frame
          { t with handed := t.handed ++ [⟨⟨id, readonly⟩, backing, lease, some ⟨id, readonly⟩⟩] }
          resource backing (some lease) size env
        have hclients := shmAttachMemory_clients
          { t with handed := t.handed ++ [⟨⟨id, readonly⟩, backing, lease, some ⟨id, readonly⟩⟩] }
          resource backing (some lease) size env
        rw [heq]
        constructor
        · intro x hx
          rw [hhanded] at hx
          rcases List.mem_append.1 hx with hx | hx
          · exact hanswers x hx
          · rw [List.mem_singleton.1 hx]
        · constructor
          · rw [hclients, hconnects, hchannel]
            exact hserials.clients
          · rw [hconnects, hchannel]
            exact hserials.channelClients
          · rw [hconnects, hchannel, hnative]
            exact hserials.native

/-- Steps that leave the clients and the histories of descriptors as they are. -/
theorem Inv.congr {s t : State n} (h : s.Inv) (hledger : t.Ledger) (hclients : t.clients = s.clients)
    (hhanded : t.handed = s.handed) (hconnects : t.connects = s.connects) (hchannel : t.channelClients = s.channelClients)
    (hnative : t.native = s.native) : t.Inv := by
  refine ⟨hledger, by rw [hhanded]; exact h.answers, ?_⟩
  constructor
  · rw [hclients, hconnects, hchannel]
    exact h.serials.clients
  · rw [hconnects, hchannel]
    exact h.serials.channelClients
  · rw [hconnects, hchannel, hnative]
    exact h.serials.native

/-- A descriptor that a client passes. -/
theorem Inv.shmAttachFd {s : State n} (h : s.Inv) (resource : Nat) (env : Attach) :
    (State.shmAttachMemory { s with next := s.next + 1, direct := s.direct ++ [s.next] } resource s.next none 0 env).Inv := by
  obtain ⟨-, -, hhanded, -, hconnects, hchannel, hnative⟩ := State.shmAttachMemory_frame
    { s with next := s.next + 1, direct := s.direct ++ [s.next] } resource s.next none 0 env
  refine h.congr ?_ (shmAttachMemory_clients _ _ _ _ _ _) hhanded hconnects hchannel hnative
  have hone : ∀ d : Nat, [s.next].count d = if s.next = d then 1 else 0 := by
    intro d
    simp [List.count_singleton]
  apply Ledger.attach
  · intro d
    have ho := h.ledger.owned d
    have h1 := hone d
    show s.closed.count d + (s.backings.count d + s.leases.count d) + (s.direct ++ [s.next]).count d +
      tally (clientHeld d) s.clients = if d < s.next + 1 then 1 else 0
    rw [List.count_append]
    split at ho <;> split at h1 <;> split <;> omega
  · intro d
    have hm := h.ledger.mapped d
    show s.shmClosed.count d + s.segmentLeases.count d + [s.next].count d + 0 =
      s.backings.count d + s.leases.count d + (s.direct ++ [s.next]).count d
    rw [List.count_append]
    omega
  · intro d
    have hb := h.ledger.backing d
    show s.backings.count d + (s.direct ++ [s.next]).count d ≤ s.shmClosed.count d + [s.next].count d
    rw [List.count_append]
    omega

theorem Inv.detach {s : State n} (h : s.Inv) (k : Nat) : (s.shmDetachSegment k).Inv := by
  refine h.congr (h.ledger.detach k) (shmDetachSegment_clients s k) ?_ ?_ ?_ ?_
  all_goals
    unfold State.shmDetachSegment
    split
    · rfl
    · split <;> rfl

/-- Every step keeps the invariant. -/
theorem Inv.step {s t : State n} {a : Action n} (h : s.Inv) (hinv : AllChannels Channel.Inv s) (hs : s.step a = some t) :
    t.Inv := by
  cases a with
  | accept ok =>
    cases hs
    split
    · exact h.congr (h.ledger.congr rfl rfl rfl rfl rfl rfl rfl) rfl rfl rfl rfl rfl
    · exact h
  | admissionExpired =>
    simp only [State.step] at hs
    split at hs
    · cases hs
      exact h.congr (h.ledger.congr rfl rfl rfl rfl rfl rfl rfl) rfl rfl rfl rfl rfl
    · cases hs
  | admitClient hello client =>
    simp only [State.step] at hs
    split at hs
    · rename_i hfree
      cases hs
      exact h.admitClient hello client hfree.2
    · cases hs
  | shmAttach i resource id readonly timerSet setNotifyFd env =>
    simp only [State.step] at hs
    split at hs
    · cases hs
      exact h.procShmAttach hinv i resource id readonly timerSet setNotifyFd env
    · cases hs
  | shmAttachFd resource env =>
    cases hs
    exact h.shmAttachFd resource env
  | progress i send setNotifyFd errno =>
    simp only [State.step] at hs
    split at hs
    · rename_i client hc
      split at hs
      · rename_i r hr
        split at hs
        · rename_i hw
          cases hs
          have hcr := hinv.client hc hr
          have hempty := hcr.slot.empty (hcr.waits.watched hw.1).2
          obtain ⟨k, hk, -⟩ := r.held_progress hempty send setNotifyFd errno s.next 0
          rw [hk]
          refine h.callback hc hr fun d => ?_
          obtain ⟨k', hk', hheld⟩ := r.held_progress hempty send setNotifyFd errno s.next d
          rw [hk] at hk'
          rw [show k = k' by omega]
          exact hheld
        · cases hs
      · cases hs
    · cases hs
  | expired i =>
    simp only [State.step] at hs
    split at hs
    · rename_i client hc
      split at hs
      · rename_i r hr
        split at hs
        · cases hs
          refine h.callback (k := 0) hc hr fun d => ?_
          rw [r.held_finish, List.range'_zero, List.count_nil, Nat.add_zero]
        · cases hs
      · cases hs
    · cases hs
  | issue i request p =>
    simp only [State.step] at hs
    split at hs
    · rename_i client hc
      split at hs
      · rename_i r hr
        split at hs
        · cases hs
          refine ⟨?_, h.answers, ?_⟩
          · refine h.ledger.update (k := 0) rfl rfl rfl rfl rfl rfl fun d => ?_
            simp only [clientHeld, hc, hr]
            rfl
          · refine h.serials.update rfl ?_ rfl rfl rfl
            rintro c ⟨⟩
            exact ⟨(h.serials.clients i client hc).1, fun hnone => by cases hnone⟩
        · cases hs
      · cases hs
    · cases hs
  | clientGone i =>
    simp only [State.step] at hs
    split at hs
    · rename_i hsome
      cases hs
      obtain ⟨client, hc⟩ := Option.isSome_iff_exists.1 hsome
      unfold State.clientState
      rw [hc]
      refine ⟨?_, h.answers, ?_⟩
      · refine h.ledger.update (k := 0) rfl rfl rfl rfl rfl rfl fun d => ?_
        rw [hc]
        show (s.closed ++ _).count d + 0 = _ + clientHeld d (some client) + 0
        rw [List.count_append]
        cases hr : client.channel with
        | none =>
          simp only [clientHeld, hr]
          rfl
        | some r =>
          simp only [clientHeld, hr, List.count_append]
          rfl
      · refine h.serials.update rfl ?_ rfl rfl rfl
        rintro c ⟨⟩
    · cases hs
  | share k =>
    simp only [State.step] at hs
    split at hs
    · rename_i seg hseg
      cases hs
      exact h.congr (h.ledger.congr rfl rfl rfl rfl rfl (segmentLeases_set hseg _) rfl) rfl rfl rfl rfl rfl
    · cases hs
  | detach k =>
    simp only [State.step] at hs
    split at hs
    · cases hs
      exact h.detach k
    · cases hs

end State

/-- The invariants of every run. -/
theorem reach_inv {n : Nat} {s : State n} (h : Reach State.step Free (.init n) s) :
    AllChannels Channel.Inv s ∧ s.Inv := by
  refine Reach.invariant (I := fun s => AllChannels Channel.Inv s ∧ s.Inv) ⟨.init n, .init n⟩ ?_ h
  intro s a t hs _ ht
  exact ⟨step_channel_inv hs.1 ht, hs.2.step hs.1 ht⟩

/-- **Descriptors have one owner**: in every run

- every descriptor received was closed by a channel, handed out, or is held by the client's channel, exactly once;
- at most one request of a client is outstanding;
- what was handed out for a request answers that request;
- the backing descriptor was closed once by `ShmAttachMemory`, and the lease was closed once or is kept by one segment;
  so was a descriptor that a client passed itself;
- no client that was admitted with a channel came to `shmat`. -/
theorem descriptors_owned_once {n : Nat} {s : State n} (h : Reach State.step Free (.init n) s) :
    (∀ d < s.next, s.closed.count d + (s.backings.count d + s.leases.count d) + s.direct.count d +
      tally (clientHeld d) s.clients = 1) ∧
    (∀ i r, s.channel i = some r → r.outstanding ≤ 1) ∧
    (∀ x ∈ s.handed, x.answers = some x.request) ∧
    (∀ x ∈ s.handed, s.shmClosed.count x.backing = 1 ∧ s.segmentLeases.count x.backing = 0 ∧
      s.shmClosed.count x.lease + s.segmentLeases.count x.lease = 1) ∧
    (∀ d ∈ s.direct, s.shmClosed.count d = 1) ∧
    (∀ c ∈ s.native, c ∉ s.channelClients) := by
  obtain ⟨hchannels, hinv⟩ := reach_inv h
  have hledger := hinv.ledger
  refine ⟨fun d hd => ?_, fun i r hr => ?_, hinv.answers, fun x hx => ?_, fun d hd => ?_,
    fun c hc => (hinv.serials.native c hc).2⟩
  · rw [hledger.owned d, if_pos hd]
  · have hc := hchannels i r hr
    exact Channel.outstanding_le_one hc.matched hc.waits
  · have hbacking : 0 < s.backings.count x.backing := List.count_pos_iff.2 (List.mem_map_of_mem hx)
    have hlease : 0 < s.leases.count x.lease := List.count_pos_iff.2 (List.mem_map_of_mem hx)
    have ob := hledger.owned x.backing
    have ol := hledger.owned x.lease
    have mb := hledger.mapped x.backing
    have ml := hledger.mapped x.lease
    have bb := hledger.backing x.backing
    refine ⟨?_, ?_, ?_⟩
    · split at ob <;> omega
    · split at ob <;> omega
    · split at ol <;> omega
  · have hdirect : 0 < s.direct.count d := List.count_pos_iff.2 hd
    have od := hledger.owned d
    have md := hledger.mapped d
    have bd := hledger.backing d
    split at od <;> omega

/-- A client with a channel maps a segment, shares it and gives up one reference; another client comes to `shmat`. -/
def mapped : List (Action 2) :=
  let env : Attach := ⟨some 4096, true, true, true, true⟩
  let first : Fin 2 := ⟨0, Nat.two_pos⟩
  let second : Fin 2 := ⟨1, Nat.one_lt_two⟩
  [.accept true, .admitClient (.resource ⟨1, false, [.rights 1], ⟨0, 0, 0⟩⟩ true) (some first), .accept true,
    .admitClient .x11 (some second), .shmAttach first 100 5 false true true env, .progress first .done true (some eagain),
    .issue first 0 ⟨16, false, [.rights 2], ⟨0, 0, 4096⟩⟩, .progress first .done true none,
    .shmAttach first 100 5 false true true env, .shmAttach second 200 7 true true true env, .share 0, .detach 0]

theorem descriptors_owned_once_mapped : ∃ s, exec State.step (State.init 2) mapped = some s ∧
    s.backings = [1] ∧ s.segmentLeases = [2] ∧ s.native = [1] ∧ s.shmClosed.count 1 = 1 :=
  ⟨_, rfl, rfl, rfl, rfl,
    ((descriptors_owned_once (.of_exec mapped rfl)).2.2.2.1 ⟨⟨5, false⟩, 1, 2, some ⟨5, false⟩⟩ (by decide)).1⟩

end Lorie.Resources
