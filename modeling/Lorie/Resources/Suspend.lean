import Lorie.Resources.Channel

/-!
# Suspended clients

`lorieResourcesShm` returns `-EAGAIN` to suspend the client until its channel has an answer. The same value may come from
the issuer, as the error of a valid reply: the replayed request then suspends the client again, and nothing is awaited.

- `step_channels`: what the functions of a channel keep, every step keeps;
- `again_outstanding`: without such a reply, a client is suspended only while its request is outstanding.
-/

namespace Lorie.Resources

open Lorie.Lib

/-! ## Steps and channels -/

/-- A property of every channel. -/
def AllChannels {n : Nat} (P : Channel → Prop) (s : State n) : Prop := ∀ i r, s.channel i = some r → P r

section Channels

variable {n : Nat} {P : Channel → Prop} {s : State n}

theorem AllChannels.client (h : AllChannels P s) {i : Fin n} {client : Client} {r : Channel} (hc : s.clients i = some client)
    (hr : client.channel = some r) : P r := by
  apply h i r
  unfold State.channel
  rw [hc]
  exact hr

/-- One client changes. -/
theorem AllChannels.update (h : AllChannels P s) {t : State n} (i : Fin n) (client : Option Client)
    (ht : t.clients = Function.update s.clients i client) (hnew : ∀ c ∈ client, ∀ r ∈ c.channel, P r) :
    AllChannels P t := by
  intro j r hr
  unfold State.channel at hr
  rw [ht] at hr
  by_cases hj : j = i
  · subst hj
    rw [Function.update_self] at hr
    obtain ⟨c, hc, hr⟩ := Option.bind_eq_some_iff.1 hr
    exact hnew c hc r hr
  · rw [Function.update_of_ne hj] at hr
    exact h j r hr

theorem AllChannels.congr (h : AllChannels P s) {t : State n} (ht : t.clients = s.clients) : AllChannels P t := by
  intro j r hr
  apply h j r
  unfold State.channel at hr ⊢
  rw [← ht]
  exact hr

theorem shmAttachMemory_clients (s : State n) (resource : Nat) (fd : Fd) (lease : Option Fd) (size : Nat) (env : Attach) :
    (s.shmAttachMemory resource fd lease size env).clients = s.clients := by
  simp only [State.shmAttachMemory]
  split
  · rfl
  · repeat' split
    all_goals rfl

theorem shmDetachSegment_clients (s : State n) (k : Nat) : (s.shmDetachSegment k).clients = s.clients := by
  simp only [State.shmDetachSegment]
  split
  · rfl
  · split <;> rfl

/-- The client that attaches is the only one that changes. -/
theorem procShmAttach_clients {i : Fin n} {resource id : Nat} {readonly timerSet setNotifyFd : Bool} {env : Attach}
    {client : Client} {r : Channel} (hc : s.clients i = some client) (hr : client.channel = some r) :
    ∃ ignored, (s.procShmAttach i resource id readonly timerSet setNotifyFd env).clients =
      Function.update s.clients i
        (some { client with
          channel := some (r.lorieResourcesShm id readonly timerSet setNotifyFd).2.1, ignored := ignored }) := by
  simp only [State.procShmAttach, hc, hr]
  split
  · exact ⟨true, Function.update_idem _ _ _⟩
  split
  · exact ⟨client.ignored, rfl⟩
  · split
    · exact ⟨client.ignored, shmAttachMemory_clients _ _ _ _ _ _⟩
    · exact ⟨client.ignored, rfl⟩

theorem admitClient_channels (h : AllChannels P s) (hnew : ∀ fd, P (.new fd)) (hello : Hello) (client : Option (Fin n)) :
    AllChannels P (s.admitClient hello client) := by
  have hleft : AllChannels P { s with admissions := s.admissions - 1 } := h.congr rfl
  unfold State.admitClient
  dsimp only
  split
  · exact h
  · exact hleft
  · split
    · rename_i i
      apply h.update i (some ⟨s.connects, none, false⟩) rfl
      rintro c ⟨⟩ r ⟨⟩
    · exact hleft
  · rename_i p ok
    have hleft' : ∀ closed, AllChannels P
        { s with admissions := s.admissions - 1, next := s.next + p.descriptors, closed := closed } :=
      fun _ => h.congr rfl
    split
    · rename_i fd i _ _
      apply h.update i (some ⟨s.connects, some (.new fd), false⟩) rfl
      rintro c ⟨⟩ r ⟨⟩
      exact hnew fd
    · exact hleft' _
    · exact hleft' _

/-- **Steps and channels**: what a new channel has and every function of a channel keeps holds of all channels. -/
theorem step_channels {t : State n} {a : Action n} (hnew : ∀ fd, P (.new fd))
    (hshm : ∀ (r : Channel) id readonly timerSet setNotifyFd, P r →
      P (r.lorieResourcesShm id readonly timerSet setNotifyFd).2.1)
    (hprogress : ∀ (r : Channel) send setNotifyFd errno next, P r → r.watch.isSome → (∀ e ∈ errno, 0 < e) →
      P (r.progress send setNotifyFd errno next).1)
    (hexpired : ∀ r : Channel, P r → r.timer = some true → P (r.finish (-etimedout)).1)
    (hissue : ∀ (r : Channel) i request p, a = .issue i request p → P r → r.fd.isSome → request < r.requests.length →
      request ∉ r.answered → P { r with packets := r.packets ++ [(request, p)], answered := r.answered ++ [request] })
    (h : AllChannels P s) (hs : s.step a = some t) : AllChannels P t := by
  cases a with
  | accept ok =>
    cases hs
    split
    · exact h.congr rfl
    · exact h
  | admissionExpired =>
    simp only [State.step] at hs
    split at hs
    · cases hs
      exact h.congr rfl
    · cases hs
  | admitClient hello client =>
    simp only [State.step] at hs
    split at hs
    · cases hs
      exact admitClient_channels h hnew hello client
    · cases hs
  | shmAttach i resource id readonly timerSet setNotifyFd env =>
    simp only [State.step] at hs
    split at hs
    · rename_i hsome
      cases hs
      obtain ⟨client, hc⟩ := Option.isSome_iff_exists.1 hsome
      cases hr : client.channel with
      | none =>
        refine h.congr ?_
        simp only [State.procShmAttach, hc, hr]
      | some r =>
        obtain ⟨ignored, hclients⟩ := procShmAttach_clients (s := s) hc hr
        apply h.update i _ hclients
        rintro c ⟨⟩ r' ⟨⟩
        exact hshm r id readonly timerSet setNotifyFd (h.client hc hr)
    · cases hs
  | shmAttachFd resource env =>
    cases hs
    exact h.congr (shmAttachMemory_clients _ _ _ _ _ _)
  | progress i send setNotifyFd errno =>
    simp only [State.step] at hs
    split at hs
    · rename_i client hc
      split at hs
      · rename_i r hr
        split at hs
        · rename_i hw
          cases hs
          apply h.update i _ rfl
          rintro c ⟨⟩ r' ⟨⟩
          exact hprogress r send setNotifyFd errno s.next (h.client hc hr) hw.1 hw.2
        · cases hs
      · cases hs
    · cases hs
  | expired i =>
    simp only [State.step] at hs
    split at hs
    · rename_i client hc
      split at hs
      · rename_i r hr
        split at hs
        · rename_i ht
          cases hs
          apply h.update i _ rfl
          rintro c ⟨⟩ r' ⟨⟩
          exact hexpired r (h.client hc hr) ht
        · cases hs
      · cases hs
    · cases hs
  | issue i request p =>
    simp only [State.step] at hs
    split at hs
    · rename_i client hc
      split at hs
      · rename_i r hr
        split at hs
        · rename_i hw
          cases hs
          apply h.update i _ rfl
          rintro c ⟨⟩ r' ⟨⟩
          exact hissue r i request p rfl (h.client hc hr) hw.1 hw.2.1 hw.2.2
        · cases hs
      · cases hs
    · cases hs
  | clientGone i =>
    simp only [State.step] at hs
    split at hs
    · rename_i hsome
      cases hs
      obtain ⟨client, hc⟩ := Option.isSome_iff_exists.1 hsome
      apply h.update i none
      · simp only [State.clientState, hc]
      · rintro c ⟨⟩
    · cases hs
  | share k =>
    simp only [State.step] at hs
    split at hs
    · cases hs
      exact h.congr rfl
    · cases hs
  | detach k =>
    simp only [State.step] at hs
    split at hs
    · cases hs
      exact h.congr (shmDetachSegment_clients _ _)
    · cases hs

end Channels

/-! ## Receiving -/

theorem receive_fds_length {p : Packet} {size : Nat} (h : p.malformed size = false) (next : Nat) :
    (receive p size next).fds.length = p.descriptors := by
  simp [receive, h]

theorem receive_error {p : Packet} {size next : Nat} :
    (receive p size next).error = if p.malformed size then -eproto else 0 := by
  unfold receive
  split <;> rfl

/-- The error with which `progress` finishes: none when and only when the packet is accepted. -/
theorem hear_error (p : Packet) (next : Nat) :
    (if (receive p replySize next).error = 0 ∧ !p.reply.valid (receive p replySize next).fds.length then -eproto
      else (receive p replySize next).error) = if p.accepted then 0 else -eproto := by
  rw [receive_error]
  cases hm : p.malformed replySize with
  | true => simp [Packet.accepted, hm, eproto]
  | false =>
    rw [receive_fds_length hm next]
    cases hv : p.reply.valid p.descriptors <;> simp [Packet.accepted, hm, hv]

/-- The end of the stream is no answer. -/
theorem eof_not_accepted : Packet.eof.accepted = false := by decide

/-! ## Outstanding requests -/

namespace Channel

/-- The request is awaited: an answer or the deadline will finish it, and attend the client. -/
def Outstanding (r : Channel) : Prop :=
  r.pending = true ∧ r.ready = false ∧ r.timer = some true ∧ r.fd.isSome = true ∧ r.watch.isSome = true

instance (r : Channel) : Decidable r.Outstanding :=
  inferInstanceAs (Decidable (_ ∧ _ ∧ _ ∧ _ ∧ _))

/-- A pending request without an answer is outstanding, and only such a request is watched. -/
structure Waits (r : Channel) : Prop where
  watched : r.watch.isSome → r.pending = true ∧ r.ready = false
  outstanding : r.pending = true → r.ready = false → r.Outstanding

theorem Waits.new (fd : Fd) : (Channel.new fd).Waits :=
  ⟨nofun, nofun⟩

variable {r : Channel}

theorem finish_ready (r : Channel) (error : Int) : (r.finish error).1.ready = true := by
  unfold finish
  dsimp only
  split <;> rfl

theorem finish_watch (r : Channel) (error : Int) : (r.finish error).1.watch = none := by
  unfold finish
  dsimp only
  split <;> rfl

/-- A finished channel waits for nothing. -/
theorem Waits.finish (r : Channel) (error : Int) : (r.finish error).1.Waits := by
  constructor
  · intro h
    rw [finish_watch] at h
    cases h
  · intro _ h
    rw [finish_ready] at h
    cases h

theorem Waits.hear (h : r.Waits) (errno : Option Int) (next : Nat) : (r.hear errno next).1.Waits := by
  unfold Channel.hear
  split
  · dsimp only
    split
    · exact ⟨h.watched, h.outstanding⟩
    · exact .finish _ _
  · exact .finish _ _

theorem Waits.progress (h : r.Waits) (hw : r.watch.isSome) (send : Send) (setNotifyFd : Bool) (errno : Option Int)
    (next : Nat) : (r.progress send setNotifyFd errno next).1.Waits := by
  unfold Channel.progress
  split
  · exact h.hear errno next
  split
  · exact h
  · exact .finish _ _
  · dsimp only
    split
    · apply Waits.hear
      refine ⟨fun _ => h.watched hw, fun hp hr => ?_⟩
      obtain ⟨_, _, ht, hf, _⟩ := h.outstanding hp hr
      exact ⟨hp, hr, ht, hf, rfl⟩
    · exact .finish _ _

theorem setTimer_of_ne_none {timerSet : Bool} (h : r.setTimer timerSet ≠ none) : r.setTimer timerSet = some true := by
  unfold setTimer at h ⊢
  split at h
  · rename_i ht
    exact if_pos ht
  · exact absurd rfl h

theorem Waits.lorieResourcesShm (h : r.Waits) (id : Nat) (readonly timerSet setNotifyFd : Bool) :
    (r.lorieResourcesShm id readonly timerSet setNotifyFd).2.1.Waits := by
  -- a slot that is ready is not watched
  have hunwatched : r.ready = true → r.watch.isSome → False := fun hr hw => by
    rw [(h.watched hw).2] at hr
    cases hr
  unfold Channel.lorieResourcesShm
  split
  · rename_i hr
    dsimp only
    split
    · exact ⟨nofun, nofun⟩
    split
    · exact ⟨fun hw => (hunwatched hr hw).elim, nofun⟩
    · exact ⟨fun hw => (hunwatched hr hw).elim, nofun⟩
  · rename_i hr
    have hr : r.ready = false := by simpa using hr
    split
    · exact h
    rename_i hfd
    split
    · exact h
    · rename_i hp
      have hp : r.pending = false := by simpa using hp
      dsimp only
      split
      · refine ⟨nofun, fun hp' _ => ?_⟩
        rw [show r.pending = true from hp'] at hp
        cases hp
      · rename_i hok
        have ht := setTimer_of_ne_none fun hn => hok (.inl hn)
        exact ⟨fun _ => ⟨rfl, hr⟩, fun _ _ => ⟨rfl, hr, ht, Option.isSome_iff_ne_none.2 hfd, rfl⟩⟩

/-- An answer in the slot, or on its way, does not carry `EAGAIN`. -/
structure Honest (r : Channel) : Prop where
  slot : r.ready = true → r.reply.error ≠ -eagain
  packets : ∀ e ∈ r.packets, ¬(e.2.accepted = true ∧ e.2.reply.error = -eagain)

theorem Honest.new (fd : Fd) : (Channel.new fd).Honest :=
  ⟨nofun, nofun⟩

/-- Finishing with an error of its own, or with an answer. -/
theorem Honest.finish {error : Int} (hp : ∀ e ∈ r.packets, ¬(e.2.accepted = true ∧ e.2.reply.error = -eagain))
    (he : error ≠ -eagain) (h0 : error = 0 → r.reply.error ≠ -eagain) : (r.finish error).1.Honest := by
  unfold Channel.finish
  dsimp only
  split
  · exact ⟨fun _ => he, nofun⟩
  · rename_i h
    exact ⟨fun _ => h0 (by simpa using h), hp⟩

theorem Honest.fail {error : Int} (h0 : error ≠ 0) (he : error ≠ -eagain) : (r.finish error).1.Honest := by
  unfold Channel.finish
  dsimp only
  rw [if_pos h0]
  exact ⟨fun _ => he, nofun⟩

theorem Honest.nextPacket (h : r.Honest) (ha : r.nextPacket.accepted = true) : r.nextPacket.reply.error ≠ -eagain := by
  cases hp : r.packets with
  | nil =>
    have heof : r.nextPacket = .eof := by simp only [Channel.nextPacket, hp]
    rw [heof, eof_not_accepted] at ha
    cases ha
  | cons e rest =>
    have hnext : r.nextPacket = e.2 := by simp only [Channel.nextPacket, hp]
    intro hagain
    apply h.packets e (by rw [hp]; exact List.mem_cons_self)
    rw [← hnext]
    exact ⟨ha, hagain⟩

theorem Honest.hear (h : r.Honest) {errno : Option Int} (he : ∀ e ∈ errno, 0 < e) (next : Nat) (hready : r.ready = false) :
    (r.hear errno next).1.Honest := by
  unfold Channel.hear
  split
  · rename_i e
    dsimp only
    split
    · refine ⟨fun hr => ?_, h.packets⟩
      rw [show r.ready = true from hr] at hready
      cases hready
    · rename_i hne
      have hpos := he e rfl
      exact .fail (by omega) fun heq => hne (.inr (by omega))
  · dsimp only
    rw [hear_error]
    refine .finish (fun e he => h.packets e (List.mem_of_mem_tail he)) ?_ ?_
    · split <;> decide
    · intro h0
      split at h0
      · rename_i ha
        exact h.nextPacket ha
      · cases h0

theorem Honest.progress (h : r.Honest) (hready : r.ready = false) (send : Send) (setNotifyFd : Bool) {errno : Option Int}
    (he : ∀ e ∈ errno, 0 < e) (next : Nat) : (r.progress send setNotifyFd errno next).1.Honest := by
  unfold Channel.progress
  split
  · exact h.hear he next hready
  split
  · exact h
  · exact .fail (by decide) (by decide)
  · dsimp only
    split
    · apply Honest.hear
      · exact ⟨h.slot, h.packets⟩
      · exact he
      · exact hready
    · exact .fail (by decide) (by decide)

theorem Honest.lorieResourcesShm (h : r.Honest) (id : Nat) (readonly timerSet setNotifyFd : Bool) :
    (r.lorieResourcesShm id readonly timerSet setNotifyFd).2.1.Honest := by
  unfold Channel.lorieResourcesShm
  split
  · dsimp only
    split
    · exact ⟨nofun, nofun⟩
    split
    · exact ⟨nofun, h.packets⟩
    · exact ⟨nofun, h.packets⟩
  · split
    · exact h
    split
    · exact h
    · dsimp only
      split
      · exact ⟨h.slot, nofun⟩
      · exact ⟨h.slot, h.packets⟩

/-- What `lorieResourcesShm` does when it suspends the client. -/
theorem again_outstanding (hw : r.Waits) (hh : r.Honest) {id : Nat} {readonly timerSet setNotifyFd : Bool}
    (h : (r.lorieResourcesShm id readonly timerSet setNotifyFd).1.error = -eagain) :
    (r.lorieResourcesShm id readonly timerSet setNotifyFd).2.1.Outstanding := by
  unfold Channel.lorieResourcesShm at h ⊢
  split at h
  · -- the answer in the slot is no `EAGAIN`
    rename_i hr
    dsimp only at h
    split at h
    · cases h
    split at h
    · exact absurd h (hh.slot hr)
    · cases h
  · rename_i hr
    have hr : r.ready = false := by simpa using hr
    split at h
    · cases h
    rename_i hfd
    split at h
    · rename_i hp
      rw [if_neg (by rw [hr]; exact Bool.false_ne_true), if_neg hfd, if_pos hp]
      exact hw.outstanding hp hr
    · rename_i hp
      dsimp only at h
      split at h
      · cases h
      · rename_i hok
        rw [if_neg (by rw [hr]; exact Bool.false_ne_true), if_neg hfd, if_neg hp]
        dsimp only
        rw [if_neg hok]
        exact ⟨rfl, hr, setTimer_of_ne_none fun hn => hok (.inl hn), Option.isSome_iff_ne_none.2 hfd, rfl⟩

end Channel

/-! ## Runs -/

/-- The issuer does not answer with the error `EAGAIN`. -/
def NoAgain {n : Nat} (_ : State n) : Action n → Prop
  | .issue _ _ p => ¬(p.accepted = true ∧ p.reply.error = -eagain)
  | _ => True

instance {n : Nat} (s : State n) : (a : Action n) → Decidable (NoAgain s a)
  | .issue _ _ p => inferInstanceAs (Decidable ¬(p.accepted = true ∧ p.reply.error = -eagain))
  | .accept _ | .admissionExpired | .admitClient _ _ | .shmAttach _ _ _ _ _ _ _ | .shmAttachFd _ _ | .progress _ _ _ _
  | .expired _ | .clientGone _ | .share _ | .detach _ => inferInstanceAs (Decidable True)

theorem AllChannels.init {P : Channel → Prop} (n : Nat) : AllChannels P (State.init n) := by
  intro i r hr
  cases hr

theorem reach_honest {n : Nat} {s : State n} (h : Reach State.step NoAgain (.init n) s) :
    AllChannels (fun r => r.Waits ∧ r.Honest) s := by
  refine Reach.invariant (I := AllChannels fun r => r.Waits ∧ r.Honest) (.init n) ?_ h
  intro s a t hs hc ht
  apply step_channels (fun fd => ⟨.new fd, .new fd⟩) _ _ _ _ hs ht
  · exact fun r id readonly timerSet setNotifyFd ⟨hw, hh⟩ =>
      ⟨hw.lorieResourcesShm id readonly timerSet setNotifyFd, hh.lorieResourcesShm id readonly timerSet setNotifyFd⟩
  · exact fun r send setNotifyFd errno next ⟨hw, hh⟩ hs he =>
      ⟨hw.progress hs send setNotifyFd errno next, hh.progress (hw.watched hs).2 send setNotifyFd he next⟩
  · exact fun r _ _ => ⟨.finish r _, .fail (by decide) (by decide)⟩
  · rintro r i request p rfl ⟨hw, hh⟩ _ _ _
    refine ⟨⟨hw.watched, hw.outstanding⟩, hh.slot, fun e he => ?_⟩
    rcases List.mem_append.1 he with he | he
    · exact hh.packets e he
    · rw [List.mem_singleton.1 he]
      exact hc

/-- **Suspended clients wait for something**: in every run whose issuers do not answer with `EAGAIN`, whenever
`lorieResourcesShm` returns `-EAGAIN` the request is pending and not ready, its deadline is armed and its descriptor is
watched. -/
theorem suspended_while_outstanding {n : Nat} {s : State n} (h : Reach State.step NoAgain (.init n) s) {i : Fin n}
    {r : Channel} (hr : s.channel i = some r) {id : Nat} {readonly timerSet setNotifyFd : Bool}
    (ha : (r.lorieResourcesShm id readonly timerSet setNotifyFd).1.error = -eagain) :
    (r.lorieResourcesShm id readonly timerSet setNotifyFd).2.1.Outstanding :=
  Channel.again_outstanding (reach_honest h i r hr).1 (reach_honest h i r hr).2 ha

/-- A client is admitted with a channel, asks for a segment, and the issuer answers with an error. -/
def answered (error : Int) : List (Action 1) :=
  let env : Attach := ⟨some 4096, true, true, true, true⟩
  [.accept true, .admitClient (.resource ⟨1, false, [.rights 1], ⟨0, 0, 0⟩⟩ true) (some 0),
    .shmAttach 0 100 5 false true true env, .progress 0 .done true (some eagain), .issue 0 0 ⟨16, false, [], ⟨error, 0, 0⟩⟩,
    .progress 0 .done true none]

/-- A refused request; the next one waits. -/
theorem suspended_while_outstanding_refused : ∃ s r,
    exec (fun s a => if NoAgain s a then State.step s a else none) (State.init 1) (answered (-13)) = some s ∧
    s.channel 0 = some r ∧ (r.lorieResourcesShm 5 false true true).1.error = -13 ∧
    let r := (r.lorieResourcesShm 5 false true true).2.1
    ∃ t, s.step (.shmAttach 0 100 5 false true true ⟨none, true, true, true, true⟩) = some t ∧ t.channel 0 = some r ∧
      (r.lorieResourcesShm 6 true true true).1.error = -eagain ∧
      (r.lorieResourcesShm 6 true true true).2.1.Outstanding :=
  ⟨_, _, rfl, rfl, rfl, _, rfl, rfl, rfl,
    suspended_while_outstanding (.tail (a := .shmAttach 0 100 5 false true true ⟨none, true, true, true, true⟩)
      (.of_exec_guarded (answered (-13)) rfl) trivial rfl) (i := 0) rfl rfl⟩

/-- The issuer answers with `EAGAIN`: the replayed request suspends the client, and nothing is awaited. -/
theorem suspended_by_issuer : ∃ s r, Reach State.step Free (State.init 1) s ∧ s.channel 0 = some r ∧
    (r.lorieResourcesShm 5 false true true).1.error = -eagain ∧
    ¬(r.lorieResourcesShm 5 false true true).2.1.Outstanding :=
  ⟨_, _, .of_exec (answered (-eagain)) rfl, rfl, rfl, by decide⟩

end Lorie.Resources
