import Lorie.Commands.Transport
import Mathlib.Data.List.Nodup

/-!
# The server handles the commands that were appended

- `Wellformed`: what an event says about its descriptor is so; every command is well-formed;
- `State.Sending`: what is written, and what the queue still has to write, is the wire of the appended events
  (`Sending.sendAll`, `Sending.flush`);
- `State.Receiving`: what the server has read is the wire of the events it handled and a part of the next one
  (`Receiving.recv`, `Receiving.recvFd`);
- `commands_delivered`: the wire and the handled events are prefixes in every run.
-/

namespace Lorie.Commands

open Lorie.Lib
open Lorie.Connection (Bytes eventSize eventOf eventOf_length)

/-! ## Events and their descriptors -/

/-- An event that tells the server to read a descriptor exactly when there is one. -/
structure Wellformed (a : Bytes × Option File) : Prop where
  length : a.1.length = eventSize
  kind : (a.1.u8 0 = 21 ∧ a.2 = none) ∨ (a.1.u8 0 = 31 ∧ a.1.hasFd = a.2.isSome) ∨
    ((a.1.u8 0 = 16 ∨ a.1.u8 0 = 17) ∧ a.2.isSome = true)

/-- Every command makes a well-formed event, when its descriptor is open. -/
theorem Command.wellformed (c : Command) {f : Option File} (hf : f.isSome = c.descriptor.isSome) :
    Wellformed (c.event, f) := by
  cases c with
  | output command =>
    obtain ⟨bs, hlen⟩ := command
    refine ⟨List.length_set.trans hlen, .inl ⟨?_, ?_⟩⟩
    · cases bs with
      | nil => cases hlen
      | cons b bs => rfl
    · cases f with
      | none => rfl
      | some f => cases hf
  | data d descriptor =>
    have hfields := d.fields.2
    have hmime := d.mime.2
    refine ⟨eventOf_length (by simp [eventSize, hfields, hmime]), .inr (.inl ⟨rfl, ?_⟩)⟩
    rw [hf]
    cases descriptor <;> rfl
  | wakeupCond d => exact ⟨eventOf_length (by decide), .inr (.inr ⟨.inl rfl, hf⟩)⟩
  | gpuDone d => exact ⟨eventOf_length (by decide), .inr (.inr ⟨.inr rfl, hf⟩)⟩

theorem wire_append (as bs : List (Bytes × Option File)) : wire (as ++ bs) = wire as ++ wire bs := List.flatMap_append

theorem wire_cons (a : Bytes × Option File) (as : List (Bytes × Option File)) : wire (a :: as) = wireOf a ++ wire as :=
  List.flatMap_cons

/-- A part of the wire that is not longer than an event is a part of the first event. -/
theorem header_of_prefix {as : List (Bytes × Option File)} (has : ∀ a ∈ as, Wellformed a) {xs : List Octet}
    (hx : xs <+: wire as) (hne : xs ≠ []) (hlen : xs.length ≤ eventSize) :
    ∃ a bs, as = a :: bs ∧ xs = (a.1.take xs.length).map plain := by
  cases as with
  | nil => exact absurd (List.prefix_nil.1 hx) hne
  | cons a bs =>
    refine ⟨a, bs, rfl, ?_⟩
    have ha := (has a List.mem_cons_self).length
    rw [wire_cons, wireOf, List.append_assoc] at hx
    have htake := List.prefix_iff_eq_take.1 hx
    rw [List.take_append_of_le_length (by rw [List.length_map]; omega)] at htake
    rw [List.map_take]
    exact htake

/-! ## The host -/

/-- What is left to write of a message. -/
def Message.pending (files : Nat → Option File) (m : Message) : List Octet :=
  (m.bytes.drop m.sent).map plain ++ (m.descriptor.map fun d => (33, files d)).toList

/-- What is left to write of the messages. -/
def pending (files : Nat → Option File) (ms : List Message) : List Octet := ms.flatMap (Message.pending files)

theorem pending_cons (files : Nat → Option File) (m : Message) (ms : List Message) :
    pending files (m :: ms) = m.pending files ++ pending files ms := List.flatMap_cons

/-- Only the duplicates matter. -/
theorem pending_congr {files files' : Nat → Option File} {ms : List Message}
    (h : ∀ d ∈ ms.filterMap Message.descriptor, files' d = files d) : pending files' ms = pending files ms := by
  induction ms with
  | nil => rfl
  | cons m ms ih =>
    rw [pending_cons, pending_cons]
    congr 1
    · cases hd : m.descriptor with
      | none => simp only [Message.pending, hd, Option.map_none]
      | some d =>
        have hfile := h d (List.mem_filterMap.2 ⟨m, List.mem_cons_self, hd⟩)
        simp only [Message.pending, hd, Option.map_some, hfile]
    · refine ih fun d hd => h d ?_
      obtain ⟨m', hm', hd'⟩ := List.mem_filterMap.1 hd
      exact List.mem_filterMap.2 ⟨m', List.mem_cons_of_mem _ hm', hd'⟩

namespace State

/-- The queue writes the wire of the appended events; its duplicates are open and each is there once. -/
structure Sending (s : State) : Prop where
  wellformed : ∀ a ∈ s.appended, Wellformed a
  whole : s.connected = true → s.written ++ pending s.files s.messages = wire s.appended
  part : s.written <+: wire s.appended
  nodup : s.owned.Nodup
  opened : ∀ d ∈ s.owned, s.files d ≠ none
  stream : s.consumed ++ s.unread = s.written

variable {s t : State}

theorem Sending.init (memory : { bs : Bytes // bs.length = eventSize }) (files : Nat → Option File) :
    (State.init memory files).Sending :=
  ⟨nofun, fun _ => rfl, List.prefix_rfl, List.nodup_nil, nofun, rfl⟩

/-- Other descriptors of the host change. -/
theorem Sending.setFile (h : s.Sending) {d : Nat} (hd : d ∉ s.owned) (f : Option File) :
    Sending { s with files := Function.update s.files d f } := by
  have hkeep : ∀ x ∈ s.owned, Function.update s.files d f x = s.files x := by
    intro x hx
    refine Function.update_of_ne ?_ _ _
    rintro rfl
    exact hd hx
  refine ⟨h.wellformed, fun hc => ?_, h.part, h.nodup, fun x hx => ?_, h.stream⟩
  · rw [← h.whole hc]
    congr 1
    exact pending_congr hkeep
  · show Function.update s.files d f x ≠ none
    rw [hkeep x hx]
    exact h.opened x hx

theorem Sending.disconnect (h : s.Sending) : s.disconnect.Sending :=
  ⟨h.wellformed, nofun, h.part, List.nodup_nil, nofun, h.stream⟩

/-- An event is appended with an open duplicate of its descriptor, or without one. -/
theorem Sending.enqueue (h : s.Sending) (hc : s.connected = true) {c : Command} {copy : Option Nat}
    (hfresh : ∀ n ∈ copy, n ∉ s.owned) (hopen : ∀ n ∈ copy, s.files n ≠ none)
    (hcopy : copy.isSome = c.descriptor.isSome) : (s.enqueue c copy).Sending := by
  have hsome : (copy.bind s.files).isSome = c.descriptor.isSome := by
    rw [← hcopy]
    cases copy with
    | none => rfl
    | some n =>
      show (s.files n).isSome = true
      exact Option.isSome_iff_ne_none.2 (hopen n rfl)
  have hevent : Message.pending s.files ⟨c.event, 0, copy⟩ = wireOf (c.event, copy.bind s.files) := by
    cases copy with
    | none => rfl
    | some n =>
      obtain ⟨f, hf⟩ := Option.ne_none_iff_exists'.1 (hopen n rfl)
      simp only [Message.pending, wireOf, List.drop_zero, Option.map_some, Option.bind_some, hf]
  have howned : (s.enqueue c copy).owned = s.owned ++ copy.toList := by
    simp only [owned, State.enqueue, List.filterMap_append]
    cases copy <;> rfl
  have hwhole : s.written ++ pending s.files (s.messages ++ [⟨c.event, 0, copy⟩]) =
      wire (s.appended ++ [(c.event, copy.bind s.files)]) := by
    rw [wire_append, ← h.whole hc, pending, List.flatMap_append, List.append_assoc]
    congr 2
    simp only [List.flatMap_cons, List.flatMap_nil, List.append_nil, wire, hevent]
  refine ⟨?_, fun _ => hwhole, ⟨_, hwhole⟩, ?_, ?_, h.stream⟩
  · intro a ha
    rcases List.mem_append.1 ha with ha | ha
    · exact h.wellformed a ha
    · rw [List.mem_singleton.1 ha]
      exact c.wellformed hsome
  · rw [howned]
    refine List.nodup_append.2 ⟨h.nodup, ?_, ?_⟩
    · cases copy
      · exact List.nodup_nil
      · exact List.nodup_singleton _
    · rintro a ha b hb rfl
      exact hfresh a (Option.mem_toList.1 hb) ha
  · intro d hd
    rw [howned] at hd
    rcases List.mem_append.1 hd with hd | hd
    · exact h.opened d hd
    · exact hopen d (Option.mem_toList.1 hd)

/-- The looper moves. -/
theorem Sending.setHost (h : s.Sending) {stage : HostStage} (ht : t = { s with host := stage }) : t.Sending := by
  subst ht
  exact ⟨h.wellformed, h.whole, h.part, h.nodup, h.opened, h.stream⟩

theorem Sending.append (h : s.Sending) (hc : s.connected = true) {c : Command} {copy : Option Nat} {memory : Bool}
    (hcopy : s.Duplicates c copy) (ht : s.append c copy memory = some t) : t.Sending := by
  unfold State.append at ht
  split at ht
  · cases ht
  · split at ht
    · rename_i hd
      split at ht
      · cases ht
        exact h.enqueue hc nofun nofun (by rw [hd])
      · cases ht
    · cases ht
    · rename_i d n hd
      split at ht
      · cases ht
        obtain ⟨hopen, hfree⟩ := hcopy d hd n rfl
        have hn : n ∉ s.owned := fun hm => h.opened n hm hfree
        refine Sending.enqueue (h.setFile hn (s.files d)) hc ?_ ?_ ?_
        · rintro m hm
          cases hm
          exact hn
        · rintro m hm
          cases hm
          show Function.update s.files n (s.files d) n ≠ none
          rw [Function.update_self]
          exact hopen
        · rw [hd]
          rfl
      · cases ht

theorem Sending.sendAll (h : s.Sending) (hc : s.connected = true) {c : Command} {copy : Option Nat} {memory : Bool}
    (hcopy : s.Duplicates c copy) : (s.sendAll c copy memory).Sending := by
  unfold State.sendAll
  split
  · rename_i t ht
    exact (h.append hc hcopy ht).setHost rfl
  · exact h.disconnect

/-- The front of the first message is written. -/
theorem Sending.write (h : s.Sending) (hc : s.connected = true) {m m' : Message} {ms : List Message} {os : List Octet}
    {files : Nat → Option File} (hs : s.messages = m :: ms) (hm : m.pending s.files = os ++ m'.pending files)
    (hfiles : ∀ d ∈ (m' :: ms).filterMap Message.descriptor, files d = s.files d)
    (hsub : ((m' :: ms).filterMap Message.descriptor).Sublist s.owned) :
    (State.write { s with messages := m' :: ms, files := files } os).Sending := by
  have hwhole : s.written ++ os ++ pending files (m' :: ms) = wire s.appended := by
    have hrest : pending files ms = pending s.files ms := by
      refine pending_congr fun d hd => hfiles d ?_
      obtain ⟨x, hx, hxd⟩ := List.mem_filterMap.1 hd
      exact List.mem_filterMap.2 ⟨x, List.mem_cons_of_mem _ hx, hxd⟩
    rw [← h.whole hc, hs, pending_cons, pending_cons, hm, hrest]
    simp only [List.append_assoc]
  refine ⟨h.wellformed, fun _ => hwhole, ⟨_, hwhole⟩, h.nodup.sublist hsub, ?_, ?_⟩
  · intro d hd
    show files d ≠ none
    rw [hfiles d hd]
    exact h.opened d (hsub.subset hd)
  · show s.consumed ++ (s.unread ++ os) = s.written ++ os
    rw [← List.append_assoc, h.stream]

/-- One turn of the loop. -/
theorem Sending.flush (h : s.Sending) (hc : s.connected = true) {a : Answer} (ht : s.flush a = some t) : t.Sending := by
  unfold State.flush at ht
  cases hs : s.messages with
  | nil =>
    simp only [hs] at ht
    cases ht
    exact h.setHost (by rw [hs])
  | cons m ms =>
    have howned : s.owned = (m :: ms).filterMap Message.descriptor := by rw [owned, hs]
    simp only [hs] at ht
    split at ht
    · cases a with
      | count k =>
        simp only at ht
        split at ht
        · cases ht
        · split at ht
          · cases ht
            refine h.write hc hs ?_ (fun _ _ => rfl) ?_
            · simp only [Message.pending]
              rw [← List.append_assoc, ← List.map_append, ← List.drop_drop]
              congr 2
              have hdrop := List.take_append_drop (k + 1) (m.bytes.drop m.sent)
              rw [List.length_take]
              by_cases hk : k + 1 ≤ (m.bytes.drop m.sent).length
              · rw [Nat.min_eq_left hk]
                exact hdrop.symm
              · rw [Nat.min_eq_right (by omega), List.take_of_length_le (by omega), List.drop_length, List.append_nil]
            · rw [howned]
              exact List.Sublist.refl _
          · rename_i hsent
            split at ht
            · rename_i f hf
              cases ht
              obtain ⟨d, hd, hfd⟩ := Option.bind_eq_some_iff.1 hf
              have hcons : s.owned = d :: ms.filterMap Message.descriptor := by rw [howned, List.filterMap_cons, hd]
              have hnot : d ∉ ms.filterMap Message.descriptor := by
                have := h.nodup
                rw [hcons] at this
                exact (List.nodup_cons.1 this).1
              refine h.write hc hs ?_ ?_ ?_
              · simp only [Message.pending, hd, Option.map_some, hfd, Option.map_none]
                rw [List.drop_eq_nil_of_le (by omega)]
                rfl
              · intro x hx
                have hne : m.descriptor ≠ some x := by
                  rw [hd]
                  rintro heq
                  cases heq
                  exact hnot hx
                exact if_neg hne
              · rw [hcons]
                exact List.sublist_cons_self _ _
            · cases ht
      | again =>
        cases ht
        exact h.setHost (by rw [hs])
      | interrupted =>
        cases ht
        exact h
      | failed =>
        cases ht
        exact h.disconnect
    · rename_i hdone
      cases ht
      rw [not_or] at hdone
      have hd : m.descriptor = none := by simpa using hdone.2
      have hnil : m.pending s.files = [] := by
        simp only [Message.pending, hd, Option.map_none]
        rw [List.drop_eq_nil_of_le (by omega)]
        rfl
      have hrest : s.owned = ms.filterMap Message.descriptor := by rw [howned, List.filterMap_cons, hd]
      refine ⟨h.wellformed, fun _ => ?_, h.part, ?_, ?_, h.stream⟩
      · have := h.whole hc
        rw [hs, pending_cons, hnil] at this
        exact this
      · show (ms.filterMap Message.descriptor).Nodup
        rw [← hrest]
        exact h.nodup
      · intro d hd
        refine h.opened d ?_
        rw [hrest]
        exact hd

/-! ## The server -/

/-- The server is not in the middle of an event that it has read. -/
def Quiet (s : State) : Prop := s.server = .idle ∨ s.server = .again ∨ s.server = .fionread

/-- A part of a header has been read behind the events that were handled. -/
structure AtHeader (s : State) : Prop where
  handled : s.dispatched <+: s.appended
  memory : s.incoming.memory.length = eventSize
  filled : s.incoming.filled < eventSize
  consumed : s.consumed = wire s.dispatched ++ (s.incoming.memory.take s.incoming.filled).map plain

/-- The header of an event with a descriptor has been read behind the events that were handled. -/
structure AtDescriptor (s : State) (e : Bytes) (f : File) : Prop where
  handled : s.dispatched ++ [(e, some f)] <+: s.appended
  memory : s.incoming.memory.length = eventSize
  filled : s.incoming.filled = 0
  consumed : s.consumed = wire s.dispatched ++ e.map plain

/-- Where the server stands in the stream; behind the end of the stream it may have lost its place. -/
inductive Receiving (s : State) : Prop
  | header : s.Quiet → s.AtHeader → Receiving s
  | descriptor (e : Bytes) (f : File) : s.server = .descriptor e → s.AtDescriptor e f → Receiving s
  | ended : s.Quiet → s.closed = true → s.unread = [] → s.dispatched <+: s.appended → Receiving s
  | gone : s.server = .gone → s.dispatched <+: s.appended → Receiving s

theorem Receiving.init (memory : { bs : Bytes // bs.length = eventSize }) (files : Nat → Option File) :
    (State.init memory files).Receiving :=
  .header (.inl rfl) ⟨List.prefix_rfl, memory.2, Nat.zero_lt_succ _, rfl⟩

theorem Receiving.handled (h : s.Receiving) : s.dispatched <+: s.appended := by
  cases h with
  | header _ h => exact h.handled
  | descriptor _ _ _ h => exact (List.prefix_append _ _).trans h.handled
  | ended _ _ _ h => exact h
  | gone _ h => exact h

/-- What a step of the host does to the server: more events, and bytes while the socket is open. -/
structure HostStep (s t : State) : Prop where
  incoming : t.incoming = s.incoming
  server : t.server = s.server
  dispatched : t.dispatched = s.dispatched
  consumed : t.consumed = s.consumed
  appended : s.appended <+: t.appended
  closed : s.closed = true → t.closed = true ∧ t.unread = s.unread

/-- What the host does keeps the place of the server. -/
theorem Receiving.host (h : s.Receiving) (hstep : HostStep s t) : t.Receiving := by
  obtain ⟨hi, hs, hd, hc, ha, hclosed⟩ := hstep
  have hquiet : s.Quiet → t.Quiet := by
    intro hq
    rw [Quiet, hs]
    exact hq
  cases h with
  | header hq h =>
    refine .header (hquiet hq) ⟨?_, ?_, ?_, ?_⟩
    · rw [hd]
      exact h.handled.trans ha
    · rw [hi]
      exact h.memory
    · rw [hi]
      exact h.filled
    · rw [hc, hd, hi]
      exact h.consumed
  | descriptor e f hq h =>
    refine .descriptor e f (hs.trans hq) ⟨?_, ?_, ?_, ?_⟩
    · rw [hd]
      exact h.handled.trans ha
    · rw [hi]
      exact h.memory
    · rw [hi]
      exact h.filled
    · rw [hc, hd]
      exact h.consumed
  | ended hq hcl hu h =>
    obtain ⟨hcl', hu'⟩ := hclosed hcl
    refine .ended (hquiet hq) hcl' (hu'.trans hu) ?_
    rw [hd]
    exact h.trans ha
  | gone hq h =>
    refine .gone (hs.trans hq) ?_
    rw [hd]
    exact h.trans ha

theorem Receiving.hangUp (h : s.Receiving) : s.hangUp.Receiving := .gone rfl h.handled

/-- The server moves between events. -/
theorem Receiving.move (h : s.Receiving) (hq : s.Quiet) {stage : ServerStage}
    (hstage : stage = .idle ∨ stage = .again ∨ stage = .fionread) : Receiving { s with server := stage } := by
  cases h with
  | header _ h => exact .header hstage ⟨h.handled, h.memory, h.filled, h.consumed⟩
  | descriptor _ _ hs _ => rcases hq with hq | hq | hq <;> (rw [hs] at hq; cases hq)
  | ended _ hc hu h => exact .ended hstage hc hu h
  | gone hs _ => rcases hq with hq | hq | hq <;> (rw [hs] at hq; cases hq)

/-- An event that was read whole is handled. -/
theorem handled_atHeader {e : Bytes} {f : Option File} {bs : List (Bytes × Option File)}
    (happ : s.appended = s.dispatched ++ (e, f) :: bs) (hm : s.incoming.memory.length = eventSize)
    (hf : s.incoming.filled = 0) (hc : s.consumed = wire s.dispatched ++ wireOf (e, f)) :
    (s.handled e f).Receiving := by
  refine .header (.inr (.inr rfl)) ⟨?_, hm, ?_, ?_⟩
  · refine ⟨bs, ?_⟩
    show s.dispatched ++ [(e, f)] ++ bs = s.appended
    rw [happ, List.append_assoc]
    rfl
  · show s.incoming.filled < eventSize
    rw [hf]
    decide
  · show s.consumed = wire (s.dispatched ++ [(e, f)]) ++ (s.incoming.memory.take s.incoming.filled).map plain
    rw [hc, hf, wire_append, wire_cons, List.append_assoc]
    simp [wire]

/-- An event that was read whole is sorted by its type. -/
theorem dispatch_receiving {a : Bytes × Option File} {bs : List (Bytes × Option File)} (ha : Wellformed a)
    (happ : s.appended = s.dispatched ++ a :: bs) (hm : s.incoming.memory.length = eventSize)
    (hf : s.incoming.filled = 0) (hc : s.consumed = wire s.dispatched ++ a.1.map plain) :
    (s.dispatch a.1).Receiving := by
  obtain ⟨e, f⟩ := a
  have halone : f = none → (s.handled e none).Receiving := by
    rintro rfl
    refine handled_atHeader happ hm hf ?_
    rw [hc, wireOf]
    simp
  have hwith : f.isSome = true → Receiving { s with server := .descriptor e } := by
    intro hsome
    obtain ⟨f, rfl⟩ := Option.isSome_iff_exists.1 hsome
    refine .descriptor e f rfl ⟨?_, hm, hf, hc⟩
    refine ⟨bs, ?_⟩
    show s.dispatched ++ [(e, some f)] ++ bs = s.appended
    rw [happ, List.append_assoc]
    rfl
  rcases ha.kind with ⟨ht, hn⟩ | ⟨ht, hfd⟩ | ⟨ht | ht, hsome⟩
  all_goals
    simp only [] at ht
    simp only [State.dispatch, ht]
  · exact halone hn
  · simp only [] at hfd
    show Receiving (if e.hasFd = true then _ else _)
    rw [hfd]
    cases f with
    | none => exact halone rfl
    | some f => exact hwith rfl
  · exact hwith hsome
  · exact hwith hsome

/-- What the server takes next continues the wire. -/
theorem Sending.next (h : s.Sending) (xs : List Octet) (hx : xs <+: s.unread) : s.consumed ++ xs <+: wire s.appended := by
  refine List.IsPrefix.trans ?_ h.part
  rw [← h.stream]
  exact (List.prefix_append_right_inj _).2 hx

theorem map_fst_plain (bs : Bytes) : (bs.map plain).map Prod.fst = bs := by
  rw [List.map_map]
  exact List.map_id bs

/-- More of a header is read. -/
theorem AtHeader.recv (h : s.AtHeader) (hs : s.Sending) {n : Nat} (hn : 0 < n) (hle : n ≤ eventSize - s.incoming.filled)
    (hne : s.unread ≠ []) :
    ∃ a bs, s.appended = s.dispatched ++ a :: bs ∧
      let b := s.incoming.write ((s.unread.take n).map Prod.fst)
      b.memory.length = eventSize ∧ b.filled ≤ eventSize ∧ b.memory.take b.filled = a.1.take b.filled ∧
        s.consumed ++ s.unread.take n = wire s.dispatched ++ (a.1.take b.filled).map plain := by
  obtain ⟨rest, hrest⟩ := h.handled
  have hnext := hs.next (s.unread.take n) (List.take_prefix _ _)
  rw [h.consumed, ← hrest, wire_append, List.append_assoc, List.prefix_append_right_inj] at hnext
  have hfront : (s.incoming.memory.take s.incoming.filled).length = s.incoming.filled := by
    rw [List.length_take]
    have := h.memory
    have := h.filled
    omega
  have hgot : (s.unread.take n).length ≤ eventSize - s.incoming.filled := by
    rw [List.length_take]
    omega
  have hpos : s.unread.take n ≠ [] := by
    intro hnil
    rw [List.take_eq_nil_iff] at hnil
    rcases hnil with hnil | hnil
    · omega
    · exact hne hnil
  have hrests : ∀ a ∈ rest, Wellformed a := by
    intro a ha
    refine hs.wellformed a ?_
    rw [← hrest]
    exact List.mem_append_right _ ha
  obtain ⟨a, bs, rfl, hxs⟩ := header_of_prefix hrests hnext (by simp [hpos])
    (by rw [List.length_append, List.length_map, hfront]; have := h.filled; omega)
  refine ⟨a, bs, hrest.symm, ?_⟩
  intro b
  have hfilled : b.filled = s.incoming.filled + (s.unread.take n).length := by
    show s.incoming.filled + ((s.unread.take n).map Prod.fst).length = _
    rw [List.length_map]
  have hroom : s.incoming.filled + ((s.unread.take n).map Prod.fst).length ≤ s.incoming.memory.length := by
    rw [List.length_map, h.memory]
    have := h.filled
    omega
  rw [List.length_append, List.length_map, hfront, ← hfilled] at hxs
  refine ⟨(Buffer.write_length hroom).trans h.memory, ?_, ?_, ?_⟩
  · rw [hfilled]
    have := h.filled
    omega
  · have hbytes := congrArg (List.map Prod.fst) hxs
    rw [List.map_append, map_fst_plain, map_fst_plain] at hbytes
    rw [← hbytes]
    exact Buffer.write_take hroom
  · rw [h.consumed, List.append_assoc, hxs]

theorem Receiving.recv (h : s.Receiving) (hs : s.Sending) (hq : s.server = .again) (a : Answer) :
    (s.recv a).Receiving := by
  have hquiet : s.Quiet := .inr (.inl hq)
  cases a with
  | again => exact h.move hquiet (.inl rfl)
  | interrupted => exact h.move hquiet (.inl rfl)
  | failed => exact h.hangUp
  | count k =>
    unfold State.recv
    simp only
    split
    · split
      · exact h.hangUp
      · exact h.move hquiet (.inl rfl)
    · rename_i hne
      cases h with
      | header _ h =>
        obtain ⟨a, bs, happ, hmem, hle, hfront, hcons⟩ :=
          h.recv hs (n := min (k + 1) (eventSize - s.incoming.filled)) (by have := h.filled; omega)
            (Nat.min_le_right _ _) hne
        have ha : Wellformed a := hs.wellformed a (by rw [happ]; simp)
        split
        · rename_i hfull
          have hwhole : a.1.take eventSize = a.1 := List.take_of_length_le (Nat.le_of_eq ha.length)
          rw [hfull, List.take_of_length_le (Nat.le_of_eq hmem), hwhole] at hfront
          rw [hfull, hwhole] at hcons
          have hdis := dispatch_receiving (s := { s.consume (min (k + 1) (eventSize - s.incoming.filled)) with
            incoming := { s.incoming.write ((s.unread.take (min (k + 1) (eventSize - s.incoming.filled))).map Prod.fst)
              with filled := 0 } }) ha happ hmem rfl hcons
          rw [← hfront] at hdis
          exact hdis
        · rename_i hpart
          refine .header (.inl rfl) ⟨⟨_, happ.symm⟩, hmem, Nat.lt_of_le_of_ne hle hpart, ?_⟩
          show s.consumed ++ _ = wire s.dispatched ++ _
          rw [hcons, ← hfront]
      | descriptor _ _ hd _ =>
        rw [hd] at hq
        cases hq
      | ended _ _ hnil _ => exact absurd hnil hne
      | gone hd _ =>
        rw [hd] at hq
        cases hq

theorem Receiving.recvFd (h : s.Receiving) (hs : s.Sending) {e : Bytes} (hq : s.server = .descriptor e)
    (ht : s.recvFd e = some t) : t.Receiving := by
  cases h with
  | header hquiet _ => rcases hquiet with hx | hx | hx <;> (rw [hx] at hq; cases hq)
  | ended hquiet _ _ _ => rcases hquiet with hx | hx | hx <;> (rw [hx] at hq; cases hq)
  | gone hx _ =>
    rw [hx] at hq
    cases hq
  | descriptor e' f hd h =>
    rw [hd] at hq
    cases hq
    have hdone := (List.prefix_append _ _).trans h.handled
    unfold State.recvFd at ht
    cases hu : s.unread with
    | nil =>
      simp only [hu] at ht
      split at ht
      · rename_i hclosed
        cases ht
        unfold noDescriptor
        split
        · exact .ended (.inr (.inr rfl)) hclosed hu hdone
        · exact .gone rfl hdone
      · cases ht
    | cons o os =>
      obtain ⟨bs, hbs⟩ := h.handled
      have hnext := hs.next [o] (by rw [hu]; exact ⟨os, rfl⟩)
      rw [h.consumed, ← hbs, wire_append, wire_append, List.append_assoc, List.append_assoc,
        List.prefix_append_right_inj] at hnext
      have hone : wire [(e, some f)] = e.map plain ++ [(33, some f)] := by simp [wire, wireOf]
      rw [hone, List.append_assoc, List.prefix_append_right_inj] at hnext
      obtain ⟨_, heq⟩ := hnext
      cases heq
      simp only [hu] at ht
      cases ht
      have happ : s.appended = s.dispatched ++ (e, some f) :: bs := by
        rw [← hbs, List.append_assoc]
        rfl
      refine handled_atHeader (s := s.consume 1) happ h.memory h.filled ?_
      show s.consumed ++ s.unread.take 1 = wire s.dispatched ++ _
      rw [h.consumed, hu, List.append_assoc]
      rfl

/-- What a step of the server does to the host: nothing. -/
structure ServerStep (s t : State) : Prop where
  appended : t.appended = s.appended
  written : t.written = s.written
  messages : t.messages = s.messages
  files : t.files = s.files
  connected : t.connected = s.connected
  stream : t.consumed ++ t.unread = s.consumed ++ s.unread

/-- The place of the server does not matter to the host. -/
theorem Sending.server (h : s.Sending) (hstep : ServerStep s t) : t.Sending := by
  obtain ⟨ha, hw, hm, hf, hc, hst⟩ := hstep
  have howned : t.owned = s.owned := by rw [owned, hm, owned]
  refine ⟨?_, ?_, ?_, ?_, ?_, ?_⟩
  · rw [ha]
    exact h.wellformed
  · rw [ha, hw, hm, hf, hc]
    exact h.whole
  · rw [ha, hw]
    exact h.part
  · rw [howned]
    exact h.nodup
  · rw [howned, hf]
    exact h.opened
  · rw [hst, hw]
    exact h.stream

theorem ServerStep.dispatch (h : ServerStep s t) (e : Bytes) : ServerStep s (t.dispatch e) := by
  unfold State.dispatch
  repeat' split
  all_goals exact ⟨h.appended, h.written, h.messages, h.files, h.connected, h.stream⟩

theorem ServerStep.noDescriptor (h : ServerStep s t) (e : Bytes) : ServerStep s (t.noDescriptor e) := by
  unfold State.noDescriptor
  split
  all_goals exact ⟨h.appended, h.written, h.messages, h.files, h.connected, h.stream⟩

theorem ServerStep.consume (s : State) (n : Nat) : ServerStep s (s.consume n) := by
  refine ⟨rfl, rfl, rfl, rfl, rfl, ?_⟩
  show s.consumed ++ s.unread.take n ++ s.unread.drop n = s.consumed ++ s.unread
  rw [List.append_assoc, List.take_append_drop]

theorem ServerStep.recv (s : State) (a : Answer) : ServerStep s (s.recv a) := by
  unfold State.recv
  cases a with
  | again => exact ⟨rfl, rfl, rfl, rfl, rfl, rfl⟩
  | interrupted => exact ⟨rfl, rfl, rfl, rfl, rfl, rfl⟩
  | failed => exact ⟨rfl, rfl, rfl, rfl, rfl, rfl⟩
  | count k =>
    have hstream := (ServerStep.consume s (min (k + 1) (eventSize - s.incoming.filled))).stream
    simp only
    split
    · split
      · exact ⟨rfl, rfl, rfl, rfl, rfl, rfl⟩
      · exact ⟨rfl, rfl, rfl, rfl, rfl, rfl⟩
    · split
      · refine ServerStep.dispatch ?_ _
        exact ⟨rfl, rfl, rfl, rfl, rfl, hstream⟩
      · exact ⟨rfl, rfl, rfl, rfl, rfl, hstream⟩

theorem ServerStep.recvFd {e : Bytes} (ht : s.recvFd e = some t) : ServerStep s t := by
  have hstream := (ServerStep.consume s 1).stream
  unfold State.recvFd at ht
  split at ht
  · split at ht
    · cases ht
      exact ServerStep.noDescriptor ⟨rfl, rfl, rfl, rfl, rfl, rfl⟩ e
    · cases ht
  · cases ht
    exact ⟨rfl, rfl, rfl, rfl, rfl, hstream⟩
  · cases ht
    exact (ServerStep.consume s 1).noDescriptor e

theorem HostStep.disconnect (s : State) : HostStep s s.disconnect :=
  ⟨rfl, rfl, rfl, rfl, List.prefix_rfl, fun _ => ⟨rfl, rfl⟩⟩

theorem HostStep.append {c : Command} {copy : Option Nat} {memory : Bool} (ht : s.append c copy memory = some t) :
    HostStep s t := by
  unfold State.append at ht
  split at ht
  · cases ht
  · split at ht
    · split at ht
      · cases ht
        exact ⟨rfl, rfl, rfl, rfl, List.prefix_append _ _, fun hc => ⟨hc, rfl⟩⟩
      · cases ht
    · cases ht
    · split at ht
      · cases ht
        exact ⟨rfl, rfl, rfl, rfl, List.prefix_append _ _, fun hc => ⟨hc, rfl⟩⟩
      · cases ht

theorem HostStep.sendAll (s : State) (c : Command) (copy : Option Nat) (memory : Bool) :
    HostStep s (s.sendAll c copy memory) := by
  unfold State.sendAll
  split
  · rename_i t ht
    obtain ⟨hi, hs, hd, hc, ha, hcl⟩ := HostStep.append ht
    exact ⟨hi, hs, hd, hc, ha, hcl⟩
  · exact .disconnect s

theorem HostStep.flush {a : Answer} (ht : s.flush a = some t) : HostStep s t := by
  unfold State.flush at ht
  split at ht
  · cases ht
    exact ⟨rfl, rfl, rfl, rfl, List.prefix_rfl, fun hc => ⟨hc, rfl⟩⟩
  · split at ht
    · cases a with
      | count k =>
        simp only at ht
        split at ht
        · cases ht
        · rename_i hopen
          split at ht
          · cases ht
            exact ⟨rfl, rfl, rfl, rfl, List.prefix_rfl, fun hc => absurd hc hopen⟩
          · split at ht
            · cases ht
              exact ⟨rfl, rfl, rfl, rfl, List.prefix_rfl, fun hc => absurd hc hopen⟩
            · cases ht
      | again =>
        cases ht
        exact ⟨rfl, rfl, rfl, rfl, List.prefix_rfl, fun hc => ⟨hc, rfl⟩⟩
      | interrupted =>
        cases ht
        exact ⟨rfl, rfl, rfl, rfl, List.prefix_rfl, fun hc => ⟨hc, rfl⟩⟩
      | failed =>
        cases ht
        exact .disconnect s
    · cases ht
      exact ⟨rfl, rfl, rfl, rfl, List.prefix_rfl, fun hc => ⟨hc, rfl⟩⟩

/-- A file is opened or closed. -/
theorem HostStep.setFile (s : State) (d : Nat) (f : Option File) :
    HostStep s { s with files := Function.update s.files d f } :=
  ⟨rfl, rfl, rfl, rfl, List.prefix_rfl, fun hc => ⟨hc, rfl⟩⟩

/-- The looper moves. -/
theorem HostStep.setHost (s : State) (stage : HostStage) : HostStep s { s with host := stage } :=
  ⟨rfl, rfl, rfl, rfl, List.prefix_rfl, fun hc => ⟨hc, rfl⟩⟩

/-! ## Whole runs -/

/-- The two parties agree. -/
def Inv (s : State) : Prop := s.Sending ∧ s.Receiving

theorem Inv.step {a : Action} (h : s.Inv) (hs : step s a = some t) : t.Inv := by
  obtain ⟨hsend, hrecv⟩ := h
  cases a with
  | openFile d f =>
    simp only [Commands.step] at hs
    split at hs
    · rename_i hfree
      cases hs
      exact ⟨hsend.setFile (fun hm => hsend.opened d hm hfree) _, hrecv.host (.setFile s d _)⟩
    · cases hs
  | closeFile d =>
    simp only [Commands.step] at hs
    split at hs
    · cases hs
    · rename_i hd
      cases hs
      exact ⟨hsend.setFile hd _, hrecv.host (.setFile s d _)⟩
  | sendAll c copy memory =>
    simp only [Commands.step] at hs
    split at hs
    · rename_i hg
      cases hs
      exact ⟨hsend.sendAll hg.1 hg.2.2, hrecv.host (.sendAll s c copy memory)⟩
    · cases hs
  | flush a =>
    simp only [Commands.step] at hs
    split at hs
    · rename_i hg
      exact ⟨hsend.flush hg.1 hs, hrecv.host (.flush hs)⟩
    · cases hs
  | watch ok =>
    simp only [Commands.step] at hs
    split at hs
    · cases hs
      cases ok
      · exact ⟨hsend.disconnect, hrecv.host (.disconnect s)⟩
      · exact ⟨hsend.setHost rfl, hrecv.host (.setHost s .idle)⟩
    · cases hs
  | writable =>
    simp only [Commands.step] at hs
    split at hs
    · cases hs
      exact ⟨hsend.setHost rfl, hrecv.host (.setHost s .flushing)⟩
    · cases hs
  | disconnect =>
    simp only [Commands.step] at hs
    split at hs
    · cases hs
      exact ⟨hsend.disconnect, hrecv.host (.disconnect s)⟩
    · cases hs
  | shutdown =>
    cases hs
    exact ⟨hsend.server ⟨rfl, rfl, rfl, rfl, rfl, rfl⟩,
      hrecv.host ⟨rfl, rfl, rfl, rfl, List.prefix_rfl, fun _ => ⟨rfl, rfl⟩⟩⟩
  | ready error =>
    simp only [Commands.step] at hs
    split at hs
    · rename_i hidle
      cases hs
      cases error
      · exact ⟨hsend.server ⟨rfl, rfl, rfl, rfl, rfl, rfl⟩, hrecv.move (.inl hidle) (.inr (.inl rfl))⟩
      · exact ⟨hsend.server ⟨rfl, rfl, rfl, rfl, rfl, rfl⟩, hrecv.hangUp⟩
    · cases hs
  | recv a =>
    simp only [Commands.step] at hs
    split at hs
    · rename_i hq
      cases hs
      exact ⟨hsend.server (.recv s a), hrecv.recv hsend hq a⟩
    · cases hs
  | recvFd =>
    simp only [Commands.step] at hs
    split at hs
    · rename_i e hq
      exact ⟨hsend.server (.recvFd hs), hrecv.recvFd hsend hq hs⟩
    · cases hs
  | readName k =>
    simp only [Commands.step] at hs
    split at hs
    · rename_i e hq
      -- no command of the host makes the server read a name
      cases hrecv with
      | header hx _ => rcases hx with hx | hx | hx <;> (rw [hx] at hq; cases hq)
      | descriptor _ _ hx _ =>
        rw [hx] at hq
        cases hq
      | ended hx _ _ _ => rcases hx with hx | hx | hx <;> (rw [hx] at hq; cases hq)
      | gone hx _ =>
        rw [hx] at hq
        cases hq
    · cases hs
  | fionread ok =>
    simp only [Commands.step] at hs
    split at hs
    · rename_i hq
      cases hs
      refine ⟨hsend.server ⟨rfl, rfl, rfl, rfl, rfl, rfl⟩, hrecv.move (.inr (.inr hq)) ?_⟩
      split
      · exact .inr (.inl rfl)
      · exact .inl rfl
    · cases hs

end State

/-- **The transport delivers the appended commands**: in every run the bytes on the wire are a prefix of the wire of the
appended events, each followed by a marker with its file exactly when it has one, and the server handles a prefix of the
appended events, each with its own file. -/
theorem commands_delivered {memory : { bs : Bytes // bs.length = eventSize }} {files : Nat → Option File} {s : State}
    (h : Reach step Free (State.init memory files) s) :
    s.written <+: wire s.appended ∧ s.dispatched <+: s.appended := by
  have hinv : s.Inv :=
    h.invariant (I := State.Inv) ⟨.init memory files, .init memory files⟩ fun _ _ _ hi _ hs => hi.step hs
  exact ⟨hinv.1.part, hinv.2.handled⟩

/-- The host closes its descriptor while the queue writes a part of the event; the server reads that part first. -/
def fragmented : List Action :=
  [.openFile 3 9, .sendAll (.wakeupCond 3) (some 4) true, .closeFile 3, .flush (.count 99), .ready false,
    .recv (.count 999), .flush .interrupted, .flush (.count 999), .flush (.count 0), .flush (.count 0), .flush (.count 0),
    .watch true, .ready false, .recv (.count 999), .recvFd, .fionread true]

theorem commands_delivered_fragmented :
    ∃ s, exec step (State.init ⟨List.replicate eventSize 7, List.length_replicate⟩ fun _ => none) fragmented = some s ∧
      s.dispatched = [(eventOf [16], some 9)] ∧
      s.written <+: wire s.appended ∧ s.dispatched <+: s.appended := by
  have hrun : (exec step (State.init ⟨List.replicate eventSize 7, List.length_replicate⟩ fun _ => none) fragmented).map
      (·.dispatched) = some [(eventOf [16], some 9)] := by
    decide +kernel
  obtain ⟨s, hexec, hdispatched⟩ := Option.map_eq_some_iff.mp hrun
  exact ⟨s, hexec, hdispatched, commands_delivered (.of_exec fragmented hexec)⟩

end Lorie.Commands
