import Lorie.Outputs.Step

/-!
# Frames are committed whole

The layers of a frame are collected in the record of the output until the frame event commits them. A record may be made
while the layers of a frame arrive, and it outlives the connection.

- `StreamOk`: the events that are left on a connection complete the layers that were received (`streamOk_append`,
  `streamOk_frameEvents`);
- `Whole`: records are made between two frames of the output, and no layer is pending when a connection is attached;
- `committed_whole`: then the committed layers are those that were sent for the frame. Otherwise a frame loses its first
  layers (`committed_suffix`) or gets layers of an earlier connection (`committed_leftover`).
-/

namespace Lorie.Outputs

open Lorie.Lib

/-! ## The layers on a connection -/

/-- The layers of an output that are collected when the event was received. -/
def collect (id : Nat) (p : List Layer) : Event → List Layer
  | .sharedServerState => p
  | .layer i l => if i = id then p ++ [l] else p
  | .frame i _ => if i = id then [] else p

/-- There is room for a layer, and a frame comes when all its layers are collected. -/
def EventOk (id : Nat) (p : List Layer) : Event → Prop
  | .sharedServerState => True
  | .layer i _ => i = id → p.length < maxFamilyLayers
  | .frame i f => i = id → p = f.sent

/-- The events complete the layers that are collected. -/
def StreamOk (id : Nat) : List Layer → List Event → Prop
  | _, [] => True
  | p, e :: es => EventOk id p e ∧ StreamOk id (collect id p e) es

section Stream

variable {id : Nat}

theorem streamOk_append {es fs : List Event} {p : List Layer} :
    StreamOk id p (es ++ fs) ↔ StreamOk id p es ∧ StreamOk id (es.foldl (collect id) p) fs := by
  induction es generalizing p with
  | nil => exact (iff_of_eq (true_and _)).symm
  | cons e es ih =>
    simp only [List.cons_append, StreamOk, List.foldl_cons]
    rw [ih, and_assoc]

/-- A connection may break after any event. -/
theorem StreamOk.take {es : List Event} {p : List Layer} (h : StreamOk id p es) (n : Nat) :
    StreamOk id p (es.take n) := by
  rw [← List.take_append_drop n es] at h
  exact (streamOk_append.1 h).1

/-- The layers of a frame, then the frame. -/
theorem streamOk_layers {i : Nat} {f : Frame} {ls p : List Layer} (hsent : p ++ ls = f.sent)
    (hmax : f.sent.length ≤ maxFamilyLayers) (h : i = id) : StreamOk id p (ls.map (Event.layer i) ++ [Event.frame i f]) ∧
      List.foldl (collect id) p (ls.map (Event.layer i) ++ [Event.frame i f]) = [] := by
  induction ls generalizing p with
  | nil =>
    rw [List.append_nil] at hsent
    constructor
    · exact ⟨fun _ => hsent, trivial⟩
    · exact if_pos h
  | cons l ls ih =>
    have hlen : p.length < maxFamilyLayers := by
      rw [← hsent, List.length_append, List.length_cons] at hmax
      omega
    have hstep : collect id p (.layer i l) = p ++ [l] := if_pos h
    have hnext := ih (p := p ++ [l]) (by rw [← hsent, List.append_assoc]; rfl)
    simp only [List.map_cons, List.cons_append, StreamOk, List.foldl_cons]
    rw [hstep]
    exact ⟨⟨fun _ => hlen, hnext.1⟩, hnext.2⟩

/-- The events of other outputs change nothing. -/
theorem streamOk_other {i : Nat} (hi : i ≠ id) {f : Frame} {ls p : List Layer} :
    StreamOk id p (ls.map (Event.layer i) ++ [Event.frame i f]) ∧
      List.foldl (collect id) p (ls.map (Event.layer i) ++ [Event.frame i f]) = p := by
  induction ls with
  | nil =>
    constructor
    · exact ⟨fun h => absurd h hi, trivial⟩
    · exact if_neg hi
  | cons l ls ih =>
    have hstep : collect id p (.layer i l) = p := if_neg hi
    simp only [List.map_cons, List.cons_append, StreamOk, List.foldl_cons]
    rw [hstep]
    exact ⟨⟨fun h => absurd h hi, ih.1⟩, ih.2⟩

/-- A published frame is complete, and leaves nothing collected. -/
theorem streamOk_frameEvents {i : Nat} {f : Frame} (hmax : f.sent.length ≤ maxFamilyLayers) :
    StreamOk id [] (frameEvents i f) ∧ (frameEvents i f).foldl (collect id) [] = [] := by
  unfold frameEvents
  by_cases hi : i = id
  · exact streamOk_layers (List.nil_append _) hmax hi
  · exact streamOk_other hi

end Stream

theorem Selection.sent_length {o : Selection} {family : Family} {scheduled : List Nat}
    (h : family.layers.length ≤ maxFamilyLayers) : (o.frame family scheduled).sent.length ≤ maxFamilyLayers :=
  Nat.le_trans (List.length_filterMap_le _ _) h

namespace State

/-- The layers of an output that a connection has received since its last frame. -/
def received (s : State) (k id : Nat) : List Layer :=
  if s.renderer.attached = some k then s.renderer.delivered id else []

/-- The renderer is attached to the connection, or may still be. -/
def Live (s : State) (k : Nat) : Prop := s.renderer.attached = some k ∨ s.renderer.lastAttached < k

/-- A record is made only between two frames of its output, and a connection attached only when no layer is pending. -/
def Whole (s : State) : Action → Prop
  | .setOutputSurface id _ false => (∀ o ∈ s.renderer.outputs, o.id ≠ id) → s.renderer.delivered id = []
  | .attach _ => ∀ o ∈ s.renderer.outputs, o.pendingLayers = []
  | _ => True

instance (s : State) (a : Action) : Decidable (s.Whole a) :=
  match a with
  | .setOutputSurface id _ false =>
    inferInstanceAs (Decidable ((∀ o ∈ s.renderer.outputs, o.id ≠ id) → s.renderer.delivered id = []))
  | .attach _ => inferInstanceAs (Decidable (∀ o ∈ s.renderer.outputs, o.pendingLayers = []))
  | .setOutputSurface _ _ true | .bind .. | .release _ | .schedule _ | .redraw | .publish .. | .connect | .install
  | .hangup | .detach | .receive | .loop .. | .copy | .endDrain _ | .snapshot | .draw | .record | .abandon
  | .endDraw => .isTrue trivial

/-! ## The invariant -/

/-- What is left on the connections. -/
structure WireInv (s : State) : Prop where
  attached : ∀ k, s.renderer.attached = some k → k = s.renderer.lastAttached
  stream : ∀ k, s.Live k → ∀ id, StreamOk id (s.received k id) (s.chan k)
  complete : s.server.connected = true → s.Live s.server.conn →
    ∀ id, (s.chan s.server.conn).foldl (collect id) (s.received s.server.conn id) = []
  later : ∀ k, s.server.conn < k → s.chan k = [] ∧ ∀ id, s.received k id = []

/-- The committed layers and those that are pending. -/
structure RecordInv (s : State) : Prop where
  layers : ∀ o ∈ s.renderer.outputs, o.layers = o.frame.sent
  pending : ∀ k, s.renderer.attached = some k → ∀ o ∈ s.renderer.outputs, o.pendingLayers = s.renderer.delivered o.id

theorem WireInv.init : State.init.WireInv := by
  refine ⟨nofun, fun _ _ _ => trivial, nofun, fun _ _ => ⟨rfl, fun _ => rfl⟩⟩

theorem RecordInv.init : State.init.RecordInv := ⟨List.forall_mem_nil _, fun _ _ => List.forall_mem_nil _⟩

theorem WireInv.sameWire {s s' : State} (h : s.WireInv) (hw : SameWire s s') : s'.WireInv := by
  have hrec : ∀ k id, s'.received k id = s.received k id := by
    intro k id
    unfold received
    rw [hw.attached, hw.delivered]
  have hlive : ∀ k, s'.Live k → s.Live k := by
    intro k hk
    unfold Live at hk ⊢
    rwa [hw.attached, hw.lastAttached] at hk
  refine ⟨?_, ?_, ?_, ?_⟩
  · rw [hw.attached, hw.lastAttached]
    exact h.attached
  · intro k hk id
    rw [hrec, hw.chan]
    exact h.stream k (hlive k hk) id
  · intro hc hk id
    rw [hw.conn] at hk ⊢
    rw [hrec, hw.chan]
    exact h.complete (hw.connected hc) (hlive _ hk) id
  · intro k hk
    rw [hw.conn] at hk
    refine ⟨by rw [hw.chan]; exact (h.later k hk).1, fun id => ?_⟩
    rw [hrec]
    exact (h.later k hk).2 id

/-- A connection that is not attached yet has received nothing. -/
theorem WireInv.received_later {s : State} (h : s.WireInv) {k : Nat} (hk : s.renderer.lastAttached < k) (id : Nat) :
    s.received k id = [] := by
  unfold received
  refine if_neg fun ha => ?_
  have := h.attached k ha
  omega

/-- Complete frames are sent on the connection, or it breaks. -/
theorem WireInv.send {s : State} (h : s.WireInv) {es : List Event}
    (hes : ∀ id, StreamOk id [] es ∧ es.foldl (collect id) [] = []) (cut : Option Nat) : (s.send es cut).WireInv := by
  unfold State.send
  split
  · rename_i hconn
    -- the connection has received all the frames before
    have hall : s.Live s.server.conn → ∀ id, StreamOk id (s.received s.server.conn id) (s.chan s.server.conn ++ es) := by
      intro hk id
      refine streamOk_append.2 ⟨h.stream _ hk id, ?_⟩
      rw [h.complete hconn hk id]
      exact (hes id).1
    cases cut with
    | none =>
      refine ⟨h.attached, ?_, ?_, ?_⟩
      · intro k hk id
        by_cases hkc : k = s.server.conn
        · subst hkc
          simp only [Function.update_self]
          exact hall hk id
        · simp only [Function.update_of_ne hkc]
          exact h.stream k hk id
      · intro _ hk id
        simp only [Function.update_self, List.foldl_append]
        exact (congrArg (es.foldl (collect id)) (h.complete hconn hk id)).trans (hes id).2
      · intro k hk
        simp only [Function.update_of_ne (Nat.ne_of_gt hk)]
        exact h.later k hk
    | some n =>
      refine ⟨h.attached, ?_, nofun, ?_⟩
      · intro k hk id
        by_cases hkc : k = s.server.conn
        · subst hkc
          simp only [Function.update_self]
          obtain ⟨hold, hnew⟩ := streamOk_append.1 (hall hk id)
          exact streamOk_append.2 ⟨hold, hnew.take n⟩
        · simp only [Function.update_of_ne hkc]
          exact h.stream k hk id
      · intro k hk
        simp only [Function.update_of_ne (Nat.ne_of_gt hk)]
        exact h.later k hk
  · exact h

/-- The renderer attaches to a later connection, or to none. -/
theorem WireInv.setAttached {s s' : State} (h : s.WireInv) (hserver : s'.server = s.server) (hchan : s'.chan = s.chan)
    (hlast : s.renderer.lastAttached ≤ s'.renderer.lastAttached)
    (hatt : ∀ k, s'.renderer.attached = some k → k = s'.renderer.lastAttached ∧ s.renderer.lastAttached < k)
    (hdel : s'.renderer.delivered = fun _ => []) : s'.WireInv := by
  have hrec : ∀ k id, s'.received k id = [] := by
    intro k id
    unfold received
    split
    · rw [hdel]
    · rfl
  have hlive : ∀ k, s'.Live k → s.renderer.lastAttached < k := by
    intro k hk
    rcases hk with hk | hk
    · exact (hatt k hk).2
    · exact Nat.lt_of_le_of_lt hlast hk
  refine ⟨fun k hk => (hatt k hk).1, ?_, ?_, ?_⟩
  · intro k hk id
    have hold := h.stream k (.inr (hlive k hk)) id
    rw [h.received_later (hlive k hk)] at hold
    rw [hrec, hchan]
    exact hold
  · intro hc hk id
    rw [hserver] at hc hk ⊢
    have hold := h.complete hc (.inr (hlive _ hk)) id
    rw [h.received_later (hlive _ hk)] at hold
    rw [hrec, hchan]
    exact hold
  · intro k hk
    rw [hserver] at hk
    exact ⟨hchan ▸ (h.later k hk).1, hrec k⟩

/-- The layers that are collected follow the events. -/
theorem deliver_delivered (s : State) (e : Event) (id : Nat) :
    (s.deliver e).renderer.delivered id = collect id (s.renderer.delivered id) e := by
  cases e with
  | sharedServerState => rfl
  | layer i l =>
    by_cases hi : id = i
    · subst hi
      simp [deliver, collect]
    · simp [deliver, collect, Function.update_of_ne hi, Ne.symm hi]
  | frame i f =>
    by_cases hi : id = i
    · subst hi
      simp [deliver, collect]
    · simp [deliver, collect, Function.update_of_ne hi, Ne.symm hi]

@[simp] theorem deliver_attached (s : State) (e : Event) : (s.deliver e).renderer.attached = s.renderer.attached := by
  cases e <;> rfl

@[simp] theorem deliver_lastAttached (s : State) (e : Event) :
    (s.deliver e).renderer.lastAttached = s.renderer.lastAttached := by
  cases e <;> rfl

@[simp] theorem deliver_chan (s : State) (e : Event) : (s.deliver e).chan = s.chan := by
  cases e <;> rfl

@[simp] theorem deliver_server (s : State) (e : Event) : (s.deliver e).server = s.server := by
  cases e <;> rfl

/-- The next event is received. -/
theorem WireInv.receive {s : State} (h : s.WireInv) {k : Nat} {e : Event} {es : List Event}
    (hk : s.renderer.attached = some k) (he : s.chan k = e :: es) :
    WireInv (deliver { s with chan := Function.update s.chan k es } e) := by
  have hrec : ∀ id, s.received k id = s.renderer.delivered id := fun id => if_pos hk
  have hrec' : ∀ id, received (deliver { s with chan := Function.update s.chan k es } e) k id =
      collect id (s.received k id) e := by
    intro id
    rw [hrec]
    unfold received
    rw [deliver_attached, deliver_delivered]
    exact if_pos hk
  have hother : ∀ j, j ≠ k → ∀ id, received (deliver { s with chan := Function.update s.chan k es } e) j id =
      s.received j id := by
    intro j hj id
    have hne : s.renderer.attached ≠ some j := fun hj' => hj (Option.some.inj (hj'.symm.trans hk))
    unfold received
    rw [deliver_attached, if_neg hne]
    exact (if_neg hne).symm
  have hlive : ∀ j, Live (deliver { s with chan := Function.update s.chan k es } e) j → s.Live j := by
    intro j hj
    unfold Live at hj ⊢
    rwa [deliver_attached, deliver_lastAttached] at hj
  refine ⟨?_, ?_, ?_, ?_⟩
  · intro j hj
    rw [deliver_attached] at hj
    rw [deliver_lastAttached]
    exact h.attached j hj
  · intro j hj id
    rw [deliver_chan]
    by_cases hjk : j = k
    · subst hjk
      have hok := h.stream j (hlive j hj) id
      rw [he] at hok
      rw [hrec']
      simp only [Function.update_self]
      exact hok.2
    · rw [hother j hjk]
      simp only [Function.update_of_ne hjk]
      exact h.stream j (hlive j hj) id
  · intro hc hj id
    rw [deliver_server] at hc hj ⊢
    rw [deliver_chan]
    have hall := h.complete hc (hlive _ hj) id
    dsimp only at hall ⊢
    by_cases hjk : s.server.conn = k
    · rw [hjk] at hall ⊢
      rw [hrec', Function.update_self]
      rw [he] at hall
      exact hall
    · rw [hother _ hjk, Function.update_of_ne hjk]
      exact hall
  · intro j hj
    rw [deliver_server] at hj
    have hjk : j ≠ k := by
      rintro rfl
      rw [(h.later j hj).1] at he
      cases he
    rw [deliver_chan]
    refine ⟨?_, fun id => ?_⟩
    · simp only [Function.update_of_ne hjk]
      exact (h.later j hj).1
    · rw [hother j hjk]
      exact (h.later j hj).2 id

/-- Every step keeps what is left on the connections. -/
theorem step_wireInv {s s' : State} {a : Action} (h : s.WireInv) (hs : s.step a = some s') : s'.WireInv := by
  cases a with
  | publish id family cut =>
    simp only [step] at hs
    split at hs
    · cases hs
    · split at hs
      · rename_i hg
        cases hs
        refine WireInv.send (s := { s with server := s.server.nextRevision id }) ⟨h.1, h.2, h.3, h.4⟩ ?_ cut
        exact fun _ => streamOk_frameEvents (Selection.sent_length hg.2.2)
      · cases hs
  | install =>
    simp only [step] at hs
    split at hs
    · cases hs
      have hnew : WireInv { s with
          server := { s.server with conn := s.server.conn + 1, connected := true, selections := [] } } := by
        refine ⟨h.attached, h.stream, ?_, ?_⟩
        · intro _ _ id
          obtain ⟨hchan, hrec⟩ := h.later (s.server.conn + 1) (Nat.lt_succ_self _)
          dsimp only
          rw [hchan]
          exact hrec id
        · exact fun k hk => h.later k (Nat.lt_of_succ_lt hk)
      have hes : ∀ id, StreamOk id [] [.sharedServerState] ∧ List.foldl (collect id) [] [.sharedServerState] = [] :=
        fun _ => ⟨⟨trivial, trivial⟩, rfl⟩
      exact hnew.send hes none
    · cases hs
  | attach conn =>
    simp only [step] at hs
    split at hs
    · rename_i hg
      cases hs
      refine h.setAttached rfl rfl (Nat.le_of_lt hg.2.1) ?_ rfl
      intro k hk
      cases hk
      exact ⟨rfl, hg.2.1⟩
    · cases hs
  | detach =>
    simp only [step] at hs
    split at hs
    · cases hs
      refine h.setAttached rfl rfl (Nat.le_refl _) ?_ rfl
      intro k hk
      cases hk
    · cases hs
  | receive =>
    obtain ⟨k, e, es, hk, he, -, rfl⟩ := receive_eq hs
    exact h.receive hk he
  | _ => exact h.sameWire (step_sameWire rfl hs)

/-! ## The records -/

end State

/-- The actions of the looper that change the frames of the records. -/
def Action.onRecords : Action → Bool
  | .receive | .setOutputSurface .. => true
  | _ => false

namespace State

/-- What the other actions keep of the records. -/
theorem step_keeps {s s' : State} {a : Action} (ha : a.onRecords = false) (hs : s.step a = some s') :
    ∀ o ∈ s'.renderer.outputs, ∃ p ∈ s.renderer.outputs, o.id = p.id ∧ o.frame = p.frame ∧ o.layers = p.layers ∧
      o.pendingLayers = p.pendingLayers := by
  have hrec := step_records hs
  generalize s'.renderer.outputs = outputs, s'.renderer.worker = w at hrec
  cases hrec with
  | keep | idle | snapshot => exact fun o ho => ⟨o, ho, rfl, rfl, rfl, rfl⟩
  | layer | frame | surface | remove => cases ha
  | invalidate =>
    intro o ho
    obtain ⟨p, hp, rfl⟩ := List.mem_map.1 ho
    exact ⟨p, hp, rfl, rfl, rfl, rfl⟩
  | draw | record =>
    intro o ho
    obtain ⟨p, hp, rfl⟩ := mem_update.1 ho
    refine ⟨p, hp, ?_⟩
    split <;> exact ⟨rfl, rfl, rfl, rfl⟩

/-- The records follow the events. -/
theorem RecordInv.receive {s : State} (h : s.RecordInv) (hw : s.WireInv) {k : Nat} {e : Event} {es : List Event}
    (hk : s.renderer.attached = some k) (he : s.chan k = e :: es) :
    RecordInv (deliver { s with chan := Function.update s.chan k es } e) := by
  have hok : ∀ id, EventOk id (s.renderer.delivered id) e := by
    intro id
    have hstream := hw.stream k (.inl hk) id
    rw [he] at hstream
    have hrec : s.received k id = s.renderer.delivered id := if_pos hk
    exact hrec ▸ hstream.1
  cases e with
  | sharedServerState => exact ⟨h.layers, h.pending⟩
  | layer i l =>
    constructor
    · refine forall_mem_update h.layers fun p _ _ hp => ?_
      obtain ⟨q, hq⟩ := p.addLayer_eq l
      rw [hq]
      exact hp
    · intro j hj o ho
      obtain ⟨p, hp, rfl⟩ := mem_update.1 ho
      have hpend := h.pending j hj p hp
      dsimp only [deliver]
      split
      · rename_i hid
        have hroom : p.pendingLayers.length < maxFamilyLayers := by
          rw [hpend, hid]
          exact hok i rfl
        rw [Output.addLayer_id, hid, Function.update_self]
        unfold Output.addLayer
        rw [if_pos hroom, hpend, hid]
      · rename_i hid
        rw [Function.update_of_ne hid]
        exact hpend
  | frame i f =>
    constructor
    · refine forall_mem_update h.layers fun p hp hid _ => ?_
      show p.pendingLayers = f.sent
      rw [h.pending k hk p hp, hid]
      exact hok i rfl
    · intro j hj o ho
      obtain ⟨p, hp, rfl⟩ := mem_update.1 ho
      have hpend := h.pending j hj p hp
      dsimp only [deliver]
      split
      · rename_i hid
        show [] = Function.update s.renderer.delivered i [] p.id
        rw [hid, Function.update_self]
      · rename_i hid
        rw [Function.update_of_ne hid]
        exact hpend

/-- A surface changes; a new record starts between two frames. -/
theorem RecordInv.setOutputSurface {s : State} (h : s.RecordInv) {id : Nat} {window : Option Nat} {release : Bool}
    (hc : s.Whole (.setOutputSurface id window release)) : (s.setOutputSurface id window release).RecordInv := by
  have hlayers : ∀ o ∈ update id (·.refresh window) (s.renderer.withRecord id), o.layers = o.frame.sent := by
    refine forall_mem_update ?_ fun _ _ _ hp => hp
    intro o ho
    rcases Renderer.mem_withRecord ho with ho | rfl
    · exact h.layers o ho
    · rfl
  unfold State.setOutputSurface
  split
  · exact h
  · cases release with
    | true =>
      refine ⟨fun o ho => hlayers o (List.mem_of_mem_filter ho), ?_⟩
      intro k hk o ho
      obtain ⟨ho, hne⟩ := List.mem_filter.1 ho
      obtain ⟨p, hp, rfl⟩ := mem_update.1 ho
      split
      · rename_i hid
        rw [if_pos hid] at hne
        exact absurd hid (of_decide_eq_true hne)
      · rename_i hid
        rcases Renderer.mem_withRecord hp with hp | rfl
        · exact h.pending k hk p hp
        · exact absurd rfl hid
    | false =>
      refine ⟨hlayers, ?_⟩
      intro k hk
      refine forall_mem_update ?_ fun _ _ _ hp => hp
      intro o ho
      unfold Renderer.withRecord at ho
      split at ho
      · exact h.pending k hk o ho
      · rename_i hno
        rcases List.mem_cons.1 ho with rfl | ho
        · refine (hc fun p hp hid => hno ?_).symm
          exact List.any_eq_true.2 ⟨p, hp, decide_eq_true hid⟩
        · exact h.pending k hk o ho

/-- The committed layers stay. -/
theorem RecordInv.step_layers {s s' : State} {a : Action} (h : s.RecordInv) (ha : a.onRecords = false)
    (hs : s.step a = some s') : ∀ o ∈ s'.renderer.outputs, o.layers = o.frame.sent := by
  intro o ho
  obtain ⟨p, hp, -, hf, hl, -⟩ := step_keeps ha hs o ho
  rw [hf, hl]
  exact h.layers p hp

/-- The pending layers stay, on the same connection. -/
theorem RecordInv.step_pending {s s' : State} {a : Action} (h : s.RecordInv) (ha : a.onRecords = false)
    (hs : s.step a = some s') (hatt : s'.renderer.attached = s.renderer.attached)
    (hdel : s'.renderer.delivered = s.renderer.delivered) : s'.RecordInv := by
  refine ⟨h.step_layers ha hs, ?_⟩
  intro k hk o ho
  obtain ⟨p, hp, hid, -, -, hpe⟩ := step_keeps ha hs o ho
  rw [hid, hpe, hdel]
  exact h.pending k (hatt ▸ hk) p hp

/-- Every step under the condition keeps the records whole. -/
theorem step_recordInv {s s' : State} {a : Action} (h : s.RecordInv) (hw : s.WireInv) (hc : s.Whole a)
    (hs : s.step a = some s') : s'.RecordInv := by
  cases a with
  | receive =>
    obtain ⟨k, e, es, hk, he, -, rfl⟩ := receive_eq hs
    exact h.receive hw hk he
  | setOutputSurface id window release =>
    simp only [step] at hs
    split at hs
    · cases hs
      exact h.setOutputSurface hc
    · cases hs
  | attach conn =>
    refine ⟨h.step_layers rfl hs, ?_⟩
    simp only [step] at hs
    split at hs
    · cases hs
      exact fun _ _ o ho => hc o ho
    · cases hs
  | detach =>
    refine ⟨h.step_layers rfl hs, ?_⟩
    simp only [step] at hs
    split at hs
    · cases hs
      intro k hk
      cases hk
    · cases hs
  | publish id family cut | install =>
    have hren := (step_server rfl hs).1
    exact h.step_pending rfl hs (by rw [hren]) (by rw [hren])
  | _ => exact h.step_pending rfl hs (step_sameWire rfl hs).attached (step_sameWire rfl hs).delivered

/-- **Frames are committed atomically**, in every run in which a record is made only between two frames of its output and
a connection attached only when no layer is pending: the committed layers are those that were sent for the frame. -/
theorem committed_whole {s : State} (h : Reach step Whole State.init s) :
    ∀ o ∈ s.renderer.outputs, o.layers = o.frame.sent := by
  have hinv := h.invariant (I := fun s => s.WireInv ∧ s.RecordInv) ⟨.init, .init⟩ fun _ _ _ hi hc hs =>
    ⟨step_wireInv hi.1 hs, step_recordInv hi.2 hi.1 hc hs⟩
  exact hinv.2.layers

/-- A window with one transient above it. -/
def pair : Family where
  drawable := 10
  width := 64
  height := 48
  layers := [(⟨10, 0, 0, 64, 48, false, 0⟩, some 100), (⟨11, 8, 8, 16, 16, false, 0⟩, some 101)]
  presentation := 0
  viewport := ⟨0, 0, 0, 0⟩

/-- A connection, and a surface for one output. -/
def surfaceActions (id : Nat) : List Action :=
  [.connect, .install, .attach 1, .receive, .setOutputSurface id (some 7) false]

/-- A frame of two layers is published and received. -/
def pairActions : List Action :=
  surfaceActions 1 ++ ([.bind 1 10, .publish 1 pair none, .receive, .receive, .receive] : List Action)

theorem committed_whole_pair : ∃ s,
    exec (fun s a => if Whole s a then step s a else none) State.init pairActions = some s ∧
    ∃ o ∈ s.renderer.outputs, o.layers.length = 2 ∧ o.layers = o.frame.sent :=
  ⟨_, rfl, _, List.mem_cons_self, rfl, committed_whole (.of_exec_guarded pairActions rfl) _ List.mem_cons_self⟩

/-- The record of an output is made between the two layers. -/
def lateRecordActions : List Action :=
  surfaceActions 2 ++
    ([.bind 1 10, .publish 1 pair none, .receive, .setOutputSurface 1 (some 8) false, .receive, .receive] : List Action)

/-- The frame is committed without its first layer. -/
theorem committed_suffix : ∃ s, Reach step Free State.init s ∧ ∃ o ∈ s.renderer.outputs,
    o.layers = o.frame.sent.drop 1 ∧ o.layers ≠ o.frame.sent :=
  ⟨_, .of_exec lateRecordActions rfl, _, List.mem_cons_self, rfl, by decide⟩

/-- The connection breaks after the first layer, and the next connection publishes the frame. -/
def brokenActions : List Action :=
  surfaceActions 1 ++ ([.bind 1 10, .publish 1 pair (some 1), .receive, .connect, .install, .attach 2, .receive,
    .bind 1 10, .publish 1 pair none, .receive, .receive, .receive] : List Action)

/-- The frame is committed with a layer of the first connection before its own. -/
theorem committed_leftover : ∃ s, Reach step Free State.init s ∧ ∃ o ∈ s.renderer.outputs,
    o.layers.drop 1 = o.frame.sent ∧ o.layers ≠ o.frame.sent :=
  ⟨_, .of_exec brokenActions rfl, _, List.mem_cons_self, rfl, by decide⟩

end State

end Lorie.Outputs
