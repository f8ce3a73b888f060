import Lorie.Outputs.Model
import Mathlib.Data.List.Nodup

/-!
# What the steps do

- `RecordStep`: what a step does to the records and to the draws in progress (`step_records`);
- `SameWire`: the steps that leave the connection and its events alone (`step_sameWire`);
- `step_ring`: copies are scheduled and executed in order.
-/

namespace Lorie.Outputs

open Lorie.Lib

/-! ## Records by id -/

section Update

variable {id : Nat} {g : Output → Output} {outputs : List Output} {o : Output}

theorem mem_update : o ∈ update id g outputs ↔ ∃ p ∈ outputs, o = if p.id = id then g p else p := by
  unfold update
  simp only [List.mem_map, eq_comm]

/-- A change that keeps the id of a record keeps the records of different outputs. -/
theorem nodup_update (h : (outputs.map (·.id)).Nodup) (hg : ∀ p, (g p).id = p.id) :
    ((update id g outputs).map (·.id)).Nodup := by
  have hids : (update id g outputs).map (·.id) = outputs.map (·.id) := by
    unfold update
    rw [List.map_map]
    refine List.map_congr_left fun p _ => ?_
    simp only [Function.comp_apply]
    split
    · exact hg p
    · rfl
  rw [hids]
  exact h

/-- What all records had and the changed one has, all records have. -/
theorem forall_mem_update {P : Output → Prop} (h : ∀ p ∈ outputs, P p) (hg : ∀ p ∈ outputs, p.id = id → P p → P (g p)) :
    ∀ o ∈ update id g outputs, P o := by
  intro o ho
  obtain ⟨p, hp, rfl⟩ := mem_update.1 ho
  split
  · rename_i hid
    exact hg p hp hid (h p hp)
  · exact h p hp

end Update

@[simp] theorem Output.addLayer_id (l : Layer) (o : Output) : (o.addLayer l).id = o.id := by
  unfold Output.addLayer
  split <;> rfl

/-- A layer that is collected changes nothing else. -/
theorem Output.addLayer_eq (l : Layer) (o : Output) : ∃ p, o.addLayer l = { o with pendingLayers := p } := by
  unfold Output.addLayer
  split
  · exact ⟨_, rfl⟩
  · exact ⟨_, rfl⟩

/-- The records are of different outputs also after one was made. -/
theorem Renderer.nodup_withRecord {r : Renderer} {id : Nat} (h : (r.outputs.map (·.id)).Nodup) :
    ((r.withRecord id).map (·.id)).Nodup := by
  unfold Renderer.withRecord
  split
  · exact h
  · rename_i hno
    refine List.nodup_cons.2 ⟨fun hmem => hno ?_, h⟩
    obtain ⟨o, ho, hid⟩ := List.mem_map.1 hmem
    exact List.any_eq_true.2 ⟨o, ho, decide_eq_true hid⟩

theorem Renderer.mem_withRecord {r : Renderer} {id : Nat} {o : Output} (h : o ∈ r.withRecord id) :
    o ∈ r.outputs ∨ o = .new id := by
  unfold Renderer.withRecord at h
  split at h
  · exact .inl h
  · exact (List.mem_cons.1 h).symm

/-! ## What a step does to the records -/

/-- The draws in progress. -/
def Worker.draws : Worker → List Draw
  | .drawing _ ds => ds
  | .drawn d ds => d :: ds
  | _ => []

namespace State

/-- The frame that is received next. -/
def incoming (s : State) : Option (Nat × Frame) :=
  match s.renderer.attached with
  | none => none
  | some k =>
    match s.chan k with
    | .frame id f :: _ => some (id, f)
    | _ => none

/-- What a step does to the records and the worker. -/
inductive RecordStep (s : State) : Action → List Output → Worker → Prop
  | keep (a : Action) : RecordStep s a s.renderer.outputs s.renderer.worker
  | layer (id : Nat) (l : Layer) :
    RecordStep s .receive (update id (·.addLayer l) s.renderer.outputs) s.renderer.worker
  | frame (id : Nat) (f : Frame) : s.incoming = some (id, f) →
    RecordStep s .receive (update id (·.commit f) s.renderer.outputs) s.renderer.worker
  | surface (id : Nat) (window : Option Nat) (release : Bool) : s.renderer.worker = .top →
    RecordStep s (.setOutputSurface id window release) (update id (·.refresh window) (s.renderer.withRecord id)) .top
  | remove (id : Nat) (window : Option Nat) (release : Bool) : s.renderer.worker = .top →
    RecordStep s (.setOutputSurface id window release)
      ((update id (·.refresh window) (s.renderer.withRecord id)).filter fun o => o.id ≠ id) .top
  | idle (a : Action) (w : Worker) : w.draws = [] → RecordStep s a s.renderer.outputs w
  | invalidate (a : Action) (w : Worker) : s.renderer.worker = .top → w.draws = [] →
    RecordStep s a (s.renderer.outputs.map Output.invalidate) w
  | snapshot : RecordStep s .snapshot s.renderer.outputs (.drawing false (snapshots s.renderer.outputs))
  | draw (rendered : Bool) (d : Draw) (ds : List Draw) : s.renderer.worker = .drawing rendered (d :: ds) →
    RecordStep s .draw (update d.id (·.show d s.shared.executed) s.renderer.outputs) (.drawn d ds)
  | record (d : Draw) (ds : List Draw) : s.renderer.worker = .drawn d ds →
    RecordStep s .record (update d.id (·.drew d) s.renderer.outputs) (.drawing true ds)

@[simp] theorem send_renderer (s : State) (es : List Event) (cut : Option Nat) :
    (s.send es cut).renderer = s.renderer := by
  unfold send
  split
  · cases cut <;> rfl
  · rfl

@[simp] theorem send_shared (s : State) (es : List Event) (cut : Option Nat) : (s.send es cut).shared = s.shared := by
  unfold send
  split
  · cases cut <;> rfl
  · rfl

end State

/-- The actions of the X thread. -/
def Action.onServer : Action → Bool
  | .bind .. | .release _ | .schedule _ | .redraw | .publish .. | .connect | .install | .hangup => true
  | _ => false

namespace State

/-- The X thread leaves the renderer alone and executes no copy. -/
theorem step_server {s s' : State} {a : Action} (ha : a.onServer = true) (hs : s.step a = some s') :
    s'.renderer = s.renderer ∧ s'.shared.executed = s.shared.executed ∧
      s.shared.scheduled.length ≤ s'.shared.scheduled.length := by
  cases a with
  | release id | redraw | connect | hangup =>
    cases hs
    exact ⟨rfl, rfl, Nat.le_refl _⟩
  | bind id window =>
    simp only [step] at hs
    split at hs
    · cases hs
      exact ⟨rfl, rfl, Nat.le_refl _⟩
    · cases hs
  | schedule b =>
    simp only [step] at hs
    split at hs
    · cases hs
      exact ⟨rfl, rfl, by simp⟩
    · cases hs
  | publish id family cut =>
    simp only [step] at hs
    split at hs
    · cases hs
    · split at hs
      · cases hs
        simp only [send_renderer, send_shared]
        exact ⟨trivial, trivial, Nat.le_refl _⟩
      · cases hs
  | install =>
    simp only [step] at hs
    split at hs
    · cases hs
      simp only [send_renderer, send_shared]
      exact ⟨trivial, trivial, Nat.le_refl _⟩
    · cases hs
  | _ => cases ha

/-- What `receive` does. -/
theorem receive_eq {s s' : State} (hs : s.step .receive = some s') : ∃ k e es, s.renderer.attached = some k ∧
    s.chan k = e :: es ∧ (e = .sharedServerState → s.renderer.worker = .top) ∧
    s' = deliver { s with chan := Function.update s.chan k es } e := by
  simp only [step] at hs
  split at hs
  · cases hs
  · rename_i k hk
    split at hs
    · cases hs
    · rename_i e es he
      split at hs
      · cases hs
      · rename_i hno
        refine ⟨k, e, es, hk, he, fun h => ?_, (Option.some.inj hs).symm⟩
        by_contra hw
        exact hno ⟨h, hw⟩

theorem incoming_eq {s : State} {k : Nat} {id : Nat} {f : Frame} {es : List Event} (hk : s.renderer.attached = some k)
    (he : s.chan k = .frame id f :: es) : s.incoming = some (id, f) := by
  simp only [incoming, hk, he]

/-- **What a step does to the records and the worker.** -/
theorem step_records {s s' : State} {a : Action} (hs : s.step a = some s') :
    RecordStep s a s'.renderer.outputs s'.renderer.worker := by
  by_cases ha : a.onServer = true
  · rw [(step_server ha hs).1]
    exact .keep _
  cases a with
  | receive =>
    obtain ⟨k, e, es, hk, he, -, rfl⟩ := receive_eq hs
    cases e with
    | sharedServerState => exact .keep _
    | layer id l => exact .layer id l
    | frame id f => exact .frame id f (incoming_eq hk he)
  | setOutputSurface id window release =>
    simp only [step] at hs
    split at hs
    · rename_i hc
      cases hs
      unfold setOutputSurface
      split
      · exact .keep _
      · cases release with
        | false => simpa [hc.2] using RecordStep.surface id window false hc.2
        | true => simpa [hc.2] using RecordStep.remove id window true hc.2
    · cases hs
  | loop added removed =>
    simp only [step] at hs
    split at hs
    · rename_i hc
      cases hs
      have hw : (if s.renderer.mapped then Worker.drain else .top).draws = [] := by split <;> rfl
      cases added with
      | false => exact .idle _ _ hw
      | true => exact .invalidate _ _ hc.1 hw
    · cases hs
  | snapshot =>
    simp only [step] at hs
    split at hs
    · cases hs
      dsimp only
      split
      · exact .idle _ _ rfl
      · exact .snapshot
    · cases hs
  | draw =>
    simp only [step] at hs
    split at hs
    · rename_i rendered d ds hw
      cases hs
      exact .draw rendered d ds hw
    · cases hs
  | record =>
    simp only [step] at hs
    split at hs
    · rename_i d ds hw
      cases hs
      exact .record d ds hw
    · cases hs
  | endDrain failed =>
    simp only [step] at hs
    split at hs
    · cases hs
      exact .idle _ _ rfl
    · cases hs
  | abandon | endDraw =>
    simp only [step] at hs
    split at hs
    · cases hs
      exact .idle _ _ rfl
    · cases hs
  | attach conn | detach | copy =>
    simp only [step] at hs
    split at hs
    · cases hs
      exact .keep _
    · cases hs
  | _ => exact absurd rfl ha

/-! ## What a step does to the connection -/

end State

/-- The actions that change the connection or its events. -/
def Action.onWire : Action → Bool
  | .publish .. | .install | .attach _ | .detach | .receive => true
  | _ => false

namespace State

/-- The connection and its events stay, except that it may break. -/
structure SameWire (s s' : State) : Prop where
  chan : s'.chan = s.chan
  conn : s'.server.conn = s.server.conn
  connects : s.server.connects ≤ s'.server.connects
  connected : s'.server.connected = true → s.server.connected = true
  attached : s'.renderer.attached = s.renderer.attached
  lastAttached : s'.renderer.lastAttached = s.renderer.lastAttached
  delivered : s'.renderer.delivered = s.renderer.delivered

theorem step_sameWire {s s' : State} {a : Action} (ha : a.onWire = false) (hs : s.step a = some s') :
    SameWire s s' := by
  cases a with
  | publish | install | attach | detach | receive => cases ha
  | release id | redraw =>
    cases hs
    exact ⟨rfl, rfl, Nat.le_refl _, fun h => h, rfl, rfl, rfl⟩
  | connect =>
    cases hs
    exact ⟨rfl, rfl, Nat.le_succ _, fun h => h, rfl, rfl, rfl⟩
  | hangup =>
    cases hs
    exact ⟨rfl, rfl, Nat.le_refl _, nofun, rfl, rfl, rfl⟩
  | setOutputSurface id window release =>
    simp only [step] at hs
    split at hs
    · cases hs
      unfold setOutputSurface
      split <;> exact ⟨rfl, rfl, Nat.le_refl _, fun h => h, rfl, rfl, rfl⟩
    · cases hs
  | _ =>
    simp only [step] at hs
    split at hs
    · cases hs
      exact ⟨rfl, rfl, Nat.le_refl _, fun h => h, rfl, rfl, rfl⟩
    · cases hs

/-! ## What a step does to the ring -/

/-- Copies are scheduled and executed in order. -/
theorem step_ring {s s' : State} {a : Action} (hs : s.step a = some s') :
    s.shared.scheduled.length ≤ s'.shared.scheduled.length ∧ s.shared.executed ≤ s'.shared.executed := by
  by_cases ha : a.onServer = true
  · obtain ⟨-, hexec, hsched⟩ := step_server ha hs
    exact ⟨hsched, Nat.le_of_eq hexec.symm⟩
  cases a with
  | bind | release | schedule | redraw | publish | connect | install | hangup => exact absurd rfl ha
  | receive =>
    obtain ⟨k, e, es, -, -, -, rfl⟩ := receive_eq hs
    cases e <;> exact ⟨Nat.le_refl _, Nat.le_refl _⟩
  | setOutputSurface id window release =>
    simp only [step] at hs
    split at hs
    · cases hs
      unfold setOutputSurface
      split <;> exact ⟨Nat.le_refl _, Nat.le_refl _⟩
    · cases hs
  | copy =>
    simp only [step] at hs
    split at hs
    · cases hs
      exact ⟨Nat.le_refl _, Nat.le_succ _⟩
    · cases hs
  | _ =>
    simp only [step] at hs
    split at hs
    · cases hs
      exact ⟨Nat.le_refl _, Nat.le_refl _⟩
    · cases hs

end State

end Lorie.Outputs
