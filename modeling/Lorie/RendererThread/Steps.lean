import Lorie.RendererThread.Model

/-!
# What the threads can do in one step

The branches of `State.hostStep` and `State.workerStep` that give a state, each with what it asks of the state before:

- `HostStep`, `hostStep_spec`: the host's thread;
- `WorkerStep`, `workerStep_spec`: the worker.
-/

namespace Lorie.RendererThread

open Lorie.Lib

variable {s t : State} {a : Action}

/-! ## The host's thread -/

/-- What the host's thread can do -/
inductive HostStep (s : State) : Action → State → Prop where
  | created : s.host = .born → HostStep s (.create true) { s with worker := .starting, host := .waiting .init true }
  | notCreated : s.host = .born → HostStep s (.create false) { s with stopping := true, host := .idle, leaving := true }
  | noSurface (window : Option Nat) (release memory : Bool) : s.calls = true →
      HostStep s (.setOutputSurface 0 window release memory) { s with results := s.results ++ [(0, false)] }
  | surface (id : Nat) (window : Option Nat) (release memory : Bool) : s.calls = true → id ≠ 0 →
      HostStep s (.setOutputSurface id window release memory) (s.setOutputSurface id window release memory)
  | destroySurface (id : Nat) (memory : Bool) : s.host = .idle → (s.outputs.head?.map (·.id)) = some id →
      HostStep s (.setOutputSurface id none true memory) (s.setOutputSurface id none true memory)
  | layer (id : Nat) : s.calls = true →
      HostStep s (.setOutputLayer id) { s with outputs := update id (·.addLayer) s.outputs }.signal
  | frame (id : Nat) (f : Frame) : s.calls = true →
      HostStep s (.setOutputFrame id f) { s with
        outputs := update id (·.commit f) s.outputs
        records := s.records ++ if s.outputs.any fun o => o.id = id then [Record.framed id f.presentation] else [] }.signal
  | addBuffer : s.calls = true → HostStep s .addBuffer { s with addedBuffers := s.addedBuffers + 1 }.signal
  | removeAttached : s.calls = true → 0 < s.buffers →
      HostStep s (.removeBuffer true) { s with buffers := s.buffers - 1, removedBuffers := s.removedBuffers + 1 }.signal
  | removeAdded : s.calls = true → 0 < s.addedBuffers →
      HostStep s (.removeBuffer false) { s with addedBuffers := s.addedBuffers - 1 }.signal
  | removeNone (attached : Bool) : s.calls = true → (if attached then s.buffers else s.addedBuffers) = 0 →
      HostStep s (.removeBuffer attached) s.signal
  | connect (fd : Nat) : s.calls = true → s.fd = none →
      HostStep s (.connect fd) ({ s with fd := some fd, peerFd := some fd, down := false }.note [.acquire (.socket fd)])
  | receiveState (region : Nat) : s.calls = true → s.fd.isSome = true →
      HostStep s (.receiveState region)
        (({ s with nextNumber := s.nextNumber + 1 }.note [.acquire (.mapping ⟨s.nextNumber, region⟩)]).setSharedState
          (some ⟨s.nextNumber, region⟩) false)
  | disconnect : s.calls = true → HostStep s .disconnect s.disconnect
  | leave : s.calls = true → HostStep s .leave { s with leaving := true }.disconnect
  | destroy : s.host = .idle → s.leaving = true → s.outputs = [] →
      HostStep s .destroy { s with stopping := true, host := .joining }.signal
  | join : s.host = .joining → s.worker = .exited ∨ s.worker = .absent → HostStep s .join { s with host := .gone }
  | resume (r : Request) : s.host = .waiting r false → HostStep s .resume (s.await r)

theorem hostStep_spec (hs : s.hostStep a = some t) : HostStep s a t := by
  cases a with
  | create created =>
    simp only [State.hostStep] at hs
    split at hs
    · rename_i hborn
      cases created <;> cases hs
      · exact .notCreated hborn
      · exact .created hborn
    · cases hs
  | setOutputSurface id window release memory =>
    simp only [State.hostStep] at hs
    split at hs
    · rename_i hcalls
      split at hs
      · rename_i hid
        cases hs
        subst hid
        exact .noSurface window release memory hcalls
      · rename_i hid
        cases hs
        exact .surface id window release memory hcalls hid
    · split at hs
      · rename_i hhead
        cases hs
        obtain ⟨hidle, hid, rfl, hrelease⟩ := hhead
        obtain rfl : release = true := hrelease
        exact .destroySurface id memory hidle hid
      · cases hs
  | setOutputLayer id =>
    simp only [State.hostStep] at hs
    split at hs
    · rename_i hcalls
      cases hs
      exact .layer id hcalls
    · cases hs
  | setOutputFrame id f =>
    simp only [State.hostStep] at hs
    split at hs
    · rename_i hcalls
      cases hs
      exact .frame id f hcalls
    · cases hs
  | addBuffer =>
    simp only [State.hostStep] at hs
    split at hs
    · rename_i hcalls
      cases hs
      exact .addBuffer hcalls
    · cases hs
  | removeBuffer attached =>
    simp only [State.hostStep] at hs
    split at hs
    · rename_i hcalls
      split at hs
      · rename_i hbuffers
        cases hs
        obtain ⟨hattached, hbuffers⟩ := hbuffers
        obtain rfl : attached = true := hattached
        exact .removeAttached hcalls hbuffers
      · split at hs
        · rename_i hadded
          cases hs
          obtain ⟨hattached, hadded⟩ := hadded
          obtain rfl : attached = false := Bool.eq_false_iff.2 hattached
          exact .removeAdded hcalls hadded
        · rename_i hattached hadded
          cases hs
          refine .removeNone attached hcalls ?_
          cases attached
          · exact Nat.eq_zero_of_not_pos fun hpos => hadded ⟨Bool.false_ne_true, hpos⟩
          · exact Nat.eq_zero_of_not_pos fun hpos => hattached ⟨rfl, hpos⟩
    · cases hs
  | connect fd =>
    simp only [State.hostStep] at hs
    split at hs
    · rename_i hcalls
      cases hs
      exact .connect fd hcalls.1 hcalls.2
    · cases hs
  | receiveState region =>
    simp only [State.hostStep] at hs
    split at hs
    · rename_i hcalls
      cases hs
      exact .receiveState region hcalls.1 hcalls.2
    · cases hs
  | disconnect =>
    simp only [State.hostStep] at hs
    split at hs
    · rename_i hcalls
      cases hs
      exact .disconnect hcalls
    · cases hs
  | leave =>
    simp only [State.hostStep] at hs
    split at hs
    · rename_i hcalls
      cases hs
      exact .leave hcalls
    · cases hs
  | destroy =>
    simp only [State.hostStep] at hs
    split at hs
    · rename_i hready
      cases hs
      exact .destroy hready.1 hready.2.1 hready.2.2
    · cases hs
  | join =>
    simp only [State.hostStep] at hs
    split at hs
    · rename_i hready
      cases hs
      exact .join hready.1 hready.2
    · cases hs
  | resume =>
    simp only [State.hostStep] at hs
    split at hs
    · rename_i r hhost
      cases hs
      exact .resume r hhost
    · cases hs
  | _ => simp [State.hostStep] at hs

/-! ## The worker -/

/-- What the worker can do -/
inductive WorkerStep (s : State) : Action → State → Prop where
  | start (created : Bool) : s.worker = .starting → WorkerStep s (.start created) (s.start created)
  | pass (failing : List Nat) : s.worker = .testing → WorkerStep s (.pass failing) (s.pass failing)
  | drained : s.worker = .draining → (s.connectionFailed || s.mapped.copies = 0) = true →
      WorkerStep s .drain { s.note s.useState with worker := .snapshotting }
  | copies : s.worker = .draining → (s.connectionFailed || s.mapped.copies = 0) = false →
      WorkerStep s .drain { s.note s.useState with worker := .lockingCopies }
  | lockFailed : s.worker = .lockingCopies →
      WorkerStep s (.lock true) { (s.note s.useState).fail with worker := .snapshotting }
  | locked : s.worker = .lockingCopies → s.mapped.locked = 0 →
      WorkerStep s (.lock false) { s.note s.useState with worker := .copying }
  | drawLockFailed {rendered : Bool} {d : Draw} {draws : List Draw} : s.worker = .lockingDraw rendered d draws →
      WorkerStep s (.lock true) ((s.note s.useState).fail.endDraws rendered)
  | drawLocked {rendered : Bool} {d : Draw} {draws : List Draw} : s.worker = .lockingDraw rendered d draws →
      s.mapped.locked = 0 → WorkerStep s (.lock false) { s.note s.useState with worker := .painting rendered d draws }
  | peerGone : s.worker = .lockingCopies → (s.down || s.peerFd.isNone) = true →
      WorkerStep s .poll { (s.note s.usePeer).fail with worker := .snapshotting }
  | drawPeerGone {rendered : Bool} {d : Draw} {draws : List Draw} : s.worker = .lockingDraw rendered d draws →
      (s.down || s.peerFd.isNone) = true → WorkerStep s .poll ((s.note s.usePeer).fail.endDraws rendered)
  | peerThere : s.worker = .lockingCopies → (s.down || s.peerFd.isNone) = false →
      WorkerStep s .poll (s.note s.usePeer)
  | drawPeerThere {rendered : Bool} {d : Draw} {draws : List Draw} : s.worker = .lockingDraw rendered d draws →
      (s.down || s.peerFd.isNone) = false → WorkerStep s .poll (s.note s.usePeer)
  | copiesDone (outcome : CopyOutcome) (moved : Nat) : s.worker = .copying → s.mapped.copies = 0 →
      WorkerStep s (.copy outcome moved) { s.note s.useState with worker := .snapshotting }
  | copied (moved : Nat) : s.worker = .copying → s.mapped.copies ≠ 0 →
      WorkerStep s (.copy .copied moved)
        (((s.note s.useState).findBuffers moved).change fun h => { h with copies := h.copies - 1 })
  | copyMissing (moved : Nat) : s.worker = .copying → s.mapped.copies ≠ 0 →
      WorkerStep s (.copy .missing moved)
        { (s.note s.useState).findBuffers moved with copyWaitingForBuffer := true, worker := .snapshotting }
  | copyFailed (moved : Nat) : s.worker = .copying → s.mapped.copies ≠ 0 →
      WorkerStep s (.copy .failed moved) { ((s.note s.useState).findBuffers moved).fail with worker := .snapshotting }
  | snapshot (memory : Bool) : s.worker = .snapshotting → WorkerStep s (.snapshot memory) (s.snapshot memory)
  | acquired {rendered : Bool} {d : Draw} {draws : List Draw} : s.worker = .drawing rendered (d :: draws) →
      WorkerStep s (.acquire true)
        { s.note (d.window.toList.map (fun w => Access.use (.window w)) ++ [Access.use (.surface d.surface)]) with
          worker := .lockingDraw rendered d draws }
  | notAcquired {rendered : Bool} {d : Draw} {draws : List Draw} : s.worker = .drawing rendered (d :: draws) →
      WorkerStep s (.acquire false)
        ((s.note (d.window.toList.map (fun w => Access.use (.window w)) ++
          [Access.use (.surface d.surface)])).fail.endDraws rendered)
  | paint (ok found : Bool) (moved : Nat) {rendered : Bool} {d : Draw} {draws : List Draw} :
      s.worker = .painting rendered d draws →
      WorkerStep s (.paint ok found moved)
        (({ s with
            worker := .presenting ok (d.frame.width ≠ 0 && d.frame.height ≠ 0 && d.layerCount ≠ 0 && found) rendered d draws
          }.findBuffers moved).note (.use (.surface d.surface) :: s.useState))
  | present (presented : Bool) {ok complete rendered : Bool} {d : Draw} {draws : List Draw} :
      s.worker = .presenting ok complete rendered d draws →
      WorkerStep s (.present presented)
        ({ s with worker := .recording ok complete (ok && presented) rendered d draws }.note
          (if ok then [.use (.surface d.surface)] else []))
  | record {ok complete presented rendered : Bool} {d : Draw} {draws : List Draw} :
      s.worker = .recording ok complete presented rendered d draws →
      WorkerStep s .record (s.recordDraw ok complete presented rendered d draws)
  | endDraw {rendered : Bool} : s.worker = .drawing rendered [] → WorkerStep s .endDraw (s.endDraws rendered)
  | removed : s.worker = .retiring → 0 < s.removedBuffers →
      WorkerStep s .retire { s with removedBuffers := s.removedBuffers - 1 }
  | retired : s.worker = .retiring → s.removedBuffers = 0 → WorkerStep s .retire { s with worker := .testing }
  | releaseGraphics : s.worker = .releasing → WorkerStep s .releaseGraphics s.releaseGraphics
  | exit : s.worker = .released → WorkerStep s .exit { s with stopping := true, worker := .exited }.broadcast

theorem workerStep_spec (hs : s.workerStep a = some t) : WorkerStep s a t := by
  cases a with
  | start created =>
    simp only [State.workerStep] at hs
    split at hs
    · rename_i hworker
      cases hs
      exact .start created hworker
    · cases hs
  | pass failing =>
    simp only [State.workerStep] at hs
    split at hs
    · rename_i hworker
      cases hs
      exact .pass failing hworker
    · cases hs
  | drain =>
    simp only [State.workerStep] at hs
    split at hs
    · rename_i hworker
      split at hs
      · rename_i hnone
        cases hs
        exact .drained hworker hnone
      · rename_i hsome
        cases hs
        exact .copies hworker (Bool.eq_false_iff.2 hsome)
    · cases hs
  | lock error =>
    simp only [State.workerStep] at hs
    split at hs
    · rename_i hworker
      cases error
      · simp only [Bool.false_eq_true, if_false] at hs
        split at hs
        · rename_i hfree
          cases hs
          exact .locked hworker hfree
        · cases hs
      · cases hs
        exact .lockFailed hworker
    · rename_i hworker
      cases error
      · simp only [Bool.false_eq_true, if_false] at hs
        split at hs
        · rename_i hfree
          cases hs
          exact .drawLocked hworker hfree
        · cases hs
      · cases hs
        exact .drawLockFailed hworker
    · cases hs
  | poll =>
    simp only [State.workerStep] at hs
    split at hs
    · rename_i hworker
      split at hs
      · rename_i hgone
        cases hs
        exact .peerGone hworker hgone
      · rename_i hthere
        cases hs
        exact .peerThere hworker (Bool.eq_false_iff.2 hthere)
    · rename_i hworker
      split at hs
      · rename_i hgone
        cases hs
        exact .drawPeerGone hworker hgone
      · rename_i hthere
        cases hs
        exact .drawPeerThere hworker (Bool.eq_false_iff.2 hthere)
    · cases hs
  | copy outcome moved =>
    simp only [State.workerStep] at hs
    split at hs
    · rename_i hworker
      split at hs
      · rename_i hcopies
        cases hs
        exact .copiesDone outcome moved hworker hcopies
      · rename_i hcopies
        cases outcome <;> cases hs
        · exact .copied moved hworker hcopies
        · exact .copyMissing moved hworker hcopies
        · exact .copyFailed moved hworker hcopies
    · cases hs
  | snapshot memory =>
    simp only [State.workerStep] at hs
    split at hs
    · rename_i hworker
      cases hs
      exact .snapshot memory hworker
    · cases hs
  | acquire ok =>
    simp only [State.workerStep] at hs
    split at hs
    · rename_i hworker
      cases ok <;> cases hs
      · exact .notAcquired hworker
      · exact .acquired hworker
    · cases hs
  | paint ok found moved =>
    simp only [State.workerStep] at hs
    split at hs
    · rename_i hworker
      cases hs
      exact .paint ok found moved hworker
    · cases hs
  | present presented =>
    simp only [State.workerStep] at hs
    split at hs
    · rename_i hworker
      cases hs
      exact .present presented hworker
    · cases hs
  | record =>
    simp only [State.workerStep] at hs
    split at hs
    · rename_i hworker
      cases hs
      exact .record hworker
    · cases hs
  | endDraw =>
    simp only [State.workerStep] at hs
    split at hs
    · rename_i hworker
      cases hs
      exact .endDraw hworker
    · cases hs
  | retire =>
    simp only [State.workerStep] at hs
    split at hs
    · rename_i hworker
      split at hs
      · rename_i hremoved
        cases hs
        exact .removed hworker hremoved
      · rename_i hnone
        cases hs
        exact .retired hworker (Nat.eq_zero_of_not_pos hnone)
    · cases hs
  | releaseGraphics =>
    simp only [State.workerStep] at hs
    split at hs
    · rename_i hworker
      cases hs
      exact .releaseGraphics hworker
    · cases hs
  | exit =>
    simp only [State.workerStep] at hs
    split at hs
    · rename_i hworker
      cases hs
      exact .exit hworker
    · cases hs
  | _ => simp [State.workerStep] at hs

end Lorie.RendererThread
