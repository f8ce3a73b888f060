import Lorie.Cursor.Bound
import Lorie.Cursor.Host
import Lorie.Lib.Transition

/-!
# The host shows the cursor of X

- `Sound`: what holds in every state that a run reaches;
- `cursor_accepted`: every event that is sent is one that the host accepts, for an output that is bound to its window, and
  `lorieCursorSet` stays within its memory;
- `cursor_told`: after a redraw the host has been told the cursor of X, in whatever pieces it reads the stream.
-/

namespace Lorie.Cursor

open Lib
open Outputs
open Connection (Sent Callbacks Conn Call encode)

/-- What holds in every state -/
structure Sound (s : State) : Prop where
  drawn : Drawn s.msbFirst s.current s.cursor
  inside : Inside s.registry s.cursor
  bounded : ∀ id window, Bound s.registry.leases id window → id < 2 ^ 32 ∧ window < 2 ^ 32
  queued : ∀ c e, .command c e ∈ s.registry.work → c.output < 2 ^ 32 ∧ c.window < 2 ^ 32
  /-- What is not pending was the last thing sent. -/
  last : s.registry.connected = true → s.shut = false → s.cursor.cursorOutput ≠ 0 → s.cursor.cursorPending = false →
    s.sent.getLast? = some s.cursor.lorieSendCursor
  valid : ∀ e ∈ s.sent, e.Valid

section Steps

variable {s t : State}

/-- The event of the cursor fits. -/
theorem Sound.fits (h : Sound s) (houtput : s.cursor.cursorOutput ≠ 0) : Fits s.cursor := by
  obtain ⟨ho, hw⟩ := h.bounded _ _ (h.inside houtput)
  exact ⟨h.drawn.length, h.drawn.valid, ho, hw⟩

theorem sound_init (msbFirst : Bool) : Sound (init msbFirst) where
  drawn := drawn_init msbFirst
  inside := .of_zero rfl
  bounded := by
    rintro id window ⟨o, ho, -⟩
    cases ho
  queued := by
    intro c e he
    cases he
  last := by
    intro hconnected
    cases hconnected
  valid := by
    intro e he
    cases he

/-- The picture does not depend on the output. -/
theorem Moves.drawn {msbFirst : Bool} {current : Option (Option CursorRec × Bool)} {v w : Variables} (h : Moves v w)
    (hd : Drawn msbFirst current v) : Drawn msbFirst current w where
  length := h.pixels ▸ hd.length
  valid := h.info ▸ hd.valid
  shown := by
    have hshown : w.shown = v.shown := by
      unfold Variables.shown
      rw [h.info, h.pixels]
    exact hshown.trans hd.shown

/-- An event that is not pending does not change. -/
theorem Moves.lorieSendCursor {v w : Variables} (h : Moves v w) (hpending : w.cursorPending = false) :
    v.cursorPending = false ∧ v.cursorOutput = w.cursorOutput ∧ w.lorieSendCursor = v.lorieSendCursor := by
  rcases h.output with ⟨ho, hw, hp⟩ | hp
  · refine ⟨hp ▸ hpending, ho.symm, ?_⟩
    unfold Variables.lorieSendCursor Variables.event
    rw [ho, hw, h.info, h.pixels]
  · rw [hpending] at hp
    cases hp

/-- A new connection finds no output selected. -/
theorem connects_output {a : Registry.Action} (h : s.connects a = true) :
    (s.cursor.afterRegistry s.registry a).cursorOutput = 0 := by
  unfold State.connects at h
  split at h
  · next env exported =>
    obtain ⟨ws, hwork⟩ := List.head?_eq_some_iff.1 (of_decide_eq_true h)
    simp only [Variables.afterRegistry, hwork]
    exact resetCursor_output ..
  · cases h

/-- Only a connection that is made is new. -/
theorem connected_of_step {a : Registry.Action} {r : Registry.State} (hs : Registry.step s.registry a = some r)
    (hconnects : s.connects a = false) (hr : r.connected = true) : s.registry.connected = true := by
  cases operated hs with
  | alike _ _ _ hconnected _ => exact hconnected hr
  | receive c e ht =>
    rw [ht] at hr
    exact hr
  | command c e env exported ws hwork hnew ht =>
    rw [ht, command_connected] at hr
    exact hr
  | connect env exported ws hwork _ _ => simp [State.connects, hwork] at hconnects
  | close ht =>
    rw [ht] at hr
    exact hr

/-- The outputs that are bound and the commands that are queued after an operation -/
theorem Sound.bounds (h : Sound s) {a : Registry.Action} {r : Registry.State} (hs : Registry.step s.registry a = some r)
    (htyped : Typed s (.registry a)) : (∀ id window, Bound r.leases id window → id < 2 ^ 32 ∧ window < 2 ^ 32) ∧
      ∀ c e, .command c e ∈ r.work → c.output < 2 ^ 32 ∧ c.window < 2 ^ 32 := by
  cases operated hs with
  | alike _ hsame hwork _ _ =>
    exact ⟨fun id window hb => h.bounded id window (hsame.bound.1 hb), fun c e hc => h.queued c e (hwork c e hc)⟩
  | receive c e ht =>
    rw [ht]
    refine ⟨h.bounded, fun d e' hd => ?_⟩
    rcases List.mem_append.1 hd with hd | hd
    · exact h.queued d e' hd
    · cases List.mem_singleton.1 hd
      exact htyped
  | command c e env exported ws hwork hnew ht =>
    have hhead := h.queued c e (hwork ▸ List.mem_cons_self)
    rw [ht]
    refine ⟨fun id window hb => ?_, fun d e' hd => ?_⟩
    · rcases bound_of_command hb with hb | ⟨rfl, rfl⟩
      · exact h.bounded id window hb
      · exact hhead
    · rw [command_work] at hd
      exact h.queued d e' (hwork ▸ List.mem_cons_of_mem _ hd)
  | connect env exported ws hwork hrest hnone =>
    refine ⟨fun id window hb => absurd hb (hnone id window), fun d e' hd => ?_⟩
    rw [hrest] at hd
    exact h.queued d e' (hwork ▸ List.mem_cons_of_mem _ hd)
  | close ht =>
    rw [ht]
    exact ⟨fun id window hb => absurd hb not_bound_reset, h.queued⟩

theorem Sound.registry (h : Sound s) {a : Registry.Action} (hs : step s (.registry a) = some t)
    (htyped : Typed s (.registry a)) : Sound t := by
  simp only [step, Option.bind_eq_bind, Option.bind_eq_some_iff] at hs
  obtain ⟨r, hr, hs⟩ := hs
  have hmoves := Moves.afterRegistry s.registry a s.cursor
  obtain ⟨hbounded, hqueued⟩ := h.bounds hr htyped
  cases hconnects : s.connects a with
  | true =>
    simp only [hconnects, if_true] at hs
    cases hs
    exact ⟨hmoves.drawn h.drawn, h.inside.afterRegistry hr, hbounded, hqueued,
      fun _ _ hne => absurd (connects_output hconnects) hne, by simp⟩
  | false =>
    simp only [hconnects, Bool.false_eq_true, if_false] at hs
    cases hs
    refine ⟨hmoves.drawn h.drawn, h.inside.afterRegistry hr, hbounded, hqueued, fun hconnected hshut hne hpending => ?_, h.valid⟩
    obtain ⟨hp, ho, hsent⟩ := hmoves.lorieSendCursor hpending
    dsimp only at hne ⊢
    rw [hsent]
    exact h.last (connected_of_step hr hconnects hconnected) hshut (ho ▸ hne) hp

theorem Sound.setCursor (h : Sound s) {mouse root : Bool} {given : Option CursorRec}
    (hs : step s (.setCursor mouse given root) = some t) (htyped : Typed s (.setCursor mouse given root)) : Sound t := by
  simp only [step] at hs
  split at hs
  · obtain ⟨w, hw, hdrawn, hpending, ho, hwindow⟩ := lorieCursorSet_drawn s.msbFirst root h.drawn.length htyped
    obtain ⟨v, hv, hs⟩ := Option.bind_eq_some_iff.1 hs
    rw [hw] at hv
    cases hv
    cases hs
    refine ⟨hdrawn, ?_, h.bounded, h.queued, fun _ _ _ hfalse => ?_, h.valid⟩
    · intro hne
      dsimp only at hne ⊢
      rw [ho, hwindow]
      exact h.inside (ho ▸ hne)
    · rw [hpending] at hfalse
      cases hfalse
  · cases hs
    exact h

/-- What `lorieCursorPublish` does -/
theorem Sound.publish (h : Sound s) (written : Bool) : Sound (s.lorieCursorPublish written) := by
  unfold State.lorieCursorPublish
  split
  · exact h
  · next hsend =>
    have hne : s.cursor.cursorOutput ≠ 0 := fun he => hsend (.inl he)
    have hdrawn : Drawn s.msbFirst s.current { s.cursor with cursorPending := false } :=
      ⟨h.drawn.length, h.drawn.valid, h.drawn.shown⟩
    cases written with
    | true =>
      refine ⟨hdrawn, h.inside, h.bounded, h.queued, fun _ _ _ _ => ?_, ?_⟩
      · exact List.getLast?_concat
      · intro e he
        rcases List.mem_append.1 he with he | he
        · exact h.valid e he
        · cases List.mem_singleton.1 he
          have hfits := h.fits hne
          exact lorieSendCursor_valid ⟨hfits.length, hfits.valid, hfits.output, hfits.window⟩ hne
    | false => exact ⟨hdrawn, h.inside, h.bounded, h.queued, fun _ hshut => (by cases hshut), h.valid⟩

/-- **One step** keeps what holds in every state. -/
theorem Sound.step {a : Action} (h : Sound s) (htyped : Typed s a) (hs : step s a = some t) : Sound t := by
  cases a with
  | registry a => exact h.registry hs htyped
  | setCursor mouse given root => exact h.setCursor hs htyped
  | redraw alive written =>
    simp only [Cursor.step] at hs
    split at hs
    · cases hs
    · cases hs
      split
      · exact h.publish written
      · exact h

theorem sound {msbFirst : Bool} (h : Reach Cursor.step Typed (init msbFirst) s) : Sound s :=
  h.invariant (sound_init msbFirst) fun _ _ _ hs htyped ht => hs.step htyped ht

end Steps

/-! ## What the host is told -/

section Told

variable {s t : State} {msbFirst : Bool}

/-- Other events tell nothing about the cursor. -/
theorem told_other {e : Sent} (he : ∀ event pixels, e ≠ .cursor event pixels) (cb : Callbacks) :
    (e.callbacks cb).filterMap told = [] := by
  cases e with
  | cursor event pixels => exact absurd rfl (he event pixels)
  | outputFrame event =>
    simp only [Sent.callbacks]
    split
    all_goals first | rfl | (unfold Connection.given; split <;> rfl)
  | shellInfo event info =>
    simp only [Sent.callbacks]
    unfold Connection.given
    split <;> rfl
  | familyGeometry output info =>
    simp only [Sent.callbacks]
    unfold Connection.given
    split <;> rfl
  | _ => rfl

/-- The events of the cursor -/
def isCursor : Sent → Bool
  | .cursor .. => true
  | _ => false

/-- What a stream tells about the cursor is what its cursor events tell. -/
theorem told_stream (es : List Sent) (cb : Callbacks) :
    (es.flatMap (Sent.callbacks cb)).filterMap told =
      ((es.filter isCursor).flatMap (Sent.callbacks cb)).filterMap told := by
  induction es with
  | nil => rfl
  | cons e es ih =>
    rw [List.flatMap_cons, List.filterMap_append, ih]
    cases he : isCursor e with
    | true => rw [List.filter_cons_of_pos he, List.flatMap_cons, List.filterMap_append]
    | false =>
      have hother : ∀ event pixels, e ≠ .cursor event pixels := by
        rintro event pixels rfl
        cases he
      rw [told_other hother, List.nil_append, List.filter_cons_of_neg (by simp [he])]

/-- The last event is what was told last. -/
theorem told_last {es : List Sent} {v : Variables} (hlast : es.getLast? = some v.lorieSendCursor) (hfits : Fits v)
    {cb : Callbacks} (hcb : cb.cursor = true) :
    ((es.flatMap (Sent.callbacks cb)).filterMap told).getLast? = some (v.cursorOutput, v.cursorWindow, v.shown) := by
  obtain ⟨front, rfl⟩ := List.getLast?_eq_some_iff.1 hlast
  have hmap : (v.lorieSendCursor.callbacks cb).filterMap told = [(v.cursorOutput, v.cursorWindow, v.shown)] := by
    have hid := List.filterMap_map (f := told) (g := id) (l := v.lorieSendCursor.callbacks cb)
    rw [lorieSendCursor_told hfits hcb] at hid
    exact hid.symm
  rw [List.flatMap_append, List.flatMap_singleton, List.filterMap_append, hmap]
  exact List.getLast?_concat

/-- **Every event is accepted**: in every run all cursor events are valid ones for the host; an output that is selected is one
that is bound to the window of the event; and whatever cursor the X server sets, `lorieCursorSet` stays within the pixels, the
bitmaps and `cursorPixels`. -/
theorem cursor_accepted (h : Reach step Typed (init msbFirst) s) :
    (∀ e ∈ s.sent, e.Valid) ∧
    (s.cursor.cursorOutput ≠ 0 → ∃ o ∈ s.registry.leases.selections,
      (s.registry.node o).id = s.cursor.cursorOutput ∧ (s.registry.node o).window = s.cursor.cursorWindow) ∧
    ∀ mouse given root, Typed s (.setCursor mouse given root) → (step s (.setCursor mouse given root)).isSome := by
  have hs := sound h
  refine ⟨hs.valid, hs.inside, fun mouse given root htyped => ?_⟩
  cases mouse with
  | false => rfl
  | true =>
    obtain ⟨w, hw, -⟩ := lorieCursorSet_drawn s.msbFirst root hs.drawn.length htyped
    simp [step, hw]

/-- A redraw that finds the connection alive leaves nothing pending. -/
theorem redraw_sent (hs : step s (.redraw true true) = some t) (hconnected : t.registry.connected = true)
    (houtput : t.cursor.cursorOutput ≠ 0) : t.shut = false ∧ t.cursor.cursorPending = false := by
  simp only [step, and_true] at hs
  split at hs
  · cases hs
  · next hshut =>
    have hshut : s.shut = false := by simpa using hshut
    simp only [Bool.and_true, Option.some.injEq] at hs
    subst hs
    split at hconnected
    · next hs =>
      rw [if_pos hs] at houtput ⊢
      unfold State.lorieCursorPublish at houtput ⊢
      split at houtput
      · next hskip =>
        rw [if_pos hskip]
        exact ⟨hshut, by simpa using hskip.resolve_left houtput⟩
      · next hsend =>
        rw [if_neg hsend]
        exact ⟨hshut, rfl⟩
    · next hs => exact absurd hconnected hs

/-- **The host shows the cursor of X**: after a redraw that finds the connection alive and whose writes succeed, if an output
is selected for the cursor, then a host that reads the stream to its end, in whatever pieces and with whatever other events in
between, was last told that output, its window, and the picture of the cursor that X set last. -/
theorem cursor_told (h : Reach step Typed (init msbFirst) s) (hs : step s (.redraw true true) = some t)
    (hconnected : t.registry.connected = true) (houtput : t.cursor.cursorOutput ≠ 0) {es : List Sent} (hes : ∀ e ∈ es, e.Valid)
    (hsent : es.filter isCursor = t.sent) {cb : Callbacks} (hcb : cb.cursor = true) {ks : List Call}
    (hks : ∀ k ∈ ks, k.Healthy) (hread : (Conn.run cb ks (.start es)).stream = []) :
    ((Conn.run cb ks (.start es)).calls.filterMap told).getLast? =
      some (t.cursor.cursorOutput, t.cursor.cursorWindow, picture t.msbFirst t.current) := by
  have ht := (sound h).step (a := .redraw true true) trivial hs
  obtain ⟨hshut, hpending⟩ := redraw_sent hs hconnected houtput
  have hlast := ht.last hconnected hshut houtput hpending
  rw [Connection.run_calls hes hks hread, told_stream, hsent, ← ht.drawn.shown]
  exact told_last hlast (ht.fits houtput) hcb

/-! ## A run -/

/-- A cursor of one pixel, half transparent -/
def pixelBits : CursorBits :=
  ⟨1, 1, 0, 0, false, some fun i => if i = 0 then some 0x80402010 else none, fun _ => none, fun _ => none⟩

def pixelCursor : CursorRec := ⟨some pixelBits, 0, 0, 0, 0, 0, 0⟩

theorem pixelBits_whole : pixelBits.Whole where
  argb := by
    intro argb hargb i hi
    cases hargb
    have hzero : i = 0 := by
      have hlt : i < 1 := hi
      omega
    simp [hzero]
  bitmaps := by
    intro hnone
    cases hnone

theorem typed_pixel (s : State) : Typed s (.setCursor true (some pixelCursor) false) := by
  intro c hc bits hbits
  cases hc
  cases hbits
  exact pixelBits_whole

/-- The host binds an output to a window and moves the pointer over it. -/
def pointerRun : List Action :=
  ([Registry.Action.createWindow 100] ++ Registry.connect ++
    Registry.command (Registry.outputCommand .bind 1 100 0 0 0) (some 10) ++
    Registry.command (Registry.outputCommand .pointer 1 100 5 5 0) none).map Action.registry

theorem pointerRun_typed : ∀ a ∈ pointerRun, ∀ s, Typed s a := by
  intro a ha s
  simp only [pointerRun, Registry.connect, Registry.command, List.cons_append, List.nil_append, List.map_cons, List.map_nil,
    List.mem_cons, List.not_mem_nil, or_false] at ha
  rcases ha with rfl | rfl | rfl | rfl | rfl | rfl | rfl
  all_goals first | exact trivial | exact ⟨by decide, by decide⟩

/-- A state in which the pointer is on the output -/
theorem exists_pointer : ∃ s, Reach step Typed (init false) s ∧ s.registry.connected = true ∧ s.shut = false ∧
    s.cursor.cursorOutput = 1 ∧ s.cursor.cursorWindow = 100 ∧ s.sent = [] ∧ s.msbFirst = false := by
  have hrun : (exec step (init false) pointerRun).any (fun s => s.registry.connected && !s.shut &&
      s.cursor.cursorOutput = 1 && s.cursor.cursorWindow = 100 && s.sent.isEmpty && !s.msbFirst) = true := by
    decide +kernel
  obtain ⟨s, hs, hstate⟩ := (Option.any_eq_true ..).1 hrun
  simp only [Bool.and_eq_true, Bool.not_eq_true', decide_eq_true_eq, List.isEmpty_iff] at hstate
  obtain ⟨⟨⟨⟨⟨hconnected, hshut⟩, houtput⟩, hwindow⟩, hsent⟩, hmsb⟩ := hstate
  exact ⟨s, .of_exec_all pointerRun_typed hs, hconnected, hshut, houtput, hwindow, hsent, hmsb⟩

theorem cursor_accepted_pixel : ∃ s, Reach step Typed (init false) s ∧ s.cursor.cursorOutput = 1 ∧
    (step s (.setCursor true (some pixelCursor) false)).isSome := by
  obtain ⟨s, hs, -, -, houtput, -⟩ := exists_pointer
  exact ⟨s, hs, houtput, (cursor_accepted hs).2.2 true (some pixelCursor) false (typed_pixel s)⟩

/-- A state in which the cursor of one pixel was published -/
theorem exists_published : ∃ s t, Reach step Typed (init false) s ∧ step s (.redraw true true) = some t ∧
    t.registry.connected = true ∧ t.cursor.cursorOutput = 1 ∧ t.cursor.cursorWindow = 100 ∧ t.msbFirst = false ∧
    t.current = some (some pixelCursor, false) ∧ t.sent.filter isCursor = t.sent := by
  obtain ⟨s, hs, hconnected, hshut, houtput, hwindow, hsent, hmsb⟩ := exists_pointer
  obtain ⟨w, hw, -, hpending, ho, hwin⟩ :=
    lorieCursorSet_drawn s.msbFirst false (sound hs).drawn.length (typed_pixel s)
  have hset : step s (.setCursor true (some pixelCursor) false) =
      some { s with cursor := w, current := some (some pixelCursor, false) } := by
    simp [step, hw]
  have hne : w.cursorOutput ≠ 0 := by
    rw [ho, houtput]
    decide
  obtain ⟨e, he⟩ : ∃ e, e = Variables.lorieSendCursor { w with cursorPending := false } := ⟨_, rfl⟩
  have hcursor : isCursor e = true := he ▸ rfl
  have hredraw : step { s with cursor := w, current := some (some pixelCursor, false) } (.redraw true true) = some { s with
      cursor := { w with cursorPending := false }
      current := some (some pixelCursor, false)
      sent := [e] } := by
    simp [step, hshut, hconnected, State.lorieCursorPublish, hne, hpending, hsent, he]
  exact ⟨_, _, hs.trans (.head (typed_pixel s) hset .refl), hredraw, hconnected, ho.trans houtput, hwin.trans hwindow, hmsb, rfl,
    by simp [hcursor]⟩

theorem cursor_told_pixel : ∃ s t, Reach step Typed (init false) s ∧ step s (.redraw true true) = some t ∧
    ∀ cb : Callbacks, cb.cursor = true → ∃ ks, ((Conn.run cb ks (.start t.sent)).calls.filterMap told).getLast? =
      some (1, 100, .image 1 1 0 0 [0x80402010]) := by
  obtain ⟨s, t, hs, ht, hconnected, houtput, hwindow, hmsb, hcurrent, hsent⟩ := exists_published
  have hvalid := ((sound hs).step (a := .redraw true true) trivial ht).valid
  have hks : ∀ k ∈ List.replicate (encode t.sent).length Call.whole, k.Healthy := by
    intro k hk
    rw [List.eq_of_mem_replicate hk]
    exact ⟨rfl, nofun, nofun, nofun⟩
  have hreads : (encode t.sent).length ≤ (List.replicate (encode t.sent).length Call.whole).countP Call.reads := by
    rw [List.countP_replicate]
    exact Nat.le_refl _
  have hpicture : picture false (some (some pixelCursor, false)) = .image 1 1 0 0 [0x80402010] := by decide +kernel
  refine ⟨s, t, hs, ht, fun cb hcb => ?_⟩
  have htold := cursor_told hs ht hconnected (by simp [houtput]) hvalid hsent hcb hks
    (Connection.run_stream hvalid hks hreads)
  rw [houtput, hwindow, hmsb, hcurrent, hpicture] at htold
  exact ⟨_, htold⟩

end Told

end Lorie.Cursor
