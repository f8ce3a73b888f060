import Lorie.DataExchange.Operations
import Lorie.Lib.Potential

/-!
# The renegotiation of a drop

A target that refused the position is asked again when data arrived since, and only then: `dataRevision` counts the
transfers that ended well, and a position brings `positionDataRevision` up to it. `State.behind` is the potential that
pays for the positions of `dropDrag`; a transfer that ends well pays it back.

- `behind_dropDrag`, `Acts.behind`: a position of `dropDrag` uses the potential up, and a success gives one unit;
- `behind_step`: the same for every operation without a command of the host;
- `dragStatus_refused`, `dragStatus_accepted`: what a status does to a pending drop;
- `drop_renegotiation`: the positions are at most as many as the transfers, and a drop ends once.
-/

namespace Lorie.DataExchange

open Lorie.Lib State

/-! ## What goes out -/

/-- `XdndPosition` -/
def Output.isPosition : Output → Bool
  | .message _ _ (.position ..) => true
  | _ => false

/-- `XdndDrop` -/
def Output.isDrop : Output → Bool
  | .message _ _ (.drop ..) => true
  | _ => false

/-- `LORIE_DATA_FINISH` -/
def Output.isFinish : Output → Bool
  | .emit .finish .. => true
  | _ => false

/-- `LORIE_DATA_FINISH` with the result 0 -/
def Output.isRefusal : Output → Bool
  | .emit .finish _ _ _ _ _ _ _ false => true
  | _ => false

theorem apart_of_ofDrag {o : Output} (h : o.ofDrag = false) :
    o.isPosition = false ∧ o.isDrop = false ∧ o.isFinish = false := by
  cases o with
  | emit operation => cases operation <;> first | exact ⟨rfl, rfl, rfl⟩ | cases h
  | message destination actual m => cases m <;> first | exact ⟨rfl, rfl, rfl⟩ | cases h
  | notify => exact ⟨rfl, rfl, rfl⟩
  | releaseButton => exact ⟨rfl, rfl, rfl⟩

/-- How many positions went out. -/
def State.positions (s : State) : Nat := s.log.countP Output.isPosition

/-- Data came since the last position. -/
def State.behind (s : State) : Nat := if s.drag.dataRevision = s.drag.positionDataRevision then 0 else 1

theorem behind_le (s : State) : s.behind ≤ 1 := by
  unfold State.behind
  split <;> omega

/-- The positions that the queued move of the pointer sends. -/
def State.moved (s : State) : Action → Nat
  | .clientMessage window .status first bit copy a =>
    if s.FromTarget window first then ((s.takeStatus (bit && copy)).moveQueued a).positions - s.positions else 0
  | _ => 0

/-- The positions that `dropDrag` sends in a step: all but those of the queued move. -/
def State.renegotiated (s : State) (a : Action) (t : State) : Nat := t.positions - s.positions - s.moved a

/-- The transfers to the target, of the current generation, that end well in a step. -/
def State.completed (s : State) : Action → Nat
  | .propertyWork a =>
    match s.work with
    | (i, k) :: _ =>
      if s.enabled = true ∧ (s.transfers i).used = true ∧ (s.transfers i).ticket = k ∧ s.Tells i (s.transfers i) false a
      then 1 else 0
    | [] => 0
  | .dataCommand e fd a =>
    match s.replied? e.selected e.serial e.offer with
    | some i =>
      if e.channel ≤ 1 ∧ s.enabled = true ∧ s.bridge ≠ none ∧ e.operation = .reply ∧ s.ReplyTells i a fd a.stat then 1
      else 0
    | none => 0
  | _ => 0

/-! ## The functions of the drag -/

section Drag

theorem Avoids.countP {p : Output → Bool} {l : List Output} (h : Avoids p l) : l.countP p = 0 :=
  List.countP_eq_zero.2 fun o ho => Bool.eq_false_iff.1 (h o ho)

variable {s t : State} {e : Event} {a : Answers}

theorem positions_append {l : List Output} (h : t.log = s.log ++ l) :
    t.positions = s.positions + l.countP Output.isPosition := by
  rw [State.positions, h, List.countP_append]
  rfl

/-- A message that is no position -/
theorem positions_message (s : State) (w v : Option Window) {m : Message}
    (hm : ∀ x, (Output.message x v m).isPosition = false) :
    (s.message w v m).positions = s.positions := by
  rw [positions_append (s := s) rfl, (avoids_delivered s w v hm).countP, Nat.add_zero]

theorem positions_message_le (s : State) (w v : Option Window) (m : Message) :
    (s.message w v m).positions ≤ s.positions + 1 := by
  have hle : (s.delivered w v m).length ≤ 1 := by
    unfold State.delivered
    repeat' split
    all_goals simp
  have hcount := List.countP_le_length (l := s.delivered w v m) (p := Output.isPosition)
  rw [positions_append (s := s) rfl]
  omega

theorem positions_emit (s : State) (o : Operation) (c : Channel) (n g : Nat) (m : Option Atom) (f : Option Nat) (k : Nat)
    (w : Option Window) (x : Bool) : (s.emit o c n g m f k w x).positions = s.positions := by
  rw [positions_append (s := s) rfl]
  rfl

theorem positions_leaveTarget (s : State) : s.leaveTarget.positions = s.positions := by
  unfold State.leaveTarget
  split
  · exact positions_message s _ _ fun _ => rfl
  · rfl

/-- The revisions of a drag -/
def State.revisions (s : State) : Nat × Nat := (s.drag.dataRevision, s.drag.positionDataRevision)

theorem behind_congr (h : t.revisions = s.revisions) : t.behind = s.behind := by
  obtain ⟨hd, hp⟩ := Prod.mk.inj h
  rw [State.behind, State.behind, hd, hp]

theorem retarget_frame (s : State) (p : Point) :
    (s.retarget p).revisions = s.revisions ∧ (s.retarget p).positions = s.positions := by
  have hpos := positions_leaveTarget s
  unfold State.retarget
  split
  · exact ⟨rfl, rfl⟩
  · dsimp only
    split
    · refine ⟨?_, (positions_message _ _ _ fun _ => rfl).trans hpos⟩
      simp [State.revisions]
    · refine ⟨?_, hpos⟩
      simp [State.revisions]

/-- A move sends nothing to its target, or a position that is up to date. -/
theorem moveDrag_sends (s : State) (e : Event) (a : Answers) :
    ((s.moveDrag e a).revisions = s.revisions ∧ (s.moveDrag e a).positions = s.positions) ∨
      ((s.moveDrag e a).behind = 0 ∧ (s.moveDrag e a).positions ≤ s.positions + 1) := by
  unfold State.moveDrag
  dsimp only
  split
  · exact .inl ⟨rfl, rfl⟩
  · split
    · exact .inl ⟨rfl, rfl⟩
    · rename_i p _
      obtain ⟨hrev, hpos⟩ := retarget_frame (s.withDrag fun d => { d with move := e }) p
      generalize (s.withDrag fun d => { d with move := e }).retarget p = r at hrev hpos
      unfold State.sendPosition
      split
      · right
        refine ⟨if_pos rfl, (positions_message_le _ _ _ _).trans (Nat.add_le_add_right (Nat.le_of_eq ?_) 1)⟩
        exact hpos
      · exact .inl ⟨hrev, hpos⟩

theorem behind_moveDrag (s : State) (e : Event) (a : Answers) : (s.moveDrag e a).behind ≤ s.behind := by
  rcases moveDrag_sends s e a with ⟨hrev, -⟩ | ⟨hzero, -⟩
  · rw [behind_congr hrev]
  · omega

theorem rejectDrag_frame (s : State) : s.rejectDrag.revisions = s.revisions ∧ s.rejectDrag.positions = s.positions := by
  have hpos := positions_leaveTarget (s.withDrag fun d => { d with dropPending := false })
  unfold State.rejectDrag
  refine ⟨?_, (positions_emit _ _ _ _ _ _ _ _ _ _).trans hpos⟩
  simp [State.revisions]

/-- **A position of `dropDrag` is paid for**: it brings the revisions together. -/
theorem behind_dropDrag (s : State) (a : Answers) :
    (s.dropDrag a).behind + (s.dropDrag a).positions ≤ s.behind + s.positions := by
  have hsame : ∀ r : State, r.revisions = s.revisions ∧ r.positions = s.positions →
      r.behind + r.positions ≤ s.behind + s.positions := by
    rintro r ⟨hrev, hpos⟩
    rw [behind_congr hrev, hpos]
  unfold State.dropDrag
  split
  · exact hsame _ ⟨rfl, rfl⟩
  · split
    · exact hsame _ ⟨rfl, rfl⟩
    · split
      · rename_i hask
        have hbehind : s.behind = 1 := if_neg hask.2.2
        rcases moveDrag_sends (s.withDrag fun d => { d with dropPending := true }) s.drag.move a with hsend | ⟨hzero, hle⟩
        · exact hsame _ hsend
        · have hpos : (s.withDrag fun d => { d with dropPending := true }).positions = s.positions := rfl
          omega
      · split
        · exact hsame _ ⟨rfl, positions_message _ _ _ fun _ => rfl⟩
        · exact hsame _ (rejectDrag_frame _)

end Drag

/-- The pieces of an operation: a success gives one unit of the potential, and positions use it up. -/
theorem Acts.behind {m : Nat} {s t : State} (h : Acts m s t) : t.behind + t.positions ≤ s.behind + s.positions + m := by
  induction h with
  | refl s => omega
  | trans _ _ ih ih' => omega
  | @frame s t _ _ _ _ hd hl =>
    obtain ⟨l, hav, hl⟩ := hl
    have hzero : l.countP Output.isPosition = 0 :=
      List.countP_eq_zero.2 fun o ho => Bool.eq_false_iff.1 (apart_of_ofDrag (hav o ho)).1
    rw [behind_congr (s := s) (by rw [State.revisions, hd]; rfl), positions_append hl]
    omega
  | @write s i x _ => exact Nat.le_refl _
  | @begins s t i incoming c serial generation timer _ ha =>
    obtain ⟨-, rfl⟩ := allocate_eq ha
    exact Nat.le_refl _
  | finished s x success a =>
    by_cases hx : s.Awaits x ∧ s.drag.target ≠ none
    · rw [selectionFinished_eq hx.1 hx.2]
      dsimp only
      cases success with
      | false =>
        simp only [Bool.false_eq_true, if_false]
        split
        · exact Nat.le_add_right _ _
        · obtain ⟨hrev, hpos⟩ := rejectDrag_frame s
          rw [behind_congr hrev, hpos]
          exact Nat.le_add_right _ _
      | true =>
        have hcounts : s.counts x true = 1 := if_pos ⟨rfl, hx.1⟩
        have hone := behind_le (s.withDrag fun d => { d with dataRevision := d.dataRevision + 1 })
        have hpos : (s.withDrag fun d => { d with dataRevision := d.dataRevision + 1 }).positions = s.positions := rfl
        rw [hcounts]
        simp only [if_true]
        split
        · omega
        · have hdrop := behind_dropDrag (s.withDrag fun d => { d with dataRevision := d.dataRevision + 1 }) a
          omega
    · rw [not_and_or, Decidable.not_not] at hx
      rcases hx with hx | ht
      · rw [selectionFinished_other hx]
        exact Nat.le_add_right _ _
      · rw [selectionFinished_none ht]
        exact Nat.le_add_right _ _

theorem positions_le_drag {s t : State} (h : DragStep s t) : s.positions ≤ t.positions := by
  obtain ⟨d, l, -, -, rfl⟩ := h
  have happ := positions_append (s := s) (t := { s with drag := d, log := s.log ++ l }) rfl
  omega

theorem Acts.positions_le {m : Nat} {s t : State} (h : Acts m s t) : s.positions ≤ t.positions := by
  induction h with
  | refl s => exact Nat.le_refl _
  | trans _ _ ih ih' => exact Nat.le_trans ih ih'
  | frame _ _ _ _ _ hl =>
    obtain ⟨l, -, hl⟩ := hl
    rw [positions_append hl]
    exact Nat.le_add_right _ _
  | write _ => exact Nat.le_refl _
  | begins _ ha =>
    obtain ⟨-, rfl⟩ := allocate_eq ha
    exact Nat.le_refl _
  | finished s x success a => exact positions_le_drag ((DragStep.refl s).selectionFinished x success a)

theorem Acts.behind_le {s t : State} (h : Acts 0 s t) : t.behind ≤ s.behind := by
  have := h.behind
  have := h.positions_le
  omega

/-! ## Operations without a command of the host -/

/-- The steps after a drop: no command of the host, but the answers to transfers that have none yet. -/
def State.Undisturbed (s : State) : Action → Prop
  | .dataCommand e _ _ =>
    e.operation = .reply ∧ ∀ i, s.replied? e.selected e.serial e.offer = some i → (s.transfers i).incremental = false
  | .dataReset => False
  | _ => True

section Steps

variable {s t : State} {e : Event} {a : Answers}

/-- `LORIE_DATA_REPLY` tells the drag of its transfer. -/
theorem acts_reply (he : e.operation = .reply) (fd : Bool) (a : Answers) :
    ∃ r m, r.drag = s.drag ∧ r.log = s.log ∧ Acts m r (s.lorieDataCommand e fd a) ∧
      (s.completed (.dataCommand e fd a) = 0 → m = 0) ∧
      ((∀ i, s.replied? e.selected e.serial e.offer = some i → (s.transfers i).incremental = false) → m ≤ 1) := by
  have hcommand : ∀ (k : Nat) (l : List Request) (f : Option Nat), f.isSome = fd →
      ∃ m, Acts m { s with created := k, requests := l } (State.command { s with created := k, requests := l } e f a) ∧
        (s.completed (.dataCommand e fd a) = 0 → m = 0) ∧
        ((∀ i, s.replied? e.selected e.serial e.offer = some i → (s.transfers i).incremental = false) → m ≤ 1) := by
    intro k l f hf
    have hrefl := Acts.refl { s with created := k, requests := l }
    have hnone : ∀ r, Acts 0 { s with created := k, requests := l } r → ∃ m, Acts m { s with created := k, requests := l } r ∧
        (s.completed (.dataCommand e fd a) = 0 → m = 0) ∧
        ((∀ i, s.replied? e.selected e.serial e.offer = some i → (s.transfers i).incremental = false) → m ≤ 1) :=
      fun r hr => ⟨0, hr, fun _ => rfl, fun _ => Nat.zero_le 1⟩
    unfold State.command
    split
    · exact hnone _ (hrefl.close f)
    · rename_i hchannel
      rw [if_neg (by rw [he]; nofun)]
      split
      · exact hnone _ (hrefl.close f)
      · rename_i hlive
        rw [not_or] at hlive
        have hon : s.enabled = true := by simpa using hlive.1
        unfold State.operate
        rw [he]
        dsimp only
        obtain ⟨m, hm, hzero, hone⟩ := hrefl.reply e.selected e f a
        rw [Nat.zero_add] at hm
        refine ⟨m, hm, fun hcompleted => hzero fun i hi htells => ?_, hone⟩
        have hi' : s.replied? e.selected e.serial e.offer = some i := hi
        have htells' : s.ReplyTells i a fd a.stat := hf ▸ htells
        unfold State.completed at hcompleted
        dsimp only at hcompleted
        rw [hi'] at hcompleted
        dsimp only at hcompleted
        rw [if_pos ⟨by omega, hon, hlive.2, he, htells'⟩] at hcompleted
        cases hcompleted
  unfold State.lorieDataCommand
  cases fd with
  | false =>
    obtain ⟨m, hm⟩ := hcommand s.created (s.ask e).requests none rfl
    exact ⟨s.ask e, m, rfl, rfl, hm⟩
  | true =>
    obtain ⟨m, hm⟩ := hcommand (s.created + 1) (s.ask e).requests (some s.created) rfl
    exact ⟨(s.ask e).newFd.2, m, rfl, rfl, hm⟩

/-- An operation without a command of the host is a message of the target, or tells the drag what it completes. -/
theorem undisturbed_acts {b : Action} (hok : s.Undisturbed b) (hs : step s b = some t) :
    (∃ r m, r.drag = s.drag ∧ r.log = s.log ∧ Acts m r t ∧ m ≤ s.completed b) ∨
    ∃ window first bit copy a, s.FromTarget window first ∧
      ((b = .clientMessage window .status first bit copy a ∧ t = s.dragStatus (bit && copy) a) ∨
        (b = .clientMessage window .finished first bit copy a ∧ t = s.dragFinished bit)) := by
  cases happens_of_step hs with
  | acts h => exact .inl ⟨s, 0, rfl, rfl, h, Nat.zero_le _⟩
  | @queue i a _ _ =>
    exact .inl ⟨{ s.setTransfer i { s.transfers i with queued := true } with
      work := s.work ++ [(i, (s.transfers i).ticket)] }, 0, rfl, rfl, .refl _, Nat.zero_le _⟩
  | @work i k rest a hw hon hu hk =>
    refine .inl ⟨State.setTransfer { s with work := rest } i { s.transfers i with queued := false }, _, rfl, rfl,
      Acts.workOn (s := { s with work := rest }) hu a, ?_⟩
    have hcompleted : s.completed (.propertyWork a) = if s.enabled = true ∧ (s.transfers i).used = true ∧
        (s.transfers i).ticket = k ∧ s.Tells i (s.transfers i) false a then 1 else 0 := by
      unfold State.completed
      rw [hw]
    show (if s.Tells i (s.transfers i) false a then 1 else 0) ≤ _
    rw [hcompleted]
    by_cases htells : s.Tells i (s.transfers i) false a
    · rw [if_pos htells, if_pos ⟨hon, hu, hk, htells⟩]
    · rw [if_neg htells]
      exact Nat.zero_le _
  | @drop i k rest a hw hne => exact .inl ⟨{ s with work := rest }, 0, rfl, rfl, .refl _, Nat.zero_le _⟩
  | @status window first bit copy a h => exact .inr ⟨window, first, bit, copy, a, h, .inl ⟨rfl, rfl⟩⟩
  | @finished window first bit copy a h => exact .inr ⟨window, first, bit, copy, a, h, .inr ⟨rfl, rfl⟩⟩
  | command e fd a =>
    obtain ⟨r, m, hd, hl, hm, hzero, hone⟩ := acts_reply hok.1 fd a
    refine .inl ⟨r, m, hd, hl, hm, ?_⟩
    have := hone hok.2
    omega
  | reset => exact hok.elim

/-! ## The potential over steps -/

/-- The queued move is paid for by itself; the rest of a status is `dropDrag`. -/
theorem behind_dragStatus (s : State) (accepted : Bool) (a : Answers) :
    (s.dragStatus accepted a).behind + ((s.dragStatus accepted a).positions - s.positions -
      (((s.takeStatus accepted).moveQueued a).positions - s.positions)) ≤ s.behind := by
  have htake : DragStep s (s.takeStatus accepted) := ((DragStep.refl s).withDrag _).emit .status nofun _ _ _ _ _ _ _ _
  have hqueued : DragStep s ((s.takeStatus accepted).moveQueued a) ∧
      ((s.takeStatus accepted).moveQueued a).behind ≤ s.behind := by
    unfold State.moveQueued
    split
    · exact ⟨(htake.withDrag _).moveDrag _ a, behind_moveDrag _ _ a⟩
    · exact ⟨htake, Nat.le_refl _⟩
  unfold State.dragStatus
  dsimp only
  generalize (s.takeStatus accepted).moveQueued a = r at hqueued
  have hmono := positions_le_drag hqueued.1
  have hle := hqueued.2
  split
  · have hdrop := behind_dropDrag r a
    have hmono' := positions_le_drag ((DragStep.refl r).dropDrag a)
    omega
  · omega

theorem dragFinished_frame (s : State) (bit : Bool) :
    (s.dragFinished bit).revisions = s.revisions ∧ (s.dragFinished bit).positions = s.positions :=
  ⟨rfl, positions_emit s _ _ _ _ _ _ _ _ _⟩

/-- **Positions are paid for by transfers**, in every step after a drop. -/
theorem behind_step {b : Action} (hok : s.Undisturbed b) (hs : step s b = some t) :
    t.behind + s.renegotiated b t ≤ s.behind + s.completed b := by
  rcases undisturbed_acts hok hs with
    ⟨r, m, hd, hl, hm, hle⟩ | ⟨window, first, bit, copy, a, hfrom, ⟨rfl, rfl⟩ | ⟨rfl, rfl⟩⟩
  · have hrev : r.behind = s.behind := behind_congr (by rw [State.revisions, hd]; rfl)
    have hpos : r.positions = s.positions := by rw [State.positions, hl]; rfl
    have hpaid := hm.behind
    have hmono := hm.positions_le
    unfold State.renegotiated
    omega
  · have hstatus := behind_dragStatus s (bit && copy) a
    have hmoved : s.moved (.clientMessage window .status first bit copy a) =
        ((s.takeStatus (bit && copy)).moveQueued a).positions - s.positions := if_pos hfrom
    unfold State.renegotiated
    omega
  · obtain ⟨hrev, hpos⟩ := dragFinished_frame s bit
    unfold State.renegotiated
    rw [behind_congr hrev, hpos]
    omega

/-! ### Commands of the host -/

theorem behind_enterDrag (s : State) (c : Channel) (e : Event) : (s.enterDrag c e).behind ≤ s.behind := by
  unfold State.enterDrag
  dsimp only
  split
  · exact Nat.le_refl _
  · exact Nat.zero_le _

theorem behind_complete (s : State) (success : Bool) : (s.complete success).behind ≤ s.behind := by
  unfold State.complete
  split
  · exact ((Acts.refl s).report success).behind_le
  · exact Nat.le_refl _

theorem behind_operate (hon : s.enabled = true) (hr : e.operation ≠ .reply) (c : Channel) (fd : Option Nat) (a : Answers) :
    (s.operate c e fd a).behind ≤ s.behind := by
  have hrefl := Acts.refl s
  unfold State.operate
  split
  · exact ((hrefl.takeOffer c e fd a).close fd).behind_le
  · exact ((hrefl.read hon c e a).close fd).behind_le
  · rename_i hop
    exact absurd hop hr
  · exact behind_enterDrag s c e
  · exact behind_moveDrag s e a
  · have hrev : (s.leaveTarget.forgetDrag.close fd).revisions = s.revisions := by
      show (s.leaveTarget.drag.dataRevision, s.leaveTarget.drag.positionDataRevision) = _
      rw [drag_leaveTarget]
      rfl
    rw [behind_congr hrev]
  · have hdrop := behind_dropDrag s a
    have hmono := positions_le_drag ((DragStep.refl s).dropDrag a)
    show (s.dropDrag a).behind ≤ s.behind
    omega
  · exact behind_complete s _
  · exact behind_complete s _
  · exact ((hrefl.beginExport a).close fd).behind_le
  · exact Nat.le_refl _

theorem behind_enable (s : State) (e : Event) (a : Answers) : (s.enable e a).behind = s.behind := by
  unfold State.enable State.newWindow
  dsimp only
  repeat' split
  all_goals rfl

theorem behind_command (hr : e.operation ≠ .reply) (s : State) (fd : Option Nat) (a : Answers) :
    (s.command e fd a).behind ≤ s.behind := by
  unfold State.command
  split
  · exact Nat.le_refl _
  · split
    · exact Nat.le_of_eq (behind_enable s e a)
    · split
      · exact Nat.le_refl _
      · rename_i hlive
        rw [not_or] at hlive
        exact behind_operate (by simpa using hlive.1) hr e.selected fd a

theorem behind_lorieDataCommand (e : Event) (s : State) (fd : Bool) (a : Answers) :
    (s.lorieDataCommand e fd a).behind ≤ s.behind + s.completed (.dataCommand e fd a) := by
  by_cases hr : e.operation = .reply
  · obtain ⟨r, m, hd, hl, hm, hzero, -⟩ := acts_reply (s := s) hr fd a
    have hrev : r.behind = s.behind := behind_congr (by rw [State.revisions, hd]; rfl)
    have hone := behind_le (s.lorieDataCommand e fd a)
    by_cases hcompleted : s.completed (.dataCommand e fd a) = 0
    · have hm0 := hzero hcompleted
      subst hm0
      have := hm.behind_le
      omega
    · omega
  · unfold State.lorieDataCommand
    split
    · exact Nat.le_trans (behind_command hr (s.ask e).newFd.2 _ a) (Nat.le_add_right _ _)
    · exact Nat.le_trans (behind_command hr (s.ask e) none a) (Nat.le_add_right _ _)

theorem behind_lorieDataReset (s : State) : s.lorieDataReset.behind ≤ s.behind := by
  have hend := (Acts.refl s).endExport.behind_le
  have hall := ((acts_releases (List.finRange maxPending) { s.endExport freeResource with
    enabled := false
    clipboardActive := false
    abandoned := (s.endExport freeResource).abandoned ++
      (s.endExport freeResource).usedTransfers.filterMap Transfer.request }).frees (frees_freeBridge _)).behind_le
  exact Nat.le_trans hall hend

/-- Only a transfer that ends well takes the revisions apart, in every step. -/
theorem behind_any {b : Action} (hs : step s b = some t) : t.behind ≤ s.behind + s.completed b := by
  cases b with
  | dataCommand e fd a =>
    cases hs
    exact behind_lorieDataCommand e s fd a
  | dataReset =>
    cases hs
    exact Nat.le_trans (behind_lorieDataReset s) (Nat.le_add_right _ _)
  | _ =>
    have hpaid := behind_step (by trivial) hs
    omega

/-- `LORIE_DATA_DROP` asks again at most when data came since the last position. -/
theorem behind_drop (he : e.operation = .drop) {fd : Bool} (hs : step s (.dataCommand e fd a) = some t) :
    t.behind + s.renegotiated (.dataCommand e fd a) t ≤ s.behind := by
  have hcommand : ∀ (k : Nat) (l : List Request) (f : Option Nat), ∃ u,
      State.command { s with created := k, requests := l } e f a = u ∧ u.behind + (u.positions - s.positions) ≤ s.behind := by
    intro k l f
    refine ⟨_, rfl, ?_⟩
    have hdrop := behind_dropDrag { s with created := k, requests := l } a
    have hmono := positions_le_drag ((DragStep.refl { s with created := k, requests := l }).dropDrag a)
    unfold State.command State.operate
    rw [he]
    dsimp only
    have hsame : ∀ u : State, u.revisions = s.revisions → u.positions = s.positions →
        u.behind + (u.positions - s.positions) ≤ s.behind := by
      intro u hrev hpos
      rw [behind_congr hrev, hpos]
      omega
    split
    · exact hsame _ rfl rfl
    · rw [if_neg nofun]
      split
      · exact hsame _ rfl rfl
      · show (State.dropDrag { s with created := k, requests := l } a).behind +
          ((State.dropDrag { s with created := k, requests := l } a).positions - s.positions) ≤ s.behind
        have hpos : State.positions { s with created := k, requests := l } = s.positions := rfl
        have hbehind : State.behind { s with created := k, requests := l } = s.behind := rfl
        omega
  cases hs
  have hle : ∀ u : State, s.renegotiated (.dataCommand e fd a) u = u.positions - s.positions := fun u => Nat.sub_zero _
  rw [hle]
  unfold State.lorieDataCommand
  split
  · obtain ⟨u, rfl, hu⟩ := hcommand (s.created + 1) (s.ask e).requests (some s.created)
    exact hu
  · obtain ⟨u, rfl, hu⟩ := hcommand s.created (s.ask e).requests none
    exact hu

/-- `LORIE_DATA_ENTER` begins a drag. -/
def State.Enters (s : State) (e : Event) : Prop :=
  e.channel ≤ 1 ∧ s.enabled = true ∧ s.bridge ≠ none ∧ e.operation = .enter ∧
    ((s.offers e.selected).isLocal = true ∨ (e.x ≠ 0 ∧ (s.offers e.selected).generation = e.offer))

instance (s : State) (e : Event) : Decidable (s.Enters e) := inferInstanceAs (Decidable (_ ∧ _ ∧ _ ∧ _ ∧ _))

theorem behind_enters (he : s.Enters e) {fd : Bool} (hs : step s (.dataCommand e fd a) = some t) : t.behind = 0 := by
  obtain ⟨hchannel, hon, hbridge, hop, hbegin⟩ := he
  have hcommand : ∀ (k : Nat) (l : List Request) (f : Option Nat),
      (State.command { s with created := k, requests := l } e f a).behind = 0 := by
    intro k l f
    have hlive : ¬(s.enabled = false ∨ s.bridge = none) := by
      rw [hon]
      exact fun h => h.elim nofun hbridge
    unfold State.command State.operate State.enterDrag
    rw [if_neg (by omega), hop, if_neg nofun, if_neg hlive]
    dsimp only
    have htaken : ¬((decide (e.x ≠ 0) && !(s.offers e.selected).isLocal &&
        decide ((s.offers e.selected).generation = e.offer)) = false ∧ (s.offers e.selected).isLocal = false) := by
      rcases hbegin with hl | ⟨hx, hg⟩
      · rw [hl]
        nofun
      · rw [hg]
        cases (s.offers e.selected).isLocal <;> simp [hx]
    rw [if_neg htaken]
    rfl
  cases hs
  unfold State.lorieDataCommand
  split
  · exact hcommand (s.created + 1) (s.ask e).requests (some s.created)
  · exact hcommand s.created (s.ask e).requests none

end Steps

/-! ## The end of a drop -/

section Ends

variable {s t u : State} {a : Answers}

/-- No drop is pending, and no move of the pointer is queued. -/
def State.Done (s : State) : Prop := s.drag.dropPending = false ∧ s.drag.moveQueued = false

/-- Behind the end of a drop, neither a position nor a drop goes out; without a target, the host is told nothing more. -/
structure Over (s t : State) : Prop where
  done : s.Done → t.Done
  target : s.Done → s.drag.target = none → t.drag.target = none
  log : s.Done → ∃ l, t.log = s.log ++ l ∧ Avoids Output.isPosition l ∧ Avoids Output.isDrop l ∧
    (s.drag.target = none → Avoids Output.isFinish l)

namespace Over

theorem refl (s : State) : Over s s :=
  ⟨id, fun _ => id, fun _ => ⟨[], by rw [List.append_nil], .nil, .nil, fun _ => .nil⟩⟩

theorem trans (h : Over s t) (h' : Over t u) : Over s u := by
  refine ⟨h'.done ∘ h.done, fun hd ht => h'.target (h.done hd) (h.target hd ht), fun hd => ?_⟩
  obtain ⟨l, hl, hp, hx, hf⟩ := h.log hd
  obtain ⟨l', hl', hp', hx', hf'⟩ := h'.log (h.done hd)
  refine ⟨l ++ l', by rw [hl', hl, List.append_assoc], hp.append hp', hx.append hx', fun ht => ?_⟩
  exact (hf ht).append (hf' (h.target hd ht))

/-- The drag and the log stay as they are. -/
theorem of_same (hd : t.drag = s.drag) (hl : t.log = s.log) : Over s t := by
  have hrefl := refl s
  refine ⟨?_, ?_, ?_⟩
  · unfold State.Done
    rw [hd]
    exact id
  · rw [hd]
    exact fun _ => id
  · rw [hl]
    exact hrefl.log

theorem of_acts {m : Nat} (h : Acts m s t) : Over s t := by
  induction h with
  | refl s => exact .refl s
  | trans _ _ ih ih' => exact ih.trans ih'
  | @frame s t _ _ _ _ hd hl =>
    obtain ⟨l, hav, hl⟩ := hl
    refine ⟨?_, ?_, fun _ => ⟨l, hl, fun o ho => ?_, fun o ho => ?_, fun _ o ho => ?_⟩⟩
    · unfold State.Done
      rw [hd]
      exact id
    · rw [hd]
      exact fun _ => id
    · exact (apart_of_ofDrag (hav o ho)).1
    · exact (apart_of_ofDrag (hav o ho)).2.1
    · exact (apart_of_ofDrag (hav o ho)).2.2
  | write _ => exact of_same rfl rfl
  | begins _ ha =>
    obtain ⟨-, rfl⟩ := allocate_eq ha
    exact of_same rfl rfl
  | finished s x success a =>
    -- without a pending drop, a transfer that finishes is only counted
    have hquiet : s.Done → s.selectionFinished x success a = s ∨
        s.selectionFinished x success a = s.withDrag fun d => { d with dataRevision := d.dataRevision + 1 } := by
      intro hd
      by_cases hx : s.Awaits x ∧ s.drag.target ≠ none
      · rw [selectionFinished_eq hx.1 hx.2]
        cases success with
        | false => exact .inl (if_pos hd.1)
        | true => exact .inr (if_pos hd.1)
      · rw [not_and_or, Decidable.not_not] at hx
        rcases hx with hx | ht
        · exact .inl (selectionFinished_other hx _ _)
        · exact .inl (selectionFinished_none ht _ _ _)
    refine ⟨fun hd => ?_, fun hd ht => ?_, fun hd => ?_⟩
    · rcases hquiet hd with heq | heq
      · rw [heq]
        exact hd
      · rw [heq]
        exact hd
    · rcases hquiet hd with heq | heq
      · rw [heq]
        exact ht
      · rw [heq]
        exact ht
    · have hlog : (s.selectionFinished x success a).log = s.log := by
        rcases hquiet hd with heq | heq
        · rw [heq]
        · rw [heq]
          rfl
      rw [hlog]
      exact (refl s).log hd

/-- A status without a pending drop is reported to the host. -/
theorem status {window first : Option Window} (h : s.FromTarget window first) (accepted : Bool) (a : Answers) :
    Over s (s.dragStatus accepted a) := by
  have hquiet : s.Done → s.dragStatus accepted a = s.takeStatus accepted := by
    intro hd
    have hqueued : (s.takeStatus accepted).moveQueued a = s.takeStatus accepted := by
      refine if_neg fun hq => ?_
      have hq' : s.drag.moveQueued = true := hq
      rw [hd.2] at hq'
      cases hq'
    unfold State.dragStatus
    dsimp only
    rw [hqueued]
    refine if_neg fun hp => ?_
    have hp' : s.drag.dropPending = true := hp
    rw [hd.1] at hp'
    cases hp'
  have hnone : s.drag.target ≠ none := Option.isSome_iff_ne_none.1 h.2.2.1
  refine ⟨fun hd => ?_, fun _ ht => absurd ht hnone, fun hd => ?_⟩
  · rw [hquiet hd]
    exact hd
  · rw [hquiet hd]
    exact ⟨_, rfl, .singleton rfl, .singleton rfl, fun ht => absurd ht hnone⟩

theorem finished {window first : Option Window} (h : s.FromTarget window first) (bit : Bool) :
    Over s (s.dragFinished bit) := by
  have hnone : s.drag.target ≠ none := Option.isSome_iff_ne_none.1 h.2.2.1
  exact ⟨id, fun _ ht => absurd ht hnone, fun _ => ⟨_, rfl, .singleton rfl, .singleton rfl, fun ht => absurd ht hnone⟩⟩

theorem step {b : Action} (hok : s.Undisturbed b) (hs : step s b = some t) : Over s t := by
  rcases undisturbed_acts hok hs with
    ⟨r, m, hd, hl, hm, -⟩ | ⟨window, first, bit, copy, a, hfrom, ⟨-, rfl⟩ | ⟨-, rfl⟩⟩
  · exact (of_same hd hl).trans (of_acts hm)
  · exact status hfrom _ a
  · exact finished hfrom bit

theorem run {as : List Action} (hm : Meets DataExchange.step State.Undisturbed s as)
    (h : exec DataExchange.step s as = some t) : Over s t :=
  (hm.reach h).rel (I := fun _ => True) refl (fun _ _ _ => trans) trivial (fun _ _ _ _ _ _ => trivial)
    fun _ _ _ _ hok hs => step hok hs

end Over

/-- Behind a status for a pending drop, without a queued move, comes `dropDrag`. -/
theorem dragStatus_pending (hp : s.drag.dropPending = true) (hq : s.drag.moveQueued = false) (accepted : Bool)
    (a : Answers) : s.dragStatus accepted a = (s.takeStatus accepted).dropDrag a := by
  have hqueued : (s.takeStatus accepted).moveQueued a = s.takeStatus accepted := by
    refine if_neg fun h => ?_
    have h' : s.drag.moveQueued = true := h
    rw [hq] at h'
    cases h'
  unfold State.dragStatus
  dsimp only
  rw [hqueued]
  exact if_pos hp

/-- What a message delivers depends on the windows only. -/
theorem delivered_congr {s t : State} (h : s.windows = t.windows) (w v : Option Window) (m : Message) :
    s.delivered w v m = t.delivered w v m := by
  unfold State.delivered
  rw [h]

/-- What a status emits -/
abbrev State.statusEvent (s : State) (accepted : Bool) : Output :=
  .emit .status .drag 0 (s.offers .drag).generation none none s.drag.output s.drag.target accepted

/-- What a refused drop emits -/
abbrev State.refusalEvent (s : State) : Output :=
  .emit .finish .drag 0 (s.offers .drag).generation none none s.drag.output s.drag.target false

/-- A refusal of the target, when no data is pending and none came: the host is told once that the drop failed. -/
theorem dragStatus_refused (ht : s.drag.target.isSome = true) (hp : s.drag.dropPending = true)
    (hq : s.drag.moveQueued = false) (hdata : ¬s.dragDataPending)
    (hrev : s.drag.dataRevision = s.drag.positionDataRevision) (a : Answers) :
    (s.dragStatus false a).Done ∧ (s.dragStatus false a).drag.target = none ∧
      (s.dragStatus false a).log = s.log ++
        (s.statusEvent false :: (s.delivered s.drag.proxy s.drag.target (.leave s.drag.source) ++ [s.refusalEvent])) := by
  have hdrop : (s.takeStatus false).dropDrag a =
      ((s.takeStatus false).withDrag fun d => { d with dropPending := false }).rejectDrag := by
    have hrev' : ¬((s.takeStatus false).drag.dataRevision ≠ (s.takeStatus false).drag.positionDataRevision) :=
      not_not.2 hrev
    unfold State.dropDrag
    rw [if_neg (nofun : ¬(s.takeStatus false).drag.positionPending = true), if_neg fun hw => hdata hw.2.2,
      if_neg fun hw => hrev' hw.2.2, if_neg fun hw => nomatch hw.2]
  obtain ⟨r, hr⟩ : ∃ r, r = (((s.takeStatus false).withDrag fun d => { d with dropPending := false }).withDrag
    fun d => { d with dropPending := false }) := ⟨_, rfl⟩
  have hleave : r.leaveTarget = r.message r.drag.proxy r.drag.target (.leave r.drag.source) :=
    if_pos (by rw [hr]; exact ht)
  have hdone : r.Done := by
    rw [hr]
    exact ⟨rfl, hq⟩
  have hlog : r.log = s.log ++ [s.statusEvent false] := by
    rw [hr]
    rfl
  have hleft : r.delivered r.drag.proxy r.drag.target (.leave r.drag.source) =
      s.delivered s.drag.proxy s.drag.target (.leave s.drag.source) := by
    have hdrag : r.drag.proxy = s.drag.proxy ∧ r.drag.target = s.drag.target ∧ r.drag.source = s.drag.source := by
      rw [hr]
      exact ⟨rfl, rfl, rfl⟩
    rw [hdrag.1, hdrag.2.1, hdrag.2.2]
    exact delivered_congr (by rw [hr]; rfl) _ _ _
  have hrefusal : r.refusalEvent = s.refusalEvent := by
    rw [hr]
    rfl
  rw [dragStatus_pending hp hq, hdrop]
  unfold State.rejectDrag
  rw [← hr, hleave]
  refine ⟨hdone, rfl, ?_⟩
  calc
    _ = (r.log ++ r.delivered r.drag.proxy r.drag.target (.leave r.drag.source)) ++ [r.refusalEvent] := rfl
    _ = ((s.log ++ [s.statusEvent false]) ++ s.delivered s.drag.proxy s.drag.target (.leave s.drag.source)) ++
        [s.refusalEvent] := by rw [hlog, hleft, hrefusal]
    _ = _ := by simp only [List.append_assoc, List.cons_append, List.nil_append]

/-- The target takes the position: it is told to take the drop. -/
theorem dragStatus_accepted (ht : s.drag.target.isSome = true) (hp : s.drag.dropPending = true)
    (hq : s.drag.moveQueued = false) (a : Answers) :
    (s.dragStatus true a).Done ∧ (s.dragStatus true a).log = s.log ++
      (s.statusEvent true :: s.delivered s.drag.proxy s.drag.target (.drop s.drag.source a.now)) := by
  have hdrop : (s.takeStatus true).dropDrag a = ((s.takeStatus true).withDrag fun d => { d with dropPending := false
      }).message s.drag.proxy s.drag.target (.drop s.drag.source a.now) := by
    have htaken : (s.takeStatus true).drag.accepted ≠ false := nofun
    unfold State.dropDrag
    rw [if_neg (nofun : ¬(s.takeStatus true).drag.positionPending = true), if_neg fun hw => htaken hw.2.1,
      if_neg fun hw => htaken hw.2.1, if_pos ⟨ht, rfl⟩]
    rfl
  rw [dragStatus_pending hp hq, hdrop]
  refine ⟨⟨rfl, hq⟩, ?_⟩
  show (s.log ++ [s.statusEvent true]) ++ s.delivered s.drag.proxy s.drag.target (.drop s.drag.source a.now) = _
  simp only [List.append_assoc, List.singleton_append]

/-- A message to a window of a client goes out once. -/
theorem delivered_countP (s : State) (w v : Option Window) {m : Message} {p : Output → Bool}
    (hp : ∀ x, p (.message x v m) = true) :
    (s.delivered w v m).countP p ≤ 1 ∧
      ((s.delivered w v m).countP p = 1 ↔ ∃ x ∈ w, x ∈ s.windows ∧ x.clientOwned = true) := by
  unfold State.delivered
  cases w with
  | none => simp
  | some w =>
    dsimp only
    split
    · rename_i h
      simp [hp, h]
    · rename_i h
      simp only [List.countP_nil, Option.mem_def, Option.some.injEq, exists_eq_left']
      exact ⟨Nat.zero_le _, nofun, fun hc => absurd hc h⟩

end Ends

/-! ## Whole runs -/

/-- What goes out in a step -/
def Sends (s t : State) (P : List Output → Prop) : Prop := ∃ l, t.log = s.log ++ l ∧ P l

/-- The drop failed: the host is told so once, and nothing of the drop goes out any more. -/
structure Refused (s t : State) : Prop where
  once : Sends s t fun l => l.countP Output.isRefusal = 1 ∧ l.countP Output.isFinish = 1 ∧ Avoids Output.isPosition l ∧
    Avoids Output.isDrop l
  later : ∀ as u, Meets step State.Undisturbed t as → exec step t as = some u →
    Sends t u fun l => Avoids Output.isPosition l ∧ Avoids Output.isDrop l ∧ Avoids Output.isFinish l

/-- The drop was sent: one `XdndDrop`, when its window is there, and neither a position nor a drop any more. -/
structure Dropped (s t : State) : Prop where
  once : Sends s t fun l => l.countP Output.isDrop ≤ 1 ∧
    (l.countP Output.isDrop = 1 ↔ ∃ w ∈ s.drag.proxy, w ∈ s.windows ∧ w.clientOwned = true) ∧
    Avoids Output.isPosition l ∧ Avoids Output.isFinish l
  later : ∀ as u, Meets step State.Undisturbed t as → exec step t as = some u →
    Sends t u fun l => Avoids Output.isPosition l ∧ Avoids Output.isDrop l

/-- **The renegotiation of a drop ends**: from the beginning of a drag on, `dropDrag` sends at most as many positions behind
a drop as transfers to the target ended well; and without a queued move, the status that a pending drop waited for ends
the drop, once. -/
theorem drop_renegotiation {s₀ s₁ s₂ s₃ s : State} {enter drop : Event} {fd fd' : Bool} {a a' : Answers}
    {mid after : List Action} (henter : s₀.Enters enter) (h₁ : step s₀ (.dataCommand enter fd a) = some s₁)
    (h₂ : exec step s₁ mid = some s₂) (hdrop : drop.operation = .drop)
    (h₃ : step s₂ (.dataCommand drop fd' a') = some s₃) (hafter : Meets step State.Undisturbed s₃ after)
    (h : exec step s₃ after = some s) :
    total step State.renegotiated s₂ (.dataCommand drop fd' a' :: after) ≤
      total step (fun s b _ => s.completed b) s₁ (mid ++ .dataCommand drop fd' a' :: after) ∧
    ∀ window first bit copy b t, s.FromTarget window first → s.drag.dropPending = true → s.drag.moveQueued = false →
      step s (.clientMessage window .status first bit copy b) = some t →
      ((bit && copy) = false → ¬s.dragDataPending → s.drag.dataRevision = s.drag.positionDataRevision → Refused s t) ∧
      ((bit && copy) = true → Dropped s t) := by
  refine ⟨?_, fun window first bit copy b t hfrom hp hq hs => ⟨fun hrefused hdata hrev => ?_, fun haccepted => ?_⟩⟩
  · have hbegin := behind_enters henter h₁
    have hmid := potential (p := State.behind) (f := fun _ _ _ => 0) (g := fun s b _ => s.completed b)
      (fun s b t _ (hs : step s b = some t) => behind_any hs) (meets_free s₁ mid) h₂
    have hasked := behind_drop hdrop h₃
    have hpaid := potential (p := State.behind) (f := State.renegotiated) (g := fun s b _ => s.completed b)
      (fun s b t hok hs => behind_step hok hs) hafter h
    rw [total_append h₂, total_cons h₃, total_cons h₃]
    omega
  · cases hs
    rw [clientMessage_status hfrom, hrefused]
    obtain ⟨hdone, htarget, hlog⟩ := dragStatus_refused hfrom.2.2.1 hp hq hdata hrev b
    have hleave : ∀ p : Output → Bool, (∀ x, p (.message x s.drag.target (.leave s.drag.source)) = false) →
        Avoids p (s.delivered s.drag.proxy s.drag.target (.leave s.drag.source)) := fun p => avoids_delivered s _ _
    refine ⟨⟨_, hlog, ?_, ?_, ?_, ?_⟩, fun as u hm hu => ?_⟩
    · rw [List.countP_cons, List.countP_append, (hleave _ fun _ => rfl).countP]
      rfl
    · rw [List.countP_cons, List.countP_append, (hleave _ fun _ => rfl).countP]
      rfl
    · exact (Avoids.singleton rfl).append ((hleave _ fun _ => rfl).append (.singleton rfl))
    · exact (Avoids.singleton rfl).append ((hleave _ fun _ => rfl).append (.singleton rfl))
    · obtain ⟨l, hl, hpos, hx, hf⟩ := (Over.run hm hu).log hdone
      exact ⟨l, hl, hpos, hx, hf htarget⟩
  · cases hs
    rw [clientMessage_status hfrom, haccepted]
    obtain ⟨hdone, hlog⟩ := dragStatus_accepted hfrom.2.2.1 hp hq b
    obtain ⟨hle, hiff⟩ := delivered_countP s s.drag.proxy s.drag.target (m := .drop s.drag.source b.now)
      (p := Output.isDrop) fun _ => rfl
    refine ⟨⟨_, hlog, ?_, ?_, ?_, ?_⟩, fun as u hm hu => ?_⟩
    · rw [List.countP_cons]
      exact hle
    · rw [List.countP_cons]
      exact hiff
    · exact (Avoids.singleton rfl).append (avoids_delivered s _ _ fun _ => rfl)
    · exact (Avoids.singleton rfl).append (avoids_delivered s _ _ fun _ => rfl)
    · obtain ⟨l, hl, hpos, hx, -⟩ := (Over.run hm hu).log hdone
      exact ⟨l, hl, hpos, hx⟩

/-- `LORIE_DATA_ENTER` -/
def enterEvent : Event := { operation := .enter, channel := 1 }

/-- `LORIE_DATA_DROP` -/
def dropEvent : Event := { operation := .drop, channel := 1 }

/-- A local offer, and two windows of a client -/
def offered : List Action :=
  [.createWindow 1 1, .createWindow 1 2, .dataCommand { operation := .enable, channel := 0 } false { newWindow := some 0 },
    .dataCommand { operation := .offer, channel := 1, offer := 7 } true { names := some [.other 3] }]

/-- The point under the pointer: a window, and another one as its proxy -/
def proxied : Point := ⟨some ⟨.client 1 1, 5, .client 1 2⟩, 0, 0⟩

/-- The target refuses the position and reads the selection. -/
def refusing : List Action :=
  [.dataCommand { operation := .move, channel := 1 } false { point := some proxied },
    .clientMessage (some (.server 0)) .status (some (.client 1 1)) false true {},
    .convert .drag (some (.client 1 2)) (.other 3) none 0 {}]

/-- The host replies, and the target is asked again. -/
def replying : Action :=
  .dataCommand { operation := .reply, channel := 1, serial := 1, offer := 7 } true { stat := some 10, point := some proxied }

/-- The target takes the position. -/
def taking : Action := .clientMessage (some (.server 0)) .status (some (.client 1 1)) true true {}

theorem drop_renegotiation_taken :
    ∃ s₂ s t, exec step s₂ [.dataCommand dropEvent false {}, replying] = some s ∧ step s taking = some t ∧
      total step State.renegotiated s₂ [.dataCommand dropEvent false {}, replying] = 1 ∧ Dropped s t := by
  have hrun : (exec step (.init false) offered).bind (fun s₀ =>
      (step s₀ (.dataCommand enterEvent false {})).bind fun s₁ => (exec step s₁ refusing).bind fun s₂ =>
      (step s₂ (.dataCommand dropEvent false {})).bind fun s₃ => (step s₃ replying).bind fun s =>
      (step s taking).map fun _ => decide (s₀.Enters enterEvent ∧
        (∀ i, s₃.replied? .drag 1 7 = some i → (s₃.transfers i).incremental = false) ∧
        total step State.renegotiated s₂ [.dataCommand dropEvent false {}, replying] = 1 ∧
        s.FromTarget (some (.server 0)) (some (.client 1 1)) ∧ s.drag.dropPending = true ∧ s.drag.moveQueued = false)) =
      some true := by decide +kernel
  obtain ⟨s₀, -, hrun⟩ := Option.bind_eq_some_iff.1 hrun
  obtain ⟨s₁, h₁, hrun⟩ := Option.bind_eq_some_iff.1 hrun
  obtain ⟨s₂, h₂, hrun⟩ := Option.bind_eq_some_iff.1 hrun
  obtain ⟨s₃, h₃, hrun⟩ := Option.bind_eq_some_iff.1 hrun
  obtain ⟨s, h, hrun⟩ := Option.bind_eq_some_iff.1 hrun
  obtain ⟨t, ht, hfacts⟩ := Option.map_eq_some_iff.1 hrun
  obtain ⟨henter, hfresh, htotal, hfrom, hp, hq⟩ := of_decide_eq_true hfacts
  have hmeets : Meets step State.Undisturbed s₃ [replying] := ⟨⟨rfl, hfresh⟩, fun _ _ => trivial⟩
  have hexec : exec step s₃ [replying] = some s := by rw [exec, h]; rfl
  have hends := (drop_renegotiation henter h₁ h₂ rfl h₃ hmeets hexec).2
  refine ⟨s₂, s, t, ?_, ht, htotal, (hends _ _ true true {} t hfrom hp hq ht).2 rfl⟩
  rw [exec, h₃]
  exact hexec

/-- The proxy is destroyed while the drop waits for the status. -/
def proxyGone : List Action :=
  offered ++ [.dataCommand enterEvent false {}] ++ refusing ++
    [.dataCommand dropEvent false {}, replying, .destroyWindow (.client 1 2)]

/-- The target takes the position, and no `XdndDrop` goes out, before or behind it. -/
theorem drop_without_proxy :
    ∃ s t, exec step (.init false) proxyGone = some s ∧ s.FromTarget (some (.server 0)) (some (.client 1 1)) ∧
      s.drag.dropPending = true ∧ s.drag.moveQueued = false ∧ step s taking = some t ∧
      t.log.countP Output.isDrop = 0 := by
  have hrun : (exec step (.init false) proxyGone).bind (fun s => (step s taking).map fun t =>
      decide (s.FromTarget (some (.server 0)) (some (.client 1 1)) ∧ s.drag.dropPending = true ∧
        s.drag.moveQueued = false ∧ t.log.countP Output.isDrop = 0)) = some true := by decide +kernel
  obtain ⟨s, hs, hrun⟩ := Option.bind_eq_some_iff.1 hrun
  obtain ⟨t, ht, hfacts⟩ := Option.map_eq_some_iff.1 hrun
  obtain ⟨hfrom, hp, hq, hdrop⟩ := of_decide_eq_true hfacts
  exact ⟨s, t, hs, hfrom, hp, hq, ht, hdrop⟩

end Lorie.DataExchange
