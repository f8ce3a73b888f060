import Lorie.DataExchange.Sending

/-!
# Receiving a selection

What is made of the value that an owner writes, at once or by increments. Runs are smooth as in `Sending`.

- `receive_piece`, `receive_announcement`: what becomes of a value that is read;
- `Receiving.Open`, `Receiving.Closed`: a transfer in use, by how far its owner is, and one that ended;
- `Receiving.Runs.delivered`, `Receiving.Runs.outcome`: what is delivered, and when.
-/

namespace Lorie.DataExchange

open Lorie.Lib State

namespace Flow

variable {f g : Flow} {a : Answers}

/-- An incoming transfer ends, with its window. -/
structure Ends (f g : Flow) (d : Delivery) : Prop where
  used : g.transfer.used = false
  window : g.window = false
  values : g.values = f.values
  out : g.out = f.out ++ [d]
  size : g.transfer.size ≤ maxBytes

/-- A transfer from an owner, with its window -/
structure FromOwner (f : Flow) : Prop where
  used : f.transfer.used = true
  incoming : f.transfer.incoming = true
  targets : f.transfer.targets = false
  requestor : f.transfer.requestor.isSome = true

theorem ends_reply (h : f.FromOwner) (hsize : f.transfer.size ≤ maxBytes) (d : Delivery) :
    Ends f (f.send d).release d := by
  refine ⟨used_release _, ?_, ?_, ?_, ?_⟩
  · unfold release
    rw [if_neg (by rw [show (f.send d).transfer.used = true from h.used]; nofun)]
    simp [send, h.incoming, h.requestor]
  · rw [values_release]
    rfl
  · rw [out_release]
    rfl
  · rw [size_release]
    exact hsize

theorem ends_fail (h : f.FromOwner) (hsize : f.transfer.size ≤ maxBytes) (a : Answers) : Ends f (f.fail a) (.reply none) := by
  have hrefuse : f.refuse a = f.send (.reply none) := by
    unfold refuse
    rw [if_pos h.incoming, if_neg (by rw [h.targets]; nofun)]
  rw [fail, hrefuse]
  exact ends_reply h hsize _

/-- The file that a piece is written to: the transfer's, or a new one. -/
theorem newFile_eq (hfile : f.transfer.fd = none → f.file = []) (a : Answers) :
    ∃ fd created, (if f.transfer.fd.isSome then f else f.newFile a) =
        { f with transfer := { f.transfer with fd := fd }, created := created } ∧ (a.Succeed → fd.isSome = true) := by
  split
  · rename_i hfd
    exact ⟨f.transfer.fd, f.created, rfl, fun _ => hfd⟩
  · rename_i hfd
    have hnone : f.file = [] := hfile (by simpa using hfd)
    unfold newFile
    cases hmade : a.file with
    | failed => exact ⟨none, f.created, rfl, fun hs => absurd hmade hs.1⟩
    | created => exact ⟨some f.created, f.created + 1, by simp [withTransfer, hnone], fun _ => rfl⟩
    | unwritten => exact ⟨some f.created, f.created + 1, by simp [withTransfer, hnone], fun _ => rfl⟩

/-- What becomes of a piece: the transfer fails, or it ends with the file, or the file grows. -/
theorem receive_piece (h : f.FromOwner) (hsize : f.transfer.size = f.file.length) (hle : f.transfer.size ≤ maxBytes)
    (hfile : f.transfer.fd = none → f.file = []) {type : Atom} {data : List UInt8} (hp : f.property = some ⟨type, 8, data⟩)
    (initial : Bool) (a : Answers) :
    (Ends f (f.receive initial a) (.reply none) ∧ (a.Succeed → f.window = true → f.transfer.generation = f.generation →
      maxBytes < f.file.length + data.length)) ∨
    ((f.transfer.incremental = false ∨ data = []) ∧ f.file.length + data.length ≤ maxBytes ∧
      Ends f (f.receive initial a) (.reply (some (f.file ++ data)))) ∨
    (f.transfer.incremental = true ∧ data ≠ [] ∧ f.file.length + data.length ≤ maxBytes ∧
      ∃ fd created, f.receive initial a =
        { f with
          transfer := { f.transfer with fd := some fd, size := f.transfer.size + data.length }
          property := none
          file := f.file ++ data
          created := created }) := by
  have hbytes : (⟨type, 8, data⟩ : Content).size = data.length := by simp [Content.size]
  unfold receive
  rw [hp]
  dsimp only
  by_cases hlost : f.window = false ∨ f.transfer.generation ≠ f.generation
  · rw [if_pos hlost]
    refine .inl ⟨ends_fail h hle a, fun _ hw hg => ?_⟩
    rw [hw, hg] at hlost
    exact (hlost.elim (fun htrue => Bool.noConfusion htrue) fun hne => hne rfl).elim
  rw [if_neg hlost, if_neg fun hi => by simp at hi, if_neg (by rw [h.targets]; nofun), room_eq hle, hbytes]
  by_cases hover : maxBytes - f.transfer.size < data.length
  · rw [if_pos (.inr hover)]
    exact .inl ⟨ends_fail h hle a, fun _ _ _ => by omega⟩
  rw [if_neg fun hc => hc.elim (fun hne => hne rfl) hover]
  obtain ⟨fd, created, hg, hfd⟩ := newFile_eq hfile a
  unfold receivePiece
  dsimp only
  rw [hg, hbytes]
  dsimp only
  by_cases hbad : fd = none ∨ (data.length ≠ 0 ∧ a.pwrite = false)
  · rw [if_pos hbad]
    have hend := ends_fail (f := { f with transfer := { f.transfer with fd := fd }, created := created })
      ⟨h.used, h.incoming, h.targets, h.requestor⟩ hle a
    refine .inl ⟨⟨hend.used, hend.window, hend.values, hend.out, hend.size⟩, fun hs _ _ => ?_⟩
    rcases hbad with hnone | hwrite
    · have hsome := hfd hs
      rw [hnone] at hsome
      cases hsome
    · rw [hs.2.1] at hwrite
      exact nomatch hwrite.2
  rw [if_neg hbad]
  obtain ⟨fd, rfl⟩ := Option.ne_none_iff_exists'.1 fun hnone => hbad (.inl hnone)
  have hfits : f.file.length + data.length ≤ maxBytes := by omega
  have hwritten : (if data.length ≠ 0 then pwrite f.file data f.transfer.size else f.file) = f.file ++ data := by
    split
    · rw [hsize, pwrite_end]
    · rename_i hzero
      rw [List.eq_nil_of_length_eq_zero (not_not.1 hzero), List.append_nil]
  simp only [withTransfer, hwritten]
  by_cases hlast : f.transfer.incremental = false ∨ data.length = 0
  · rw [if_pos hlast]
    have hend := ends_reply (f := { f with
        transfer := { f.transfer with fd := some fd, size := f.transfer.size + data.length }
        file := f.file ++ data
        created := created })
      ⟨h.used, h.incoming, h.targets, h.requestor⟩ (by show f.transfer.size + data.length ≤ _; omega)
      (.reply (some (f.file ++ data)))
    refine .inr (.inl ⟨?_, hfits, ⟨hend.used, hend.window, hend.values, hend.out, hend.size⟩⟩)
    exact hlast.imp id List.eq_nil_of_length_eq_zero
  · rw [if_neg hlast]
    rw [not_or, Bool.not_eq_false] at hlast
    refine .inr (.inr ⟨hlast.1, ?_, hfits, fd, created, rfl⟩)
    rintro rfl
    exact hlast.2 rfl

/-- Without a value to read, the transfer fails. -/
theorem receive_none (hp : f.property = none) (initial : Bool) (a : Answers) : f.receive initial a = f.fail a := by
  unfold receive
  rw [hp]

/-- What becomes of an announcement: the transfer fails, or it goes on by increments. -/
theorem receive_announcement (h : f.FromOwner) (hle : f.transfer.size ≤ maxBytes) {n : Nat} (hn : n < 2 ^ 32)
    (hp : f.property = some (.announcement n)) (a : Answers) :
    (Ends f (f.receive true a) (.reply none) ∧ (a.Succeed → f.window = true → f.transfer.generation = f.generation →
      maxBytes < n)) ∨
    (n ≤ maxBytes ∧ ∃ fd created, f.receive true a =
      { f with
        transfer := { f.transfer with fd := some fd, incremental := true }
        property := none
        file := []
        created := created }) := by
  have hone : (Content.announcement n).size = 1 := by simp [Content.size, Content.announcement, card32]
  have hvalue : cardinal (Content.announcement n).data = n := cardinal_card32 hn
  unfold receive
  rw [hp]
  dsimp only
  by_cases hlost : f.window = false ∨ f.transfer.generation ≠ f.generation
  · rw [if_pos hlost]
    refine .inl ⟨ends_fail h hle a, fun _ hw hg => ?_⟩
    rw [hw, hg] at hlost
    exact (hlost.elim (fun htrue => Bool.noConfusion htrue) fun hne => hne rfl).elim
  rw [if_neg hlost, if_pos ⟨rfl, rfl, rfl, hone⟩, hvalue]
  by_cases hover : f.transfer.targets = true ∨ maxBytes < n
  · rw [if_pos hover]
    refine .inl ⟨ends_fail h hle a, fun _ _ _ => hover.resolve_left ?_⟩
    rw [h.targets]
    exact Bool.false_ne_true
  rw [if_neg hover]
  have hfits : n ≤ maxBytes := Nat.le_of_not_lt fun hlt => hover (.inr hlt)
  unfold newFile
  cases hfile : a.file with
  | failed =>
    left
    dsimp only
    rw [if_pos (show (f.withTransfer fun t => { t with fd := none }).transfer.fd = none from rfl)]
    have hend := ends_fail (f := f.withTransfer fun t => { t with fd := none }) ⟨h.used, h.incoming, h.targets, h.requestor⟩
      hle a
    exact ⟨⟨hend.used, hend.window, hend.values, hend.out, hend.size⟩, fun hs => absurd hfile hs.1⟩
  | created => exact .inr ⟨hfits, f.created, f.created + 1, rfl⟩
  | unwritten => exact .inr ⟨hfits, f.created, f.created + 1, rfl⟩

end Flow

namespace Receiving

/-- Nothing goes wrong in a step. -/
def Action.Smooth : Action → Prop
  | .write .. | .announce _ => True
  | .notify a | .append _ _ a | .finish _ a | .work a => a.Succeed
  | .decline _ | .suffer _ => False

/-- What was announced first, and fits. -/
def Announced (vs : List Content) : Prop := ∃ n ws, n ≤ maxBytes ∧ vs = .announcement n :: ws

/-- The value so far is in the file and the property. -/
def Holds (smooth : Prop) (f : Flow) : Prop :=
  f.window = false ∨ (f.property = none ∧ f.transfer.queued = false ∧ f.file = bytes f.values) ∨
    ∃ type data, data ≠ [] ∧ f.property = some ⟨type, 8, data⟩ ∧ f.file ++ data = bytes f.values ∧
      (smooth → f.transfer.queued = true)

/-- How far a transfer is, by how far its owner is. -/
def Stage (smooth : Prop) (f : Flow) : Phase → Prop
  | .asked => f.values = [] ∧ f.transfer.fd = none ∧ f.file = [] ∧ f.transfer.incremental = false ∧ f.transfer.queued = false
  | .direct => ∃ type data, f.values = [⟨type, 8, data⟩] ∧ (f.window = true → f.property = some ⟨type, 8, data⟩) ∧
      f.transfer.fd = none ∧ f.file = [] ∧ f.transfer.incremental = false ∧ f.transfer.queued = false
  | .announced => ∃ n, n < 2 ^ 32 ∧ f.values = [.announcement n] ∧ (f.window = true → f.property = some (.announcement n)) ∧
      f.transfer.fd = none ∧ f.file = [] ∧ f.transfer.incremental = false ∧ f.transfer.queued = false
  | .told | .appending => f.transfer.incremental = true ∧ f.transfer.fd ≠ none ∧ Announced f.values ∧ Holds smooth f
  | .finished => f.transfer.incremental = true ∧ f.transfer.fd ≠ none ∧ Announced f.values ∧
      (f.window = false ∨ ∃ type, f.property = some ⟨type, 8, []⟩ ∧ f.file = bytes f.values ∧
        (smooth → f.transfer.queued = true))

/-- A transfer in use -/
structure Open (smooth : Prop) (r : Receiving) : Prop where
  owner : r.flow.FromOwner
  out : r.flow.out = []
  size : r.flow.transfer.size = r.flow.file.length
  limit : r.flow.transfer.size ≤ maxBytes
  lost : r.flow.window = false → r.flow.property = none
  stage : Stage smooth r.flow r.phase
  calm : smooth → r.flow.window = true ∧ r.flow.transfer.generation = r.flow.generation

theorem Announced.fits {vs : List Content} (h : Announced vs) (hle : (bytes vs).length ≤ maxBytes) : ¬Exceeds vs := by
  obtain ⟨n, ws, hn, rfl⟩ := h
  have hmax : maxBytes < 2 ^ 32 := by decide
  rintro (⟨m, hm, heq, hlt⟩ | hlt)
  · have hsame : cardinal (card32 n) = cardinal (card32 m) :=
      congrArg (fun p => cardinal p.data) (List.cons.inj heq).1
    rw [cardinal_card32 (by omega), cardinal_card32 hm] at hsame
    omega
  · omega

/-- What became of a transfer that ended -/
def Outcome (smooth : Prop) (r : Receiving) : Prop :=
  (r.flow.out = [.reply (some (bytes r.flow.values))] ∧ r.phase = .finished ∧ ¬Exceeds r.flow.values) ∨
    (r.flow.out = [.reply none] ∧ (smooth → Exceeds r.flow.values)) ∨ (r.flow.out = [] ∧ ¬smooth)

/-- A transfer that ended -/
structure Closed (smooth : Prop) (r : Receiving) : Prop where
  used : r.flow.transfer.used = false
  window : r.flow.window = false
  limit : r.flow.transfer.size ≤ maxBytes
  outcome : Outcome smooth r

variable {smooth : Prop} {r t : Receiving} {a : Answers}

/-- Nothing happens any more. -/
theorem Closed.step (h : Closed smooth r) {b : Action} (hc : smooth → b.Smooth) (hs : step r b = some t) :
    Closed smooth t := by
  have hidle : ¬(r.flow.transfer.used = true) := by rw [h.used]; nofun
  have hgone : ¬(r.flow.window = true) := by rw [h.window]; nofun
  cases b with
  | write type data =>
    simp only [Receiving.step] at hs
    rw [if_neg fun hg => hgone hg.1] at hs
    cases hs
  | announce n =>
    simp only [Receiving.step] at hs
    rw [if_neg fun hg => hgone hg.1] at hs
    cases hs
  | notify a =>
    simp only [Receiving.step] at hs
    rw [if_neg hidle] at hs
    cases hs
  | decline a =>
    simp only [Receiving.step] at hs
    rw [if_neg fun hg => hidle hg.1] at hs
    cases hs
  | append type data a =>
    simp only [Receiving.step] at hs
    rw [if_neg fun hg => hgone hg.1] at hs
    cases hs
  | finish type a =>
    simp only [Receiving.step] at hs
    rw [if_neg fun hg => hgone hg.1] at hs
    cases hs
  | work a =>
    simp only [Receiving.step] at hs
    rw [if_neg fun hg => hidle hg.1] at hs
    cases hs
  | suffer m =>
    cases hs
    cases m with
    | failed a =>
      rw [Flow.suffer, if_neg hidle]
      exact h
    | released =>
      rw [Flow.suffer, Flow.release, if_pos h.used]
      exact h
    | lost => exact ⟨h.used, rfl, h.limit, h.outcome⟩
    | outdated g => exact ⟨h.used, h.window, h.limit, h.outcome⟩

/-- A transfer ends with a failure. -/
theorem Open.failed (h : Open smooth r) {g : Flow} {phase : Phase} (hg : Flow.Ends r.flow g (.reply none))
    (hs : smooth → Exceeds r.flow.values) : Closed smooth ⟨g, phase⟩ := by
  refine ⟨hg.used, hg.window, hg.size, .inr (.inl ⟨?_, ?_⟩)⟩
  · rw [hg.out, h.out]
    rfl
  · rw [hg.values]
    exact hs

/-- A transfer ends with its file. -/
theorem Open.replied (h : Open smooth r) {g : Flow} {file : List UInt8} (hg : Flow.Ends r.flow g (.reply (some file)))
    (hfile : file = bytes r.flow.values) (hfits : ¬Exceeds r.flow.values) : Closed smooth ⟨g, .finished⟩ := by
  refine ⟨hg.used, hg.window, hg.size, .inl ⟨?_, rfl, ?_⟩⟩
  · rw [hg.out, hg.values, h.out, hfile]
    rfl
  · rw [hg.values]
    exact hfits

/-- The bytes of one more value -/
theorem bytes_snoc (vs : List Content) (type : Atom) (data : List UInt8) : bytes (vs ++ [⟨type, 8, data⟩]) = bytes vs ++ data := by
  rw [bytes_append, show (⟨type, 8, data⟩ : Content) = .piece type data from rfl, bytes_piece]

/-- Without its window, a transfer fails. -/
theorem Open.lose (h : Open smooth r) (hw : r.flow.window = false) (initial : Bool) (a : Answers) (phase : Phase) :
    Closed smooth ⟨r.flow.receive initial a, phase⟩ := by
  rw [Flow.receive_none (h.lost hw)]
  refine h.failed (Flow.ends_fail h.owner h.limit a) fun hg => ?_
  have hlive := (h.calm hg).1
  rw [hw] at hlive
  cases hlive

/-- The owner was told that its value can be read. -/
theorem Open.notify (h : Open smooth r) (hc : smooth → a.Succeed) (hs : step r (.notify a) = some t) :
    Open smooth t ∨ Closed smooth t := by
  have hstage := h.stage
  simp only [Receiving.step] at hs
  rw [if_pos h.owner.used] at hs
  cases hphase : r.phase with
  | direct =>
    rw [hphase] at hs hstage
    cases hs
    obtain ⟨type, data, hvalues, hproperty, hfd, hfile, hinc, hq⟩ := hstage
    have hall : bytes r.flow.values = data := by rw [hvalues]; exact bytes_piece type data
    right
    cases hw : r.flow.window with
    | false => exact h.lose hw true a _
    | true =>
      rcases Flow.receive_piece h.owner h.size h.limit (fun _ => hfile) (hproperty hw) true a with
        ⟨hend, hover⟩ | ⟨-, hfits, hend⟩ | ⟨hinc', -⟩
      · refine h.failed hend fun hg => .inr ?_
        have hlt := hover (hc hg) hw (h.calm hg).2
        rw [hfile] at hlt
        rw [hall]
        simpa using hlt
      · rw [hfile, List.nil_append] at hend
        rw [hfile, List.length_nil, Nat.zero_add] at hfits
        refine h.replied hend hall.symm fun hover => ?_
        rcases hover with ⟨n, -, heq, -⟩ | hlt
        · rw [hvalues] at heq
          cases heq
        · rw [hall] at hlt
          omega
      · rw [hinc] at hinc'
        cases hinc'
  | announced =>
    rw [hphase] at hs hstage
    cases hs
    obtain ⟨n, hn, hvalues, hproperty, hfd, hfile, hinc, hq⟩ := hstage
    cases hw : r.flow.window with
    | false => exact .inr (h.lose hw true a _)
    | true =>
      rcases Flow.receive_announcement h.owner h.limit hn (hproperty hw) a with ⟨hend, hover⟩ | ⟨hfits, fd, created, heq⟩
      · refine .inr (h.failed hend fun hg => .inl ⟨n, hn, hvalues, ?_⟩)
        exact hover (hc hg) hw (h.calm hg).2
      · left
        have hempty : bytes r.flow.values = [] := by rw [hvalues]; rfl
        have hsize := h.size
        rw [hfile] at hsize
        rw [heq]
        exact ⟨⟨h.owner.used, h.owner.incoming, h.owner.targets, h.owner.requestor⟩, h.out, hsize, h.limit, fun _ => rfl,
          ⟨rfl, nofun, ⟨n, [], hfits, hvalues⟩, .inr (.inl ⟨rfl, hq, hempty.symm⟩)⟩, h.calm⟩
  | asked | told | appending | finished =>
    rw [hphase] at hs
    cases hs

/-- Deferred work without the window -/
theorem Open.workLost (h : Open smooth r) (hw : r.flow.window = false) (a : Answers) (phase : Phase) :
    Closed smooth ⟨r.flow.unqueued.receive false a, phase⟩ := by
  have hopen : Flow.FromOwner r.flow.unqueued := ⟨h.owner.used, h.owner.incoming, h.owner.targets, h.owner.requestor⟩
  have hnone : r.flow.unqueued.property = none := h.lost hw
  have hend := Flow.ends_fail hopen h.limit a
  rw [Flow.receive_none hnone]
  refine h.failed ⟨hend.used, hend.window, hend.values, hend.out, hend.size⟩ fun hg => ?_
  have hlive := (h.calm hg).1
  rw [hw] at hlive
  cases hlive

/-- Deferred work with an increment -/
theorem Open.workHolds (h : Open smooth r) (hq : r.flow.transfer.queued = true) (hc : smooth → a.Succeed)
    (hinc : r.flow.transfer.incremental = true) (hfd : r.flow.transfer.fd ≠ none) (hheld : Holds smooth r.flow)
    (hstage : ∀ f, f.values = r.flow.values → f.transfer.incremental = true → f.transfer.fd ≠ none → Holds smooth f →
      Stage smooth f r.phase) :
    Open smooth ⟨r.flow.unqueued.receive false a, r.phase⟩ ∨ Closed smooth ⟨r.flow.unqueued.receive false a, r.phase⟩ := by
  have hopen : Flow.FromOwner r.flow.unqueued := ⟨h.owner.used, h.owner.incoming, h.owner.targets, h.owner.requestor⟩
  rcases hheld with hw | ⟨-, hnone, -⟩ | ⟨type, data, hne, hp, hall, -⟩
  · exact .inr (h.workLost hw a _)
  · rw [hnone] at hq
    cases hq
  · rcases Flow.receive_piece hopen h.size h.limit (fun hnone => absurd hnone hfd) hp false a with
      ⟨hend, hover⟩ | ⟨hlast, -⟩ | ⟨-, -, hfits, fd, created, heq⟩
    · right
      refine h.failed ⟨hend.used, hend.window, hend.values, hend.out, hend.size⟩ fun hg => .inr ?_
      rw [← hall, List.length_append]
      exact hover (hc hg) (h.calm hg).1 (h.calm hg).2
    · rcases hlast with hno | hnil
      · rw [show r.flow.unqueued.transfer.incremental = true from hinc] at hno
        cases hno
      · exact absurd hnil hne
    · left
      have hsize := h.size
      have hlength : r.flow.transfer.size + data.length = (r.flow.file ++ data).length := by
        rw [List.length_append, hsize]
      rw [heq]
      refine ⟨⟨h.owner.used, h.owner.incoming, h.owner.targets, h.owner.requestor⟩, h.out, hlength, ?_, fun _ => rfl,
        hstage _ rfl hinc nofun (.inr (.inl ⟨rfl, rfl, hall⟩)), h.calm⟩
      show r.flow.transfer.size + data.length ≤ _
      rw [hsize]
      exact hfits

/-- Deferred work: the value that the property holds -/
theorem Open.work (h : Open smooth r) (hq : r.flow.transfer.queued = true) (hc : smooth → a.Succeed) :
    Open smooth { r with flow := r.flow.propertyWork a } ∨ Closed smooth { r with flow := r.flow.propertyWork a } := by
  have hstage := h.stage
  have hopen : Flow.FromOwner r.flow.unqueued := ⟨h.owner.used, h.owner.incoming, h.owner.targets, h.owner.requestor⟩
  rw [show r.flow.propertyWork a = r.flow.unqueued.receive false a from if_pos h.owner.incoming]
  cases hphase : r.phase with
  | asked =>
    rw [hphase] at hstage
    rw [hstage.2.2.2.2] at hq
    cases hq
  | direct =>
    rw [hphase] at hstage
    obtain ⟨type, data, -, -, -, -, -, hnone⟩ := hstage
    rw [hnone] at hq
    cases hq
  | announced =>
    rw [hphase] at hstage
    obtain ⟨n, -, -, -, -, -, -, hnone⟩ := hstage
    rw [hnone] at hq
    cases hq
  | told =>
    rw [hphase] at hstage
    rw [← hphase]
    refine h.workHolds hq hc hstage.1 hstage.2.1 hstage.2.2.2 fun f hv hinc hfd hheld => ?_
    rw [hphase]
    exact ⟨hinc, hfd, hv ▸ hstage.2.2.1, hheld⟩
  | appending =>
    rw [hphase] at hstage
    rw [← hphase]
    refine h.workHolds hq hc hstage.1 hstage.2.1 hstage.2.2.2 fun f hv hinc hfd hheld => ?_
    rw [hphase]
    exact ⟨hinc, hfd, hv ▸ hstage.2.2.1, hheld⟩
  | finished =>
    rw [hphase] at hstage
    obtain ⟨hinc, hfd, hannounced, hw | ⟨type, hp, hall, -⟩⟩ := hstage
    · exact .inr (h.workLost hw a _)
    · right
      rcases Flow.receive_piece hopen h.size h.limit (fun hnone => absurd hnone hfd) hp false a with
        ⟨hend, hover⟩ | ⟨-, hfits, hend⟩ | ⟨-, hne, -⟩
      · refine h.failed ⟨hend.used, hend.window, hend.values, hend.out, hend.size⟩ fun hg => .inr ?_
        rw [← hall]
        exact hover (hc hg) (h.calm hg).1 (h.calm hg).2
      · rw [show r.flow.unqueued.file = bytes r.flow.values from hall, List.append_nil] at hend
        refine h.replied ⟨hend.used, hend.window, hend.values, hend.out, hend.size⟩ rfl (hannounced.fits ?_)
        rw [← hall]
        exact hfits
      · exact absurd rfl hne

/-- The owner appends to what the property holds. -/
theorem Holds.append {f : Flow} (h : Holds smooth f) (hw : f.window = true) (hinc : f.transfer.incremental = true)
    (hu : f.transfer.used = true) (hin : f.transfer.incoming = true) (ha : smooth → a.Succeed) (type : Atom)
    {data : List UInt8} (hne : data ≠ []) (phase : Phase) :
    Holds smooth ((put ⟨f, phase⟩ ⟨type, 8, unread ⟨f, phase⟩ ++ data⟩ ⟨type, 8, data⟩).propertyChanged true a) := by
  rw [Flow.propertyChanged_eq (f := put ⟨f, phase⟩ ⟨type, 8, unread ⟨f, phase⟩ ++ data⟩ ⟨type, 8, data⟩) hu hinc hin]
  have hqueued : smooth → (f.transfer.queued || a.queued) = true := fun hg => by
    rw [(ha hg).2.2.2.2, Bool.or_true]
  refine .inr (.inr ⟨type, unread ⟨f, phase⟩ ++ data, ?_, rfl, ?_, hqueued⟩)
  · exact fun hnil => hne (List.append_eq_nil_iff.1 hnil).2
  · show f.file ++ (unread ⟨f, phase⟩ ++ data) = bytes (f.values ++ [⟨type, 8, data⟩])
    rw [bytes_snoc, ← List.append_assoc]
    rcases h with hlost | ⟨hp, -, hfile⟩ | ⟨type', held, -, hp, hfile, -⟩
    · rw [hw] at hlost
      cases hlost
    · simp only [unread, hp, hfile, Option.map_none, Option.getD_none, List.append_nil]
    · simp only [unread, hp, ← hfile, Option.map_some, Option.getD_some]

/-- An increment -/
theorem Open.append (h : Open smooth r) (ha : smooth → a.Succeed) {type : Atom} {data : List UInt8}
    (hs : step r (.append type data a) = some t) : Open smooth t := by
  simp only [Receiving.step] at hs
  split at hs
  · rename_i hg
    cases hs
    obtain ⟨hw, hne, -, hphase⟩ := hg
    have hstage : r.flow.transfer.incremental = true ∧ r.flow.transfer.fd ≠ none ∧ Announced r.flow.values ∧
        Holds smooth r.flow := by
      have hstage := h.stage
      rcases hphase with hp | ⟨hp, -⟩
      · rw [hp] at hstage
        exact hstage
      · rw [hp] at hstage
        exact hstage
    obtain ⟨hinc, hfd, ⟨n, ws, hn, hvalues⟩, hheld⟩ := hstage
    have hnext := hheld.append hw hinc h.owner.used h.owner.incoming ha type hne r.phase
    have heq := Flow.propertyChanged_eq (f := r.put ⟨type, 8, r.unread ++ data⟩ ⟨type, 8, data⟩) h.owner.used hinc
      h.owner.incoming a
    rw [heq] at hnext ⊢
    refine ⟨⟨h.owner.used, h.owner.incoming, h.owner.targets, h.owner.requestor⟩, h.out, h.size, h.limit, fun hlost => ?_,
      ⟨hinc, hfd, ⟨n, ws ++ [⟨type, 8, data⟩], hn, ?_⟩, hnext⟩, h.calm⟩
    · rw [show r.flow.window = false from hlost] at hw
      cases hw
    · show r.flow.values ++ _ = _
      rw [hvalues, List.cons_append]
  · cases hs

/-- The empty value -/
theorem Open.finish (h : Open smooth r) (ha : smooth → a.Succeed) {type : Atom}
    (hs : step r (.finish type a) = some t) : Open smooth t := by
  simp only [Receiving.step] at hs
  split at hs
  · rename_i hg
    cases hs
    obtain ⟨hw, hnone, hphase⟩ := hg
    have hstage : r.flow.transfer.incremental = true ∧ r.flow.transfer.fd ≠ none ∧ Announced r.flow.values ∧
        Holds smooth r.flow := by
      have hstage := h.stage
      rcases hphase with hp | hp
      · rw [hp] at hstage
        exact hstage
      · rw [hp] at hstage
        exact hstage
    obtain ⟨hinc, hfd, ⟨n, ws, hn, hvalues⟩, hheld⟩ := hstage
    have hfile : r.flow.file = bytes r.flow.values := by
      rcases hheld with hlost | ⟨-, -, hfile⟩ | ⟨type', held, -, hp, -, -⟩
      · rw [hw] at hlost
        cases hlost
      · exact hfile
      · rw [hnone] at hp
        cases hp
    rw [Flow.propertyChanged_eq (f := r.put ⟨type, 8, []⟩ ⟨type, 8, []⟩) h.owner.used hinc h.owner.incoming]
    refine ⟨⟨h.owner.used, h.owner.incoming, h.owner.targets, h.owner.requestor⟩, h.out, h.size, h.limit, fun hlost => ?_,
      ⟨hinc, hfd, ⟨n, ws ++ [⟨type, 8, []⟩], hn, ?_⟩, .inr ⟨type, rfl, ?_, fun hg => ?_⟩⟩, h.calm⟩
    · rw [show r.flow.window = false from hlost] at hw
      cases hw
    · show r.flow.values ++ _ = _
      rw [hvalues, List.cons_append]
    · show r.flow.file = bytes (r.flow.values ++ _)
      rw [bytes_snoc, List.append_nil, hfile]
    · show (r.flow.transfer.queued || a.queued) = true
      rw [(ha hg).2.2.2.2, Bool.or_true]
  · cases hs

/-- The window is destroyed. -/
theorem Stage.lost {f : Flow} {phase : Phase} (h : Stage smooth f phase) : Stage smooth f.loseWindow phase := by
  cases phase with
  | asked => exact h
  | direct =>
    obtain ⟨type, data, hv, -, hrest⟩ := h
    exact ⟨type, data, hv, nofun, hrest⟩
  | announced =>
    obtain ⟨n, hn, hv, -, hrest⟩ := h
    exact ⟨n, hn, hv, nofun, hrest⟩
  | told => exact ⟨h.1, h.2.1, h.2.2.1, .inl rfl⟩
  | appending => exact ⟨h.1, h.2.1, h.2.2.1, .inl rfl⟩
  | finished => exact ⟨h.1, h.2.1, h.2.2.1, .inl rfl⟩

theorem Open.step (h : Open smooth r) {b : Action} (hc : smooth → b.Smooth) (hs : step r b = some t) :
    Open smooth t ∨ Closed smooth t := by
  have hstage := h.stage
  cases b with
  | write type data =>
    simp only [Receiving.step] at hs
    split at hs
    · rename_i hg
      cases hs
      rw [hg.2] at hstage
      obtain ⟨hv, hfd, hfile, hinc, hq⟩ := hstage
      refine .inl ⟨⟨h.owner.used, h.owner.incoming, h.owner.targets, h.owner.requestor⟩, h.out, h.size, h.limit,
        fun hlost => ?_, ⟨type, data, ?_, fun _ => rfl, hfd, hfile, hinc, hq⟩, h.calm⟩
      · rw [show r.flow.window = false from hlost] at hg
        cases hg.1
      · show r.flow.values ++ _ = _
        rw [hv, List.nil_append]
    · cases hs
  | announce n =>
    simp only [Receiving.step] at hs
    split at hs
    · rename_i hg
      cases hs
      rw [hg.2.1] at hstage
      obtain ⟨hv, hfd, hfile, hinc, hq⟩ := hstage
      refine .inl ⟨⟨h.owner.used, h.owner.incoming, h.owner.targets, h.owner.requestor⟩, h.out, h.size, h.limit,
        fun hlost => ?_, ⟨n, hg.2.2, ?_, fun _ => rfl, hfd, hfile, hinc, hq⟩, h.calm⟩
      · rw [show r.flow.window = false from hlost] at hg
        cases hg.1
      · show r.flow.values ++ _ = _
        rw [hv, List.nil_append]
    · cases hs
  | notify a => exact h.notify hc hs
  | decline a =>
    simp only [Receiving.step] at hs
    split at hs
    · cases hs
      exact .inr (h.failed (Flow.ends_fail h.owner h.limit a) fun hg => (hc hg).elim)
    · cases hs
  | append type data a => exact .inl (h.append hc hs)
  | finish type a => exact .inl (h.finish hc hs)
  | work a =>
    simp only [Receiving.step] at hs
    split at hs
    · rename_i hg
      cases hs
      exact h.work hg.2 hc
    · cases hs
  | suffer m =>
    cases hs
    cases m with
    | failed a =>
      rw [Flow.suffer, if_pos h.owner.used]
      exact .inr (h.failed (Flow.ends_fail h.owner h.limit a) fun hg => (hc hg).elim)
    | released =>
      right
      refine ⟨Flow.used_release _, ?_, ?_, .inr (.inr ⟨?_, fun hg => hc hg⟩)⟩
      · show r.flow.release.window = false
        unfold Flow.release
        rw [if_neg (by rw [h.owner.used]; exact Bool.noConfusion)]
        simp [h.owner.incoming, h.owner.requestor]
      · show r.flow.release.transfer.size ≤ _
        rw [Flow.size_release]
        exact h.limit
      · show r.flow.release.out = []
        rw [Flow.out_release]
        exact h.out
    | lost =>
      exact .inl ⟨⟨h.owner.used, h.owner.incoming, h.owner.targets, h.owner.requestor⟩, h.out, h.size, h.limit,
        fun _ => rfl, hstage.lost, fun hg => (hc hg).elim⟩
    | outdated g =>
      exact .inl ⟨⟨h.owner.used, h.owner.incoming, h.owner.targets, h.owner.requestor⟩, h.out, h.size, h.limit, h.lost,
        hstage, fun hg => (hc hg).elim⟩

/-- A run from the beginning of a transfer, under a condition -/
def Runs (C : Receiving → Action → Prop) (r : Receiving) : Prop := ∃ r₀, Starts r₀ ∧ Reach step C r₀ r

theorem Runs.cases {C : Receiving → Action → Prop} (hC : ∀ r b, C r b → smooth → b.Smooth) (h : Runs C r) :
    Open smooth r ∨ Closed smooth r := by
  obtain ⟨r₀, hstart, hrun⟩ := h
  have hopen : Open smooth r₀ := by
    refine ⟨⟨hstart.used, hstart.incoming, hstart.targets, hstart.requestor⟩, hstart.history.2.1, ?_, ?_,
      fun _ => hstart.contents.1, ?_, fun _ => ⟨hstart.window, hstart.generation⟩⟩
    · rw [hstart.size, hstart.contents.2, List.length_nil]
    · rw [hstart.size]
      exact Nat.zero_le _
    · rw [hstart.history.2.2]
      exact ⟨hstart.history.1, hstart.fd, hstart.contents.2, hstart.incremental, hstart.queued⟩
  refine hrun.invariant (I := fun r => Open smooth r ∨ Closed smooth r) (.inl hopen) fun u b v hu hb hv => ?_
  rcases hu with hu | hu
  · exact hu.step (hC u b hb) hv
  · exact .inr (hu.step (hC u b hb) hv)

/-- Steps of a smooth run -/
def Smoothly (_ : Receiving) (b : Action) : Prop := b.Smooth

/-- A file that is delivered is what was written. -/
theorem Runs.delivered (h : Runs Free r) {file : List UInt8} (ho : .reply (some file) ∈ r.flow.out) :
    r.phase = .finished ∧ file = bytes r.flow.values ∧ ¬Exceeds r.flow.values := by
  rcases h.cases fun _ _ _ (hf : False) => hf.elim with hopen | hclosed
  · rw [hopen.out] at ho
    cases ho
  · rcases hclosed.outcome with ⟨hout, hphase, hfits⟩ | ⟨hout, -⟩ | ⟨hout, -⟩
    · rw [hout] at ho
      have heq := List.mem_singleton.1 ho
      cases heq
      exact ⟨hphase, rfl, hfits⟩
    · rw [hout] at ho
      cases List.mem_singleton.1 ho
    · rw [hout] at ho
      cases ho

theorem Runs.limit (h : Runs Free r) : r.flow.transfer.size ≤ maxBytes := by
  rcases h.cases fun _ _ _ (hf : False) => hf.elim with hopen | hclosed
  · exact hopen.limit
  · exact hclosed.limit

/-- What a smooth run comes to, when no work is left. -/
theorem Runs.outcome (h : Runs Smoothly r) (hq : r.flow.transfer.queued = false) :
    (r.phase = .finished → ¬Exceeds r.flow.values → r.flow.out = [.reply (some (bytes r.flow.values))]) ∧
      (r.phase ≠ .direct → r.phase ≠ .announced → Exceeds r.flow.values → r.flow.out = [.reply none]) := by
  rcases h.cases fun _ _ hb (_ : True) => hb with hopen | hclosed
  · have hstage := hopen.stage
    obtain ⟨hw, -⟩ := hopen.calm trivial
    -- the file holds what was written
    have hheld : Announced r.flow.values → Holds True r.flow → ¬Exceeds r.flow.values := by
      rintro hannounced (hlost | ⟨-, -, hfile⟩ | ⟨type, data, -, -, -, hqueued⟩)
      · rw [hw] at hlost
        cases hlost
      · refine hannounced.fits ?_
        rw [← hfile, ← hopen.size]
        exact hopen.limit
      · rw [hqueued trivial] at hq
        cases hq
    cases hphase : r.phase with
    | asked =>
      rw [hphase] at hstage
      refine ⟨nofun, fun _ _ hover => ?_⟩
      rw [hstage.1] at hover
      rcases hover with ⟨n, -, heq, -⟩ | hlt
      · cases heq
      · exact absurd hlt (by decide)
    | direct => exact ⟨nofun, fun hne => absurd rfl hne⟩
    | announced => exact ⟨nofun, fun _ hne => absurd rfl hne⟩
    | told =>
      rw [hphase] at hstage
      exact ⟨nofun, fun _ _ hover => absurd hover (hheld hstage.2.2.1 hstage.2.2.2)⟩
    | appending =>
      rw [hphase] at hstage
      exact ⟨nofun, fun _ _ hover => absurd hover (hheld hstage.2.2.1 hstage.2.2.2)⟩
    | finished =>
      rw [hphase] at hstage
      obtain ⟨-, -, -, hlost | ⟨type, -, -, hqueued⟩⟩ := hstage
      · rw [hw] at hlost
        cases hlost
      · rw [hqueued trivial] at hq
        cases hq
  · rcases hclosed.outcome with ⟨hout, hphase, hfits⟩ | ⟨hout, hover⟩ | ⟨hout, hno⟩
    · exact ⟨fun _ _ => hout, fun _ _ hover => absurd hover hfits⟩
    · exact ⟨fun _ hfits => absurd (hover trivial) hfits, fun _ _ _ => hout⟩
    · exact absurd trivial hno

end Receiving

end Lorie.DataExchange
