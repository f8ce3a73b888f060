import Lorie.DataExchange.Frees

/-!
# Serving transfers

Besides the export and the changes of `XdndSelection`, an operation serves transfers: it changes data in place and frees
windows. `Serves R s t` says so, with the bounds `R` of what it may touch; facts about all these operations are
inductions over `Works`.

- `Local`: a change in place;
- `Serves`: local changes and what `FreeResource` does, from a guarded state; one lemma for each function.
-/

namespace Lorie.DataExchange

open Lorie.Lib State

/-- The generation of a transfer to a target of a drag. -/
def Transfer.drags (t : Transfer) : Option Nat :=
  if t.used = true ∧ t.incoming = false ∧ t.channel = .drag then some t.generation else none

/-- What a change of transfers leaves alone. -/
def State.scene (s : State) :
    (List Window × (Channel → Selection) × Export × List Record × (Channel → Offer)) × Drag × Bool × Option Window × Bool ×
      Nat :=
  (s.beside, s.drag, s.enabled, s.bridge, s.pointerDown, s.pointerOutput)

/-- A change in place. -/
structure Local (R : Rights) (s t : State) : Prop where
  windows : ∀ w ∈ s.windows, w ∈ t.windows
  enabled : t.enabled = s.enabled
  bridge : t.bridge = s.bridge
  exports : R.exports ∨ (t.exported = s.exported ∧ t.exports = s.exports ∧ t.pointerDown = s.pointerDown ∧
    t.pointerOutput = s.pointerOutput ∧ ∃ l, Apart l ∧ t.log = s.log ++ l)
  owner : R.owner ∨ t.selections .drag = s.selections .drag
  drag : R.drag ∨ (t.drag = s.drag ∧ (∀ i, (t.transfers i).drags = (s.transfers i).drags) ∧
    (t.offers .drag).generation = (s.offers .drag).generation ∧ (t.offers .drag).isLocal = (s.offers .drag).isLocal)
  guard : Guarded R s → Guarded R t

/-- Local changes, and what `FreeResource` does. -/
inductive Works (R : Rights) : State → State → Prop
  | refl (s : State) : Works R s s
  | trans {s t u : State} : Works R s t → Works R t u → Works R s u
  | here {s t : State} : Local R s t → Works R s t
  | frees {s t : State} : Frees R s t → Works R s t

theorem Guarded.works {R : Rights} {s t : State} (hs : Guarded R s) (h : Works R s t) : Guarded R t := by
  induction h with
  | refl s => exact hs
  | trans _ _ ih ih' => exact ih' (ih hs)
  | here h => exact h.guard hs
  | frees h => exact hs.frees h

/-- From a guarded state, an operation works within the bounds. -/
structure Serves (R : Rights) (s t : State) : Prop where
  works : Guarded R s → Works R s t

namespace Local

variable {R : Rights} {s t : State} {i : Fin maxPending}

/-- The transfers and the windows stay. -/
theorem quiet {l : List Output} (hs : t.scene = s.scene) (ht : t.transfers = s.transfers) (hl : t.log = s.log ++ l)
    (hq : Apart l) : Local R s t := by
  simp only [State.scene, State.beside, Prod.mk.injEq] at hs
  obtain ⟨⟨hwin, hsel, hx, hxs, ho⟩, hd, he, hb, hp, hpo⟩ := hs
  constructor
  · rw [hwin]
    exact fun _ hw => hw
  · exact he
  · exact hb
  · exact .inr ⟨hx, hxs, hp, hpo, l, hq, hl⟩
  · rw [hsel]
    exact .inr rfl
  · rw [hd, ho, ht]
    exact .inr ⟨rfl, fun _ => rfl, rfl, rfl⟩
  · intro hg
    constructor
    · rw [hwin]
      exact hg.fresh
    · rw [ht]
      exact hg.requestor
    · rw [hx]
      exact hg.catcher
    · rw [ht, hsel, hb]
      exact hg.drag

/-- A transfer changes. -/
theorem setTransfer {x : Transfer} (hs : R.drag ∨ x.drags = (s.transfers i).drags)
    (hr : Guarded R s → x.used = true → x.incoming = true → ∀ v, x.requestor = some v → R.erase v) :
    Local R s (s.setTransfer i x) := by
  have hself := transfers_setTransfer_self s i x
  constructor
  · exact fun _ hw => hw
  · rfl
  · rfl
  · exact .inr ⟨rfl, rfl, rfl, rfl, [], .nil, (List.append_nil _).symm⟩
  · exact .inr rfl
  · rcases hs with hs | hs
    · exact .inl hs
    · refine .inr ⟨rfl, fun j => ?_, rfl, rfl⟩
      by_cases hj : j = i
      · subst hj
        rw [hself, hs]
      · rw [transfers_setTransfer_ne _ hj]
  · intro hg
    constructor
    · exact hg.fresh
    · intro j v hu hin hv
      by_cases hj : j = i
      · subst hj
        rw [hself] at hu hin hv
        exact hr hg hu hin v hv
      · rw [transfers_setTransfer_ne _ hj] at hu hin hv
        exact hg.requestor j v hu hin hv
    · exact hg.catcher
    · rcases hs with hs | hs
      · exact .inl hs
      · rcases hg.drag with hd | hd
        · exact .inl hd
        · refine .inr fun j hu hin hc => ?_
          by_cases hj : j = i
          · subst hj
            rw [hself] at hu hin hc
            simp only [Transfer.drags, hu, hin, hc, and_self, if_true] at hs
            split at hs
            · rename_i hold
              exact hd j hold.1 hold.2.1 hold.2.2
            · cases hs
          · rw [transfers_setTransfer_ne _ hj] at hu hin hc
            exact hd j hu hin hc

/-- A new window of the server -/
theorem newWindow (s : State) (a : Answers) : Local R s (s.newWindow a).2 := by
  unfold State.newWindow
  split
  · split
    · exact quiet rfl rfl (List.append_nil _).symm .nil
    · constructor
      · exact fun _ hw => List.mem_cons_of_mem _ hw
      · rfl
      · rfl
      · exact .inr ⟨rfl, rfl, rfl, rfl, [], .nil, (List.append_nil _).symm⟩
      · exact .inr rfl
      · exact .inr ⟨rfl, fun _ => rfl, rfl, rfl⟩
      · intro hg
        exact ⟨fun v hv => hg.fresh v fun hw => hv (List.mem_cons_of_mem _ hw), hg.requestor, hg.catcher, hg.drag⟩
  · exact quiet rfl rfl (List.append_nil _).symm .nil

/-- The drag changes. -/
theorem dragStep (hR : R.drag) (h : DragStep s t) : Local R s t := by
  obtain ⟨d, l, -, hl, rfl⟩ := h
  constructor
  · exact fun _ hw => hw
  · rfl
  · rfl
  · exact .inr ⟨rfl, rfl, rfl, rfl, l, hl, rfl⟩
  · exact .inr rfl
  · exact .inl hR
  · exact fun hg => ⟨hg.fresh, hg.requestor, hg.catcher, hg.drag⟩

/-- The targets of an offer change. -/
theorem setTargets (s : State) (c : Channel) (l : List Atom) : Local R s (s.setOffer c { s.offers c with targets := l }) := by
  constructor
  · exact fun _ hw => hw
  · rfl
  · rfl
  · exact .inr ⟨rfl, rfl, rfl, rfl, [], .nil, (List.append_nil _).symm⟩
  · exact .inr rfl
  · refine .inr ⟨rfl, fun _ => rfl, ?_, ?_⟩
    · cases c <;> simp [State.setOffer]
    · cases c <;> simp [State.setOffer]
  · exact fun hg => ⟨hg.fresh, hg.requestor, hg.catcher, hg.drag⟩

end Local

namespace Serves

variable {R : Rights} {s t u : State} {i : Fin maxPending}

theorem refl (s : State) : Serves R s s := ⟨fun _ => .refl s⟩

theorem trans (h : Serves R s t) (h' : Serves R t u) : Serves R s u :=
  ⟨fun hg => (h.works hg).trans (h'.works (hg.works (h.works hg)))⟩

theorem here (h : Local R s t) : Serves R s t := ⟨fun _ => .here h⟩

theorem frees (h : Guarded R s → Frees R s t) : Serves R s t := ⟨fun hg => .frees (h hg)⟩

theorem quiet {l : List Output} (hs : t.scene = s.scene) (ht : t.transfers = s.transfers) (hl : t.log = s.log ++ l)
    (hq : Apart l) : Serves R s t := here (.quiet hs ht hl hq)

theorem emit (s : State) (o : Operation) (c : Channel) (n g : Nat) (m : Option Atom) (f : Option Nat) (k : Nat)
    (w : Option Window) (x : Bool) : Serves R s (s.emit o c n g m f k w x) := quiet rfl rfl rfl (.singleton rfl)

theorem notify (s : State) (x : Transfer) (success : Bool) : Serves R s (s.notify x success) := by
  refine quiet rfl rfl rfl ?_
  unfold State.notified
  split
  · split
    · exact .singleton rfl
    · exact .nil
  · exact .nil

theorem message (s : State) (w v : Option Window) {m : Message} (hm : ∀ x, (Output.message x v m).ofExport = false) :
    Serves R s (s.message w v m) := quiet rfl rfl rfl (avoids_delivered s w v hm)

/-- Data of a transfer moves. -/
theorem move {x : Transfer} (hu : x.used = (s.transfers i).used) (hin : x.incoming = (s.transfers i).incoming)
    (hc : x.channel = (s.transfers i).channel) (hgen : x.generation = (s.transfers i).generation)
    (hr : x.requestor = (s.transfers i).requestor) : Serves R s (s.setTransfer i x) := by
  refine here (.setTransfer (.inr ?_) fun hg hxu hxin v hv => ?_)
  · simp [Transfer.drags, hu, hin, hc, hgen]
  · rw [hu] at hxu
    rw [hin] at hxin
    rw [hr] at hv
    exact hg.requestor i v hxu hxin hv

theorem fail (hu : (s.transfers i).used = true)
    (hd : (s.transfers i).incoming = false → (s.transfers i).channel = .drag → R.drag) :
    Serves R s (s.fail freeResource i) := frees fun hg => frees_fail freeing_freeResource hu hg hd

/-- `release`, of a transfer to a target of a drag only where the drag may change -/
theorem release (hd : (s.transfers i).incoming = false → (s.transfers i).channel = .drag → R.drag) :
    Serves R s (s.release freeResource i) := by
  cases hu : (s.transfers i).used with
  | false =>
    rw [release_unused _ hu]
    exact refl s
  | true =>
    constructor
    intro hg
    have hslot : Works R s (s.releaseSlot i) := by
      have hset : Local R s (s.setTransfer i { s.transfers i with used := false, timer := false }) := by
        refine .setTransfer ?_ nofun
        by_cases hdrag : (s.transfers i).incoming = false ∧ (s.transfers i).channel = .drag
        · exact .inl (hd hdrag.1 hdrag.2)
        · right
          simp [Transfer.drags, hdrag]
      exact (Works.here hset).trans (.here (.quiet rfl rfl (List.append_nil _).symm .nil))
    have hused : ((s.releaseSlot i).transfers i).used = false := by rw [transfers_releaseSlot_self]
    have hfree : Frees R (s.releaseSlot i) ((s.releaseSlot i).freeRequestor freeResource (s.transfers i)) :=
      frees_freeRequestor freeing_freeResource (hg.works hslot) fun hin v hv => hg.requestor i v hu hin hv
    rw [release_eq _ hu]
    exact hslot.trans ((Works.frees hfree).trans (.frees (.clearFd (used_freeRequestor freeing_freeResource hused _))))

theorem bytesFile (s : State) (size : Nat) (file : NewFile) : Serves R s (s.bytesFile size file).2 := by
  unfold State.bytesFile
  repeat' split
  all_goals exact quiet rfl rfl (List.append_nil _).symm .nil

theorem close (s : State) (fd : Option Nat) : Serves R s (s.close fd) :=
  quiet rfl rfl (List.append_nil _).symm .nil

theorem publishTargets (s : State) (c : Channel) (file : NewFile) : Serves R s (s.publishTargets c file) := by
  unfold State.publishTargets
  exact ((bytesFile s (s.offers c).targets.length file).trans (emit _ _ _ _ _ _ _ _ _ _)).trans (close _ _)

/-- A new transfer -/
theorem allocate {incoming : Bool} {c : Channel} {serial generation : Nat} {timer : Bool}
    (h : s.allocate incoming c serial generation timer = some (i, t)) (hd : incoming = false → c = .drag → R.drag) :
    Serves R s t := by
  obtain ⟨hfree, rfl⟩ := allocate_eq h
  refine (here (.setTransfer ?_ fun _ _ _ v hv => ?_)).trans (quiet rfl rfl (List.append_nil _).symm .nil)
  · by_cases hdrag : incoming = false ∧ c = .drag
    · exact .inl (hd hdrag.1 hdrag.2)
    · right
      simp only [Transfer.drags, hfree, true_and, Bool.false_eq_true, false_and, if_false, if_neg hdrag]
  · cases hv

theorem transfers_newWindow (s : State) (a : Answers) : (s.newWindow a).2.transfers = s.transfers := by
  unfold State.newWindow
  split
  · split <;> rfl
  · rfl

/-- A new window of the server did not exist. -/
theorem fresh_newWindow {w : Window} {a : Answers} (h : (s.newWindow a).1 = some w) : w ∉ s.windows := by
  unfold State.newWindow at h
  split at h
  · split at h
    · cases h
    · rename_i hn
      cases h
      exact hn
  · cases h

theorem request (s : State) (c : Channel) (serial generation : Nat) (target : Atom) (list : Bool) (a : Answers) :
    Serves R s (s.request freeResource c serial generation target list a) := by
  have hrefused : Serves R s (if list then s else s.emit .reply c serial generation (some target) none 0 none false) := by
    split
    · exact refl s
    · exact emit _ _ _ _ _ _ _ _ _ _
  have hcases := request_cases s c serial generation target list a
  generalize s.request freeResource c serial generation target list a = r at hcases ⊢
  cases hcases with
  | refused => exact hrefused
  | @asked i t u w halloc hnew =>
    have hallocated := allocate (R := R) halloc nofun
    have hti := transfers_allocate halloc
    have hset : Serves R s (t.setTransfer i { t.transfers i with target := target, targets := list, property := .data }) :=
      hallocated.trans (move rfl rfl rfl rfl rfl)
    have hself := transfers_setTransfer_self t i { t.transfers i with target := target, targets := list, property := .data }
    generalize t.setTransfer i { t.transfers i with target := target, targets := list, property := .data } = v at *
    have hu : (v.transfers i).used = true := by rw [hself, hti]
    have hin : (v.transfers i).incoming = true := by rw [hself, hti]
    have hwin := hset.trans (here (.newWindow v a))
    have htr := transfers_newWindow v a
    have hfresh := @fresh_newWindow v
    rw [hnew] at hwin htr
    cases w with
    | none =>
      refine hwin.trans (fail ?_ fun hout => ?_)
      · rw [htr]
        exact hu
      · rw [htr, hin] at hout
        cases hout
    | some w =>
      -- the window of the requestor did not exist, so it may be freed
      constructor
      intro hg
      refine (hwin.works hg).trans (.here (.setTransfer (.inr ?_) fun _ _ _ v hv => ?_))
      · simp [Transfer.drags]
      · cases hv
        exact (hg.works (hset.works hg)).fresh w (hfresh (by rw [hnew]))

/-- The callback of a selection -/
theorem selectionChanged {c : Channel} (kind : Kind) (a : Answers)
    (hd : c = .drag → (s.selections c).window ≠ s.bridge → R.drag ∨ ∀ i, (s.transfers i).used = true →
      (s.transfers i).incoming = false → (s.transfers i).channel ≠ .drag) :
    Serves R s (s.selectionChanged freeResource c kind a) := by
  constructor
  intro hg
  rcases selectionChanged_cases freeing_freeResource kind a hg hd with heq | hfrees | ⟨-, -, -, hforget, heq⟩
  · rw [heq]
    exact .refl s
  · exact .frees hfrees
  · rw [heq]
    exact (Works.frees hforget).trans ((request _ _ _ _ _ _ a).works (hg.frees hforget))

/-- Opening a file for a piece -/
theorem opens {file : NewFile} {fd : Option Nat} {r : State} (h : Opens s i file fd r) :
    Serves R s (r.setTransfer i { s.transfers i with fd := fd }) := by
  have hsame : Serves R s r := by
    cases h with
    | kept => exact refl s
    | opened _ hfile =>
      have hfd := bytesFile (R := R) s 0 file
      rwa [hfile] at hfd
  refine hsame.trans (move ?_ ?_ ?_ ?_ ?_)
  all_goals rw [h.transfers]

theorem piece {file : NewFile} {fd : Option Nat} {r : State} (h : Opens s i file fd r) (n : Nat) :
    Serves R s ((r.setTransfer i { s.transfers i with fd := fd }).setTransfer i
      { s.transfers i with fd := fd, size := (s.transfers i).size + n }) := by
  refine (opens h).trans (move ?_ ?_ ?_ ?_ ?_)
  all_goals rw [transfers_setTransfer_self]

theorem receive (hu : (s.transfers i).used = true) (hin : (s.transfers i).incoming = true) (initial : Bool) (a : Answers) :
    Serves R s (s.receive i initial a) := by
  -- nothing of an incoming transfer is told to a target of a drag
  have hfails : ∀ {t : State}, (t.transfers i).used = true → (t.transfers i).incoming = true →
      Serves R t (t.fail freeResource i) := by
    intro t hused hincoming
    refine fail hused fun hout => ?_
    rw [hincoming] at hout
    cases hout
  have hreleases : ∀ {t : State}, (t.transfers i).incoming = true → Serves R t (t.release freeResource i) := by
    intro t hincoming
    refine release fun hout => ?_
    rw [hincoming] at hout
    cases hout
  have hreceives := receive_cases s i initial a
  generalize s.receive i initial a = t at hreceives ⊢
  cases hreceives with
  | fails => exact hfails hu hin
  | @announced fd r _ _ _ _ _ hfile =>
    have hsame := bytesFile (R := R) s 0 a.file
    have htr := transfers_bytesFile s 0 a.file
    rw [hfile] at hsame htr
    cases fd with
    | none =>
      refine (hsame.trans (move ?_ ?_ ?_ ?_ ?_)).trans (hfails ?_ ?_)
      iterate 5 rw [htr]
      · rw [transfers_setTransfer_self]
        exact hu
      · rw [transfers_setTransfer_self]
        exact hin
    | some d =>
      refine hsame.trans (move ?_ ?_ ?_ ?_ ?_)
      all_goals rw [htr]
  | targets _ htargets =>
    refine ((here (.setTargets s _ _)).trans (publishTargets _ _ a.file)).trans (hreleases ?_)
    rw [transfers_publishTargets]
    exact hin
  | lost h =>
    refine (opens h).trans (hfails ?_ ?_)
    · rw [transfers_setTransfer_self]
      exact hu
    · rw [transfers_setTransfer_self]
      exact hin
  | @last fd r n h hlist =>
    have hself : ((r.setTransfer i { s.transfers i with fd := fd }).setTransfer i
        { s.transfers i with fd := fd, size := (s.transfers i).size + n }).transfers i =
          { s.transfers i with fd := fd, size := (s.transfers i).size + n } := transfers_setTransfer_self _ _ _
    refine ((piece h n).trans (emit _ _ _ _ _ _ _ _ _ _)).trans (hreleases ?_)
    show ((State.setTransfer _ i _).transfers i).incoming = true
    rw [hself]
    exact hin
  | more n h => exact piece h n

theorem notified_some {c : Channel} {requestor : Option Window} {target : Atom}
    (hi : s.notified? c requestor target = some i) :
    (s.transfers i).used = true ∧ (s.transfers i).incoming = true := by
  have := List.find?_some hi
  simp only [Bool.and_eq_true] at this
  exact this.1.1.1

theorem selectionNotify (s : State) (c : Channel) (requestor : Option Window) (target property : Atom) (a : Answers) :
    Serves R s (s.selectionNotify c requestor target property a) := by
  unfold State.selectionNotify
  split
  · exact refl s
  · split
    · rename_i i hi
      obtain ⟨hu, hin⟩ := notified_some hi
      split
      · exact receive hu hin true a
      · refine fail hu fun hout => ?_
        rw [hin] at hout
        cases hout
    · exact refl s

theorem read (s : State) (c : Channel) (e : Event) (a : Answers) : Serves R s (s.read c e a) := by
  unfold State.read
  split
  · exact request _ c e.serial e.offer _ false a
  · exact refl s

/-! ### Transfers to clients -/

theorem dragStep (hR : R.drag) (h : DragStep s t) : Serves R s t := here (.dragStep hR h)

/-- The drag waits only for transfers to its target. -/
theorem selectionFinished {x : Transfer} (hd : x.incoming = false → x.channel = .drag → R.drag) (s : State) (success : Bool)
    (a : Answers) : Serves R s (s.selectionFinished x success a) := by
  by_cases hdrag : x.incoming = false ∧ x.channel = .drag
  · exact dragStep (hd hdrag.1 hdrag.2) ((DragStep.refl s).selectionFinished x success a)
  · have hsame : s.selectionFinished x success a = s := by
      unfold State.selectionFinished
      apply if_pos
      rw [Decidable.not_and_iff_not_or_not] at hdrag
      rcases hdrag with hin | hc
      · exact .inl (by simpa using hin)
      · exact .inr (.inl hc)
    rw [hsame]
    exact refl s

theorem advance (s : State) (i : Fin maxPending) : Serves R s (s.advance i) := move rfl rfl rfl rfl rfl

theorem sendChunk (hd : (s.transfers i).incoming = false → (s.transfers i).channel = .drag → R.drag)
    (hu : (s.transfers i).used = true) (a : Answers) : Serves R s (s.sendChunk i a).1 := by
  unfold State.sendChunk
  dsimp only
  split
  · exact (release hd).trans (selectionFinished hd _ _ _)
  · split
    · exact fail hu hd
    · split
      · refine ((advance s i).trans (release ?_)).trans (selectionFinished hd _ _ _)
        rw [State.advance, transfers_setTransfer_self]
        exact hd
      · exact advance s i

theorem propertyWork (s : State) (i : Fin maxPending)
    (hd : (s.transfers i).incoming = false → (s.transfers i).channel = .drag → R.drag) (ticket : Nat) (a : Answers) :
    Serves R s (s.propertyWork i ticket a) := by
  unfold State.propertyWork
  dsimp only
  split
  · rename_i hw
    have hset : Serves R s (s.setTransfer i { s.transfers i with queued := false }) := move rfl rfl rfl rfl rfl
    have hself := transfers_setTransfer_self s i { s.transfers i with queued := false }
    refine hset.trans ?_
    split
    · rename_i hin
      apply receive
      · rw [hself]
        exact hw.2.1
      · rw [hself]
        exact hin
    · apply sendChunk
      · rw [hself]
        exact hd
      · rw [hself]
        exact hw.2.1
  · exact refl s

theorem serve (hd : (s.transfers i).incoming = false → (s.transfers i).channel = .drag → R.drag)
    (hu : (s.transfers i).used = true) (a : Answers) : Serves R s (s.serve i a) := by
  unfold State.serve
  dsimp only
  split
  · exact fail hu hd
  · split
    · exact (notify _ _ _).trans (release hd)
    · split
      · exact emit _ _ _ _ _ _ _ _ _ _
      · exact fail hu hd

theorem convert (s : State) {c : Channel} (hd : c = .drag → R.drag) (requestor : Option Window) (target : Atom)
    (property : Option Atom) (time : Nat) (a : Answers) : Serves R s (s.convert c requestor target property time a) := by
  unfold State.convert
  split
  · exact refl s
  · have htaken : Serves R s { s with
        requests := s.requests ++ [Request.conversion requestor c target time]
        requestSequence := s.requestSequence + 1 } := quiet rfl rfl (List.append_nil _).symm .nil
    refine htaken.trans ?_
    unfold State.outgoingTransfer
    split
    · exact notify _ _ _
    · rename_i i t halloc
      have hnew := allocate (R := R) halloc fun _ => hd
      have hti := transfers_allocate halloc
      obtain ⟨x, hx⟩ : ∃ x, x = { t.transfers i with requestor := requestor, target := target
                                                     property := property.getD target, time := time } := ⟨_, rfl⟩
      have hset : Local R t (t.setTransfer i x) := by
        refine .setTransfer (.inr ?_) fun _ _ hin => ?_
        · rw [hx]
          rfl
        · rw [hx, hti] at hin
          cases hin
      have hself := transfers_setTransfer_self t i x
      rw [← hx]
      refine (hnew.trans (here hset)).trans (serve ?_ ?_ a)
      · rw [hself, hx, hti]
        exact fun _ => hd
      · rw [hself, hx, hti]

theorem startIncremental (s : State) (i : Fin maxPending)
    (hd : (s.transfers i).incoming = false → (s.transfers i).channel = .drag → R.drag) (a : Answers) :
    Serves R s (s.startIncremental i a) := by
  have hset : Serves R s (s.setTransfer i { s.transfers i with incremental := true }) := move rfl rfl rfl rfl rfl
  have hself := transfers_setTransfer_self s i { s.transfers i with incremental := true }
  unfold State.startIncremental
  dsimp only
  split
  · exact hset.trans (notify _ _ _)
  · refine (hset.trans (notify _ _ _)).trans (release ?_)
    rw [show ∀ (r : State) (x : Transfer) (b : Bool), (r.notify x b).transfers = r.transfers from fun _ _ _ => rfl, hself]
    exact hd

/-- The end of a transfer to a client -/
theorem transfers_releaseOutgoing (hu : (s.transfers i).used = true) (hin : (s.transfers i).incoming = false) :
    (s.release freeResource i).transfers i = { s.transfers i with used := false, timer := false, fd := none } := by
  rw [release_outgoing _ hu hin, State.clearFd, transfers_setTransfer_self, transfers_releaseSlot_self]

theorem transfers_failOutgoing (s : State) (i : Fin maxPending) :
    (s.failOutgoing i).transfers i = { s.transfers i with used := false, timer := false, fd := none } := by
  unfold State.failOutgoing
  dsimp only
  rw [transfers_drag ((DragStep.refl _).selectionFinished _ _ _), State.clearFd, transfers_setTransfer_self,
    transfers_releaseSlot_self, transfers_refuse]

/-- A piece leaves the transfer to its client what it is. -/
theorem transfers_sendChunk (hu : (s.transfers i).used = true) (hin : (s.transfers i).incoming = false) (a : Answers) :
    ((s.sendChunk i a).1.transfers i).incoming = false ∧
      ((s.sendChunk i a).1.transfers i).channel = (s.transfers i).channel ∧
      ((s.sendChunk i a).1.transfers i).generation = (s.transfers i).generation := by
  unfold State.sendChunk
  dsimp only
  split
  · rw [transfers_drag ((DragStep.refl _).selectionFinished _ _ _), transfers_releaseOutgoing hu hin]
    exact ⟨hin, rfl, rfl⟩
  · split
    · rw [fail_outgoing _ hu hin, transfers_failOutgoing]
      exact ⟨hin, rfl, rfl⟩
    · have hself : (s.advance i).transfers i =
          { s.transfers i with offset := (s.transfers i).offset + chunk (s.transfers i) } :=
        transfers_setTransfer_self _ _ _
      split
      · rw [transfers_drag ((DragStep.refl _).selectionFinished _ _ _), transfers_releaseOutgoing, hself]
        · exact ⟨hin, rfl, rfl⟩
        · rw [hself]
          exact hu
        · rw [hself]
          exact hin
      · rw [hself]
        exact ⟨hin, rfl, rfl⟩

theorem sendWhole (hd : (s.transfers i).channel = .drag → R.drag) (hu : (s.transfers i).used = true)
    (hin : (s.transfers i).incoming = false) (a : Answers) : Serves R s (s.sendWhole i a) := by
  have hchunk := sendChunk (fun _ => hd) hu a
  obtain ⟨-, hc, -⟩ := transfers_sendChunk hu hin a
  unfold State.sendWhole
  dsimp only
  generalize s.sendChunk i a = r at hchunk hc
  have hdr : (r.1.transfers i).incoming = false → (r.1.transfers i).channel = .drag → R.drag := by
    rw [hc]
    exact fun _ => hd
  refine (Serves.trans ?_ (release ?_)).trans (selectionFinished hdr _ _ _)
  · split
    · exact hchunk.trans (notify _ _ _)
    · exact hchunk
  · split
    · exact hdr
    · exact hdr

theorem replyTo (hd : (s.transfers i).channel = .drag → R.drag) (hu : (s.transfers i).used = true)
    (hin : (s.transfers i).incoming = false) (fd : Option Nat) (a : Answers) : Serves R s (s.replyTo i fd a) := by
  have hfail : Serves R s (s.fail freeResource i) := fail hu fun _ => hd
  unfold State.replyTo
  split
  · rename_i fd size _
    split
    · exact hfail.trans (close _ _)
    · have hset : Serves R s (s.setTransfer i { s.transfers i with fd := some fd, size := size }) :=
        move rfl rfl rfl rfl rfl
      have hself := transfers_setTransfer_self s i { s.transfers i with fd := some fd, size := size }
      refine hset.trans ?_
      unfold State.deliver
      split
      · apply release
        rw [hself]
        exact fun _ => hd
      · split
        · apply startIncremental
          rw [hself]
          exact fun _ => hd
        · apply sendWhole
          · rw [hself]
            exact hd
          · rw [hself]
            exact hu
          · rw [hself]
            exact hin
  · exact hfail.trans (close _ _)

theorem replied_some {c : Channel} {serial generation : Nat} (hi : s.replied? c serial generation = some i) :
    (s.transfers i).used = true ∧ (s.transfers i).incoming = false ∧ (s.transfers i).generation = generation ∧
      (s.transfers i).channel = c := by
  have := List.find?_some hi
  simp only [Bool.and_eq_true, Bool.not_eq_true', decide_eq_true_eq] at this
  exact ⟨this.1.1.1.1, this.1.1.1.2, this.1.2, this.2⟩

theorem reply (s : State) {c : Channel} (hd : c = .drag → R.drag) (e : Event) (fd : Option Nat) (a : Answers) :
    Serves R s (s.reply c e fd a) := by
  have hans : Serves R s { s with answered := s.answered ++ [e.serial] } := quiet rfl rfl (List.append_nil _).symm .nil
  unfold State.reply
  dsimp only
  split
  · exact hans.trans (close _ _)
  · rename_i i hi
    obtain ⟨hu, hin, -, hc⟩ := replied_some hi
    refine hans.trans (replyTo ?_ hu hin fd a)
    rw [hc]
    exact hd

/-- A selection gets another owner. -/
theorem setSelection {c : Channel} (hd : c = .drag → R.drag) (ho : c = .drag → R.owner) (s : State) (x : Selection) :
    Serves R s (s.setSelection c x) := by
  refine here ?_
  have hother : c = .clipboard → (s.setSelection c x).selections .drag = s.selections .drag := by
    rintro rfl
    simp [State.setSelection]
  constructor
  · exact fun _ hw => hw
  · rfl
  · rfl
  · exact .inr ⟨rfl, rfl, rfl, rfl, [], .nil, (List.append_nil _).symm⟩
  · cases c with
    | clipboard => exact .inr (hother rfl)
    | drag => exact .inl (ho rfl)
  · exact .inr ⟨rfl, fun _ => rfl, rfl, rfl⟩
  · intro hg
    refine ⟨hg.fresh, hg.requestor, hg.catcher, ?_⟩
    cases c with
    | clipboard =>
      rw [hother rfl]
      exact hg.drag
    | drag => exact .inl (hd rfl)

theorem own {c : Channel} (hd : c = .drag → R.drag) (ho : c = .drag → R.owner) (s : State) (a : Answers) :
    Serves R s (s.own c a) := by
  unfold State.own
  split
  · exact (setSelection hd ho _ _).trans (selectionChanged .setOwner a fun hc _ => .inl (hd hc))
  · exact refl s

theorem takeOffer {c : Channel} (hd : c = .drag → R.drag) (ho : c = .drag → R.owner) (s : State) (e : Event)
    (fd : Option Nat) (a : Answers) : Serves R s (s.takeOffer c e fd a) := by
  unfold State.takeOffer
  split
  · refine (here ?_).trans (own hd ho _ a)
    constructor
    · exact fun _ hw => hw
    · rfl
    · rfl
    · exact .inr ⟨rfl, rfl, rfl, rfl, [], .nil, (List.append_nil _).symm⟩
    · exact .inr rfl
    · cases c with
      | clipboard => exact .inr ⟨rfl, fun _ => rfl, by simp [State.setOffer], by simp [State.setOffer]⟩
      | drag => exact .inl (hd rfl)
    · exact fun hg => ⟨hg.fresh, hg.requestor, hg.catcher, hg.drag⟩
  · exact refl s

/-- The commands that do not concern an export -/
theorem operate (hR : R.drag) {c : Channel} {e : Event} (ho : c = .drag → e.operation = .offer → R.owner)
    (hf : e.operation ≠ .finish) (hc : e.operation ≠ .cancel) (hb : e.operation ≠ .begin) (s : State) (fd : Option Nat)
    (a : Answers) : Serves R s (s.operate c e fd a) := by
  unfold State.operate
  split
  · rename_i hop
    exact (takeOffer (fun _ => hR) (fun h => ho h hop) s e fd a).trans (close _ _)
  · exact (read s c e a).trans (close _ _)
  · exact reply s (fun _ => hR) e fd a
  · exact (dragStep hR ((DragStep.refl s).enterDrag c e)).trans (close _ _)
  · exact (dragStep hR ((DragStep.refl s).moveDrag e a)).trans (close _ _)
  · exact (dragStep hR (DragStep.refl s).leaveTarget.forgetDrag).trans (close _ _)
  · exact (dragStep hR ((DragStep.refl s).dropDrag a)).trans (close _ _)
  · rename_i hop
    exact absurd hop hf
  · rename_i hop
    exact absurd hop hc
  · rename_i hop
    exact absurd hop hb
  · exact close _ _

end Serves

end Lorie.DataExchange
