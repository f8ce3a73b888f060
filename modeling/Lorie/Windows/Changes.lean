import Lorie.Windows.Model
import Mathlib.Logic.Relation

/-!
# What requests and confirmations change

A request of a client and a confirmation of the host do a few things to the model: they make the record of a window, give one
of its serials a new value, change its record under the old serials, or change the properties with the states of a window.
`Change` lists them, and `sendEvent_changes` and the lemmas about the confirmations say that nothing else happens. Facts about
the model are proved for each `Change`.
-/

namespace Lorie.Windows

namespace WindowRecord

/-- Which record it is, and whether it was sent. -/
def ident (r : WindowRecord) : Nat × Nat × Bool × Bool := (r.id, r.number, r.published, r.destroyed)

/-- The serials of a record -/
def serials (r : WindowRecord) : List Nat := [r.fullscreen.serial, r.maximized.serial, r.interaction.serial]

/-- A record changes under its serials. -/
structure Same (r r' : WindowRecord) : Prop where
  ident : r'.ident = r.ident
  serials : r'.serials = r.serials

/-- A record gets the serial `n`. -/
structure Renewed (n : Nat) (r r' : WindowRecord) : Prop where
  ident : r'.ident = r.ident
  serials : ∃ i, r'.serials = r.serials.set i n

theorem Renewed.fullscreen {n : Nat} {r r' : WindowRecord} (hident : r'.ident = r.ident) (hf : r'.fullscreen.serial = n)
    (hm : r'.maximized.serial = r.maximized.serial) (hi : r'.interaction.serial = r.interaction.serial) : Renewed n r r' :=
  ⟨hident, 0, by simp only [WindowRecord.serials, hf, hm, hi, List.set_cons_zero]⟩

theorem Renewed.maximized {n : Nat} {r r' : WindowRecord} (hident : r'.ident = r.ident)
    (hf : r'.fullscreen.serial = r.fullscreen.serial) (hm : r'.maximized.serial = n)
    (hi : r'.interaction.serial = r.interaction.serial) : Renewed n r r' :=
  ⟨hident, 1, by simp only [WindowRecord.serials, hf, hm, hi, List.set_cons_zero, List.set_cons_succ]⟩

theorem Renewed.interaction {n : Nat} {r r' : WindowRecord} (hident : r'.ident = r.ident)
    (hf : r'.fullscreen.serial = r.fullscreen.serial) (hm : r'.maximized.serial = r.maximized.serial)
    (hi : r'.interaction.serial = n) : Renewed n r r' :=
  ⟨hident, 2, by simp only [WindowRecord.serials, hf, hm, hi, List.set_cons_zero, List.set_cons_succ]⟩

end WindowRecord

open WindowRecord

namespace State

variable {s t : State}

theorem live_iff {id : Nat} {r : WindowRecord} : live id r = true ↔ r.destroyed = false ∧ r.id = id := by
  simp only [live, Bool.and_eq_true, Bool.not_eq_true', decide_eq_true_eq]

/-- An application is not the root window, and has contents. -/
theorem isApplication_own {w : Window} (h : s.isApplication w = true) : w.id ≠ s.root.id ∧ w.inputOutput = true := by
  simp only [State.isApplication, Windows.isApplication] at h
  split at h
  · cases h
  · rename_i hnot
    simp only [not_or, Bool.not_eq_true', Bool.not_eq_false] at hnot
    exact ⟨hnot.1, hnot.2.1⟩

/-- `lookup` finds a window with the number. -/
theorem lookup_some {id : Nat} {w : Window} (h : s.lookup id = some w) : w.id = id ∧ (w = s.root ∨ w ∈ s.windows) := by
  unfold lookup at h
  split at h
  · cases h
  · split at h
    · rename_i hroot
      cases h
      exact ⟨hroot.symm, .inl rfl⟩
    · have hid := List.find?_some h
      exact ⟨of_decide_eq_true hid, .inr (List.mem_of_find?_eq_some h)⟩

/-- What `recordFor` finds or makes. -/
inductive RecordFor (s : State) (w : Window) (calloc : Bool) : Option WindowRecord × State → Prop
  | other : s.isApplication w = false → RecordFor s w calloc (none, s)
  | hidden : s.records.find? (live w.id) = none → w.realized = false → RecordFor s w calloc (none, s)
  | failed : s.isApplication w = true → s.records.find? (live w.id) = none → w.realized = true → calloc = false →
    RecordFor s w calloc (none, { s with failed := true })
  | found (r : WindowRecord) : s.isApplication w = true → s.records.find? (live w.id) = some r →
    RecordFor s w calloc (some r, s)
  | new : s.isApplication w = true → s.records.find? (live w.id) = none → w.realized = true →
    RecordFor s w calloc
      (some (s.newRecord w).1,
        { s with
          stateSerial := (s.newRecord w).2.stateSerial
          issued := (s.newRecord w).2.issued
          records := (s.newRecord w).1 :: s.records })

theorem recordFor_spec (s : State) (w : Window) (calloc : Bool) : RecordFor s w calloc (s.recordFor w calloc) := by
  unfold recordFor
  split
  · rename_i happ
    exact .other (Bool.not_eq_true' _ ▸ happ)
  · rename_i happ
    rw [Bool.not_eq_true', Bool.not_eq_false] at happ
    split
    · rename_i r hr
      exact .found r happ hr
    · rename_i hnone
      split
      · rename_i hreal
        exact .hidden hnone (Bool.not_eq_true' _ ▸ hreal)
      · rename_i hreal
        rw [Bool.not_eq_true', Bool.not_eq_false] at hreal
        split
        · rename_i hcalloc
          exact .failed happ hnone hreal (Bool.not_eq_true' _ ▸ hcalloc)
        · exact .new happ hnone hreal

theorem find_updateLive {id : Nat} {f : WindowRecord → WindowRecord} (hf : ∀ r, live id (f r) = live id r)
    (rs : List WindowRecord) : (updateLive id f rs).find? (live id) = (rs.find? (live id)).map f := by
  induction rs with
  | nil => rfl
  | cons r rs ih =>
    simp only [updateLive]
    cases hr : live id r with
    | true => rw [if_pos rfl, List.find?_cons_of_pos ((hf r).trans hr), List.find?_cons_of_pos hr, Option.map_some]
    | false =>
      rw [if_neg Bool.false_ne_true, List.find?_cons_of_neg (by rw [hr]; exact Bool.false_ne_true),
        List.find?_cons_of_neg (by rw [hr]; exact Bool.false_ne_true), ih]

/-- The found record is the one in the list. -/
theorem recordFor_find {w : Window} {calloc : Bool} {r : WindowRecord} (h : s.recordFor w calloc = (some r, t)) :
    t.records.find? (live w.id) = some r := by
  have hspec := recordFor_spec s w calloc
  rw [h] at hspec
  cases hspec with
  | found _ _ hfind => exact hfind
  | new _ _ _ =>
    have hlive : live w.id (s.newRecord w).1 = true := live_iff.2 ⟨rfl, rfl⟩
    exact List.find?_cons_of_pos hlive

/-! ## Properties -/

/-- A property of a window with its value -/
def store (id : Nat) (name : Name) (value : Option Property) (w : Window) : Window :=
  if w.id = id then { w with properties := Function.update w.properties name value } else w

theorem renewInteraction_state (id : Nat) (attention : Bool) (rs : List WindowRecord) (s : State) :
    ∃ serial issued, (renewInteraction id attention rs s).2 = { s with stateSerial := serial, issued := issued } := by
  induction rs generalizing s with
  | nil => exact ⟨_, _, rfl⟩
  | cons r rs ih =>
    simp only [renewInteraction]
    split
    · exact ih s.nextStateSerial.2
    · exact ih s

theorem propertyChanged_state (s : State) (id : Nat) (name : Name) (attention : Bool) :
    ∃ serial issued records, s.propertyChanged id name attention =
      { s with stateSerial := serial, issued := issued, records := records, dirty := true } := by
  have hfirst : ∃ serial issued records,
      (if s.managerWindow.isSome ∧ name = .wmHints then
        { (renewInteraction id attention s.records s).2 with records := (renewInteraction id attention s.records s).1 }
      else s) = { s with stateSerial := serial, issued := issued, records := records } := by
    split
    · obtain ⟨serial, issued, heq⟩ := renewInteraction_state id attention s.records s
      rw [heq]
      exact ⟨serial, issued, _, rfl⟩
    · exact ⟨_, _, _, rfl⟩
  have hclass : ∀ u : State, ∃ records, (if name = .wmClass ∨ name = .wmNormalHints then u.changeAll id else u) =
      { u with records := records } := by
    intro u
    split
    · exact ⟨_, rfl⟩
    · exact ⟨_, rfl⟩
  obtain ⟨serial, issued, records, hfirst⟩ := hfirst
  obtain ⟨records', hclass⟩ := hclass { s with stateSerial := serial, issued := issued, records := records }
  refine ⟨serial, issued, records', ?_⟩
  simp only [propertyChanged, hfirst, hclass]

/-- Apart from records and serials, a property only changes in its window. -/
theorem setProperty_state (s : State) (id : Nat) (name : Name) (value : Option Property) (early : Bool) :
    ∃ serial issued records, s.setProperty id name value early =
      { s with
        root := store id name value s.root
        windows := s.windows.map (store id name value)
        stateSerial := serial
        issued := issued
        records := records
        dirty := true } := by
  obtain ⟨serial, issued, records, heq⟩ := propertyChanged_state (s.storeProperty id name value) id name
    (if early then s.urgentWindow id else (s.storeProperty id name value).urgentWindow id)
  exact ⟨serial, issued, records, heq⟩

/-! ## Changes -/

/-- The properties that a confirmation changes -/
def StateName (name : Name) : Prop := name = .netWmState ∨ name = .wmState ∨ name = .netActiveWindow

/-- One thing that happens to the model. -/
inductive Change (s : State) : State → Prop
  /-- The record of a window is looked up or made. -/
  | record (w : Window) (calloc : Bool) : w = s.root ∨ w ∈ s.windows → Change s (s.recordFor w calloc).2
  /-- A record gets a new serial. -/
  | renew (id : Nat) (f : Nat → WindowRecord → WindowRecord) : (∀ n r, Renewed n r (f n r)) → Change s (s.changeSerial id f)
  /-- A record changes under its serials. -/
  | change (id : Nat) (f : WindowRecord → WindowRecord) : (∀ r, Same r (f r)) → Change s (s.change id f)
  | property (id : Nat) (name : Name) (value : Property) : StateName name →
    Change s (s.setProperty id name (some value) false)
  | gesture (window direction : Nat) : Change s { s with sent := s.sent ++ [.gesture window direction] }
  | request : Change s { s with lastInputTime := 0, log := s.log ++ [.request s.clock] }

/-- A sequence of changes -/
abbrev Changes : State → State → Prop := Relation.ReflTransGen Change

theorem Changes.ite {u : State} {c : Prop} [Decidable c] (h : Changes s t) (h' : Changes t u) :
    Changes s (if c then u else t) := by
  split
  · exact h.trans h'
  · exact h

theorem dixChangeWindowProperty_changes (env : Env) (i id : Nat) {name : Name} (value : Property) (h : StateName name) :
    Changes s (s.dixChangeWindowProperty env i id name value) := by
  unfold dixChangeWindowProperty
  split
  · exact .single (.property id name value h)
  · exact .refl

/-- What `confirmed` finds, and that it only makes a record. -/
theorem confirmed_some {id : Nat} {env : Env} {w : Window} {r : WindowRecord} (h : s.confirmed id env = (some (w, r), t)) :
    s.lookup id = some w ∧ s.recordFor w env.record = (some r, t) := by
  unfold confirmed at h
  split at h
  · cases h
  · split at h
    · cases h
    · rename_i w' hw'
      split at h
      · cases h
      · rename_i r' s' hr'
        cases h
        exact ⟨hw', hr'⟩

theorem confirmed_changes (id : Nat) (env : Env) : Changes s (s.confirmed id env).2 := by
  unfold confirmed
  split
  · exact .refl
  · split
    · exact .refl
    · rename_i w hw
      have hrecord : Changes s (s.recordFor w env.record).2 := .single (.record w env.record (lookup_some hw).2)
      split
      · rename_i s' hr
        rw [hr] at hrecord
        exact hrecord
      · rename_i r s' hr
        rw [hr] at hrecord
        exact hrecord

/-! ## Confirmations -/

theorem fullscreenConfirm_changes (id serial : Nat) (fullscreen : Bool) (env : Env) :
    Changes (s.confirmed id env).2 (s.lorieWindowFullscreenConfirm id serial fullscreen env) := by
  unfold lorieWindowFullscreenConfirm
  rcases s.confirmed id env with ⟨_ | ⟨w, r⟩, u⟩
  · exact .refl
  · dsimp only
    split
    · exact .refl
    · split
      · have hsame : ∀ r : WindowRecord,
            Same r { r with fullscreen := lorieFullscreenConfirm r.fullscreen serial fullscreen } := by
          intro r
          refine ⟨rfl, ?_⟩
          simp only [serials, lorieFullscreenConfirm]
          split <;> rfl
        refine .tail ?_ (.change w.id _ hsame)
        exact dixChangeWindowProperty_changes env 0 w.id _ (.inl rfl)
      · exact .refl

theorem maximizedConfirm_changes (id serial : Nat) {axes : BitVec 32} (env : Env) (haxes : axes &&& ~~~3 = 0) :
    Changes (s.confirmed id env).2 (s.lorieWindowMaximizedConfirm id serial axes env) := by
  unfold lorieWindowMaximizedConfirm
  rw [if_neg (not_not_intro haxes)]
  rcases s.confirmed id env with ⟨_ | ⟨w, r⟩, u⟩
  · exact .refl
  · dsimp only
    split
    · exact .refl
    · split
      · have hsame : ∀ r : WindowRecord,
            Same r { r with maximized := lorieMaximizedConfirm r.maximized serial axes } := by
          intro r
          refine ⟨rfl, ?_⟩
          simp only [serials, lorieMaximizedConfirm]
          split <;> rfl
        refine .tail ?_ (.change w.id _ hsame)
        exact dixChangeWindowProperty_changes env 0 w.id _ (.inl rfl)
      · exact .refl

theorem interactionConfirm_changes (id serial : Nat) {flags : BitVec 32} (env : Env) (hflags : flags &&& ~~~7 = 0) :
    Changes (s.confirmed id env).2 (s.lorieWindowInteractionConfirm id serial flags env) := by
  unfold lorieWindowInteractionConfirm
  rw [if_neg (not_not_intro hflags)]
  rcases s.confirmed id env with ⟨_ | ⟨w, r⟩, u⟩
  · exact .refl
  · dsimp only
    split
    · exact .refl
    · refine .tail ?_ (.change w.id _ fun r => ⟨rfl, rfl⟩)
      have hstates : ∀ p q, Changes u ((u.dixChangeWindowProperty env 0 w.id .netWmState p).dixChangeWindowProperty
          env 1 w.id .wmState q) := fun p q =>
        (dixChangeWindowProperty_changes env 0 w.id p (.inl rfl)).trans
          (dixChangeWindowProperty_changes env 1 w.id q (.inr (.inl rfl)))
      exact Changes.ite (hstates _ _) (dixChangeWindowProperty_changes env 2 _ _ (.inr (.inr rfl)))

/-- The confirmations change the model as requests do. -/
theorem confirm_changes (id serial : Nat) (fullscreen : Bool) (flags : BitVec 32) (env : Env) :
    Changes s (s.lorieWindowFullscreenConfirm id serial fullscreen env) ∧
      Changes s (s.lorieWindowMaximizedConfirm id serial flags env) ∧
      Changes s (s.lorieWindowInteractionConfirm id serial flags env) := by
  have hrecord := confirmed_changes (s := s) id env
  refine ⟨hrecord.trans (fullscreenConfirm_changes id serial fullscreen env), ?_, ?_⟩
  · by_cases haxes : flags &&& ~~~3 = 0
    · exact hrecord.trans (maximizedConfirm_changes id serial env haxes)
    · unfold lorieWindowMaximizedConfirm
      rw [if_pos haxes]
  · by_cases hflags : flags &&& ~~~7 = 0
    · exact hrecord.trans (interactionConfirm_changes id serial env hflags)
    · unfold lorieWindowInteractionConfirm
      rw [if_pos hflags]

/-! ## Requests -/

theorem activate_changes (w : Window) (r : WindowRecord) (requested : Nat) : Changes s (s.activate w r requested) := by
  unfold activate
  exact .tail (.single .request) (.renew w.id _ fun n r' => .interaction rfl rfl rfl rfl)

theorem changeState_changes (w : Window) (r : WindowRecord) (m : Message) : Changes s (s.changeState w r m) := by
  have hfullscreen : ∀ (c : Prop) [Decidable c] (fullscreen : FullscreenState), Changes s
      (if c then
        s.changeSerial w.id fun serial r => { r with fullscreen := { fullscreen with serial := serial } }
      else s) := fun c _ fullscreen => .ite .refl (.single (.renew w.id _ fun n r' => .fullscreen rfl rfl rfl rfl))
  have hattention : ∀ (u : State) (c : Prop) [Decidable c] (attention : Bool), Changes u
      (if c then
        u.changeSerial w.id fun serial r' =>
          { r' with interaction := { r.interaction with attention := attention, action := .none, serial := serial } }
      else u) := fun u c _ attention => .ite .refl (.single (.renew w.id _ fun n r' => .interaction rfl rfl rfl rfl))
  have hmaximized : ∀ (u : State) (maximized : MaximizedState), Changes u
      (u.changeSerial w.id fun serial r => { r with maximized := { maximized with serial := serial } }) :=
    fun u maximized => .single (.renew w.id _ fun n r' => .maximized rfl rfl rfl rfl)
  unfold changeState
  dsimp only
  cases lorieFullscreenRequest r.fullscreen m.longs0 with
  | none =>
    cases lorieMaximizedRequest r.maximized m.longs0 _ with
    | none => exact (Changes.ite .refl .refl).trans (hattention _ _ _)
    | some maximized => exact ((Changes.ite .refl .refl).trans (hattention _ _ _)).trans (hmaximized _ maximized)
  | some fullscreen =>
    cases lorieMaximizedRequest r.maximized m.longs0 _ with
    | none => exact (hfullscreen _ fullscreen).trans (hattention _ _ _)
    | some maximized => exact ((hfullscreen _ fullscreen).trans (hattention _ _ _)).trans (hmaximized _ maximized)

theorem request_changes (w : Window) (r : WindowRecord) (m : Message) (gesture : Nat → Nat → Bool) :
    Changes s (s.request w r m gesture) := by
  unfold request
  split
  · exact activate_changes w r m.longs1
  · split
    · exact .ite .refl (.single (.renew w.id _ fun n r' => .interaction rfl rfl rfl rfl))
    · split
      · exact .ite .refl (.single (.gesture r.id m.longs2))
      · exact .ite .refl (changeState_changes w r m)

theorem sendEvent_changes (m : Message) (calloc : Bool) (gesture : Nat → Nat → Bool) :
    Changes s (s.sendEvent m calloc gesture) := by
  unfold sendEvent
  split
  · exact .refl
  · cases hw : s.lookup m.window with
    | none => exact .refl
    | some w =>
      have hrecord : Changes s (s.recordFor w calloc).2 := .single (.record w calloc (lookup_some hw).2)
      dsimp only
      rcases hr : s.recordFor w calloc with ⟨_ | r, u⟩ <;> rw [hr] at hrecord
      · exact hrecord
      · exact hrecord.trans (request_changes w r m gesture)

end State

end Lorie.Windows
