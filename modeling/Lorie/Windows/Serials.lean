import Lorie.Lib.Ledger
import Lorie.Lib.Transition
import Lorie.Windows.Changes
import Mathlib.Data.List.Flatten

/-!
# Serials

All three states of a window take their serials from `nextStateSerial`. As long as the counter does not come round, the serials
of the records differ, and a confirmation of a serial that was replaced, or that belongs to another window or another state,
finds no record.

- `Allocates`: what holds of the serials after an operation, and `step_allocates`: of every step;
- `stale_confirmation`: what a confirmation of an old serial does;
- `serials_distinct`: the serials in every reachable state.
-/

namespace Lorie.Windows

open Lorie.Lib WindowRecord State

/-! ## The allocator -/

/-- The serials of all records -/
def heldSerials (records : List WindowRecord) : List Nat := records.flatMap serials

theorem heldSerials_cons (r : WindowRecord) (rs : List WindowRecord) : heldSerials (r :: rs) = r.serials ++ heldSerials rs :=
  List.flatMap_cons

/-- The serials that were issued are the numbers from one on; some of them are held. -/
structure Serials (s : State) (held : List Nat) : Prop where
  last : s.stateSerial = s.issued.length
  range : ∀ n ∈ s.issued, 0 < n ∧ n ≤ s.stateSerial
  issued : Issued s.issued held

namespace Serials

variable {s t : State} {held held' : List Nat}

theorem congr (h : Serials s held) (hlast : t.stateSerial = s.stateSerial) (hissued : t.issued = s.issued) :
    Serials t held := by
  refine ⟨?_, ?_, ?_⟩
  · rw [hlast, hissued]
    exact h.last
  · rw [hlast, hissued]
    exact h.range
  · rw [hissued]
    exact h.issued

theorem sublist (h : Serials s held) (hs : held'.Sublist held) : Serials s held' := ⟨h.last, h.range, h.issued.sublist hs⟩

/-- The next serial, before the counter comes round. -/
theorem next (h : Serials s held) (hb : s.issued.length + 1 < 4294967296) :
    next32 s.stateSerial = s.issued.length + 1 ∧ next32 s.stateSerial ∉ s.issued := by
  have hnext : next32 s.stateSerial = s.issued.length + 1 := by
    unfold next32
    rw [h.last, Nat.mod_eq_of_lt hb, if_neg (Nat.succ_ne_zero _)]
  refine ⟨hnext, fun hmem => ?_⟩
  have hle := (h.range _ hmem).2
  rw [hnext, h.last] at hle
  omega

theorem nextStateSerial (h : Serials s held) (hb : s.issued.length + 1 < 4294967296)
    (hheld : Issued (next32 s.stateSerial :: s.issued) held') : Serials s.nextStateSerial.2 held' := by
  obtain ⟨hnext, -⟩ := h.next hb
  refine ⟨hnext, fun n hn => ?_, hheld⟩
  have hsucc : s.nextStateSerial.2.stateSerial = s.stateSerial + 1 := hnext.trans (by rw [h.last])
  rw [hsucc]
  rcases List.mem_cons.1 hn with rfl | hn
  · rw [hnext, h.last]
    omega
  · have hrange := h.range n hn
    omega

/-- A new record holds the next serial. -/
theorem insert (h : Serials s held) (hb : s.issued.length + 1 < 4294967296) :
    Serials s.nextStateSerial.2 (next32 s.stateSerial :: held) :=
  h.nextStateSerial hb (h.issued.insert (h.next hb).2)

/-- A record holds the next serial instead of an older one. -/
theorem replace (h : Serials s held) (hb : s.issued.length + 1 < 4294967296) (i : Nat) :
    Serials s.nextStateSerial.2 (held.set i (next32 s.stateSerial)) :=
  h.nextStateSerial hb (h.issued.replace (h.next hb).2 i)

end Serials

/-! ## Operations -/

/-- What an operation does to the serials: there may be new ones, and before the counter comes round they stay in order. -/
structure Allocates (s t : State) : Prop where
  issued : s.issued.length ≤ t.issued.length
  serials : t.issued.length < 4294967295 → Serials s (heldSerials s.records) → Serials t (heldSerials t.records)

namespace Allocates

variable {s t u : State}

theorem refl (s : State) : Allocates s s := ⟨Nat.le_refl _, fun _ h => h⟩

theorem trans (h : Allocates s t) (h' : Allocates t u) : Allocates s u :=
  ⟨Nat.le_trans h.issued h'.issued, fun hb hs => h'.serials hb (h.serials (Nat.lt_of_le_of_lt h'.issued hb) hs)⟩

/-- No serial is issued, and none is held that was not held before. -/
theorem of_sublist (hlast : t.stateSerial = s.stateSerial) (hissued : t.issued = s.issued)
    (hheld : (heldSerials t.records).Sublist (heldSerials s.records)) : Allocates s t :=
  ⟨Nat.le_of_eq (by rw [hissued]), fun _ h => (h.congr hlast hissued).sublist hheld⟩

theorem of_records (hlast : t.stateSerial = s.stateSerial) (hissued : t.issued = s.issued) (hrecords : t.records = s.records) :
    Allocates s t := of_sublist hlast hissued (by rw [hrecords])

end Allocates

theorem heldSerials_map {f : WindowRecord → WindowRecord} (hf : ∀ r, (f r).serials = r.serials) (rs : List WindowRecord) :
    heldSerials (rs.map f) = heldSerials rs := by
  simp only [heldSerials, List.flatMap_map, hf]

theorem heldSerials_updateLive {f : WindowRecord → WindowRecord} (hf : ∀ r, (f r).serials = r.serials) (id : Nat)
    (rs : List WindowRecord) : heldSerials (updateLive id f rs) = heldSerials rs := by
  induction rs with
  | nil => rfl
  | cons r rs ih =>
    simp only [updateLive]
    split
    · rw [heldSerials_cons, heldSerials_cons, hf]
    · rw [heldSerials_cons, heldSerials_cons, ih]

/-- One serial is replaced, where there is a live record. -/
theorem heldSerials_renewed {n : Nat} {f : WindowRecord → WindowRecord} (hf : ∀ r, Renewed n r (f r)) (id : Nat)
    (rs : List WindowRecord) : ∃ i, heldSerials (updateLive id f rs) = (heldSerials rs).set i n := by
  induction rs with
  | nil => exact ⟨0, rfl⟩
  | cons r rs ih =>
    obtain ⟨i, hi⟩ := ih
    simp only [updateLive]
    split
    · obtain ⟨-, j, hj⟩ := hf r
      by_cases hlt : j < r.serials.length
      · exact ⟨j, by rw [heldSerials_cons, heldSerials_cons, hj, List.set_append_left _ _ hlt]⟩
      · refine ⟨(heldSerials (r :: rs)).length, ?_⟩
        rw [List.set_eq_of_length_le (Nat.le_refl _), heldSerials_cons, heldSerials_cons, hj,
          List.set_eq_of_length_le (Nat.le_of_not_lt hlt)]
    · refine ⟨r.serials.length + i, ?_⟩
      rw [heldSerials_cons, heldSerials_cons, hi, List.set_append_right _ _ (Nat.le_add_right _ _), Nat.add_sub_cancel_left]

section Operations

variable (s : State)

theorem changeSerial_allocates (id : Nat) {f : Nat → WindowRecord → WindowRecord} (hf : ∀ n r, Renewed n r (f n r)) :
    Allocates s (s.changeSerial id f) := by
  refine ⟨Nat.le_succ _, fun hb h => ?_⟩
  have hrenewed : ∀ r : WindowRecord,
      Renewed (next32 s.stateSerial) r { f (next32 s.stateSerial) r with changed := true } := fun r =>
    ⟨(hf _ r).ident, (hf _ r).serials⟩
  obtain ⟨i, hi⟩ := heldSerials_renewed hrenewed id s.records
  have hheld : heldSerials (s.changeSerial id f).records = (heldSerials s.records).set i (next32 s.stateSerial) := hi
  rw [hheld]
  exact (h.replace (Nat.lt_succ_of_lt hb) i).congr rfl rfl

theorem change_allocates (id : Nat) {f : WindowRecord → WindowRecord} (hf : ∀ r, Same r (f r)) : Allocates s (s.change id f) := by
  refine .of_sublist rfl rfl ?_
  have hsame : ∀ r : WindowRecord, WindowRecord.serials { f r with changed := true } = r.serials := fun r => (hf r).serials
  have hheld : heldSerials (s.change id f).records = heldSerials s.records := heldSerials_updateLive hsame id s.records
  rw [hheld]

/-- The next three serials were not issued. -/
theorem newRecord_fresh {w : Window} {held : List Nat} (h : Serials s held) (hb : s.issued.length + 3 < 4294967296) :
    ∀ n ∈ (s.newRecord w).1.serials, n ∉ s.issued := by
  have h₁ := h.insert (by omega)
  have h₂ := h₁.insert (by change s.issued.length + 1 + 1 < _; omega)
  have hlater : ∀ {a b : Nat} {l : List Nat}, b ∉ a :: l → b ∉ l := fun hb hmem => hb (List.mem_cons_of_mem _ hmem)
  intro n hn
  have hcases : n = next32 s.stateSerial ∨ n = next32 (next32 s.stateSerial) ∨
      n = next32 (next32 (next32 s.stateSerial)) := by
    simpa only [serials, newRecord, nextStateSerial, List.mem_cons, List.not_mem_nil, or_false] using hn
  rcases hcases with rfl | rfl | rfl
  · exact (h.next (by omega)).2
  · exact hlater (h₁.next (by change s.issued.length + 1 + 1 < _; omega)).2
  · have hnext := (h₂.next (by change s.issued.length + 1 + 1 + 1 < _; omega)).2
    exact hlater (hlater hnext)

/-- A new record holds the next three serials. -/
theorem newRecord_serials {w : Window} {held : List Nat} (h : Serials s held) (hb : s.issued.length + 3 < 4294967296) :
    Serials (s.newRecord w).2 ((s.newRecord w).1.serials ++ held) := by
  have h₁ := h.insert (by omega)
  have h₂ := h₁.insert (by change s.issued.length + 1 + 1 < _; omega)
  have h₃ := h₂.insert (by change s.issued.length + 1 + 1 + 1 < _; omega)
  have hperm : ((s.newRecord w).1.serials ++ held).Perm ((s.newRecord w).1.serials.reverse ++ held) :=
    (List.reverse_perm _).symm.append_right held
  exact ⟨h₃.last, h₃.range, h₃.issued.perm hperm⟩

theorem recordFor_allocates (w : Window) (calloc : Bool) : Allocates s (s.recordFor w calloc).2 := by
  unfold recordFor
  split
  · exact .refl s
  · split
    · exact .refl s
    · split
      · exact .refl s
      · split
        · exact .of_records rfl rfl rfl
        · refine ⟨Nat.le_add_right _ 3, fun hb h => ?_⟩
          have hnew := newRecord_serials s (w := w) h (Nat.lt_succ_of_lt hb)
          rw [← heldSerials_cons] at hnew
          exact hnew.congr rfl rfl

theorem renewInteraction_issued (id : Nat) (attention : Bool) (rs : List WindowRecord) :
    s.issued.length ≤ (renewInteraction id attention rs s).2.issued.length := by
  induction rs generalizing s with
  | nil => exact Nat.le_refl _
  | cons r rs ih =>
    simp only [renewInteraction]
    split
    · exact Nat.le_trans (Nat.le_succ _) (ih s.nextStateSerial.2)
    · exact ih s

/-- The records of a window get new serials one after another; `before` are the serials of the records before them. -/
theorem renewInteraction_serials (id : Nat) (attention : Bool) (rs : List WindowRecord) (before : List Nat)
    (h : Serials s (before ++ heldSerials rs)) (hb : (renewInteraction id attention rs s).2.issued.length < 4294967296) :
    Serials (renewInteraction id attention rs s).2 (before ++ heldSerials (renewInteraction id attention rs s).1) := by
  induction rs generalizing s before with
  | nil => exact h
  | cons r rs ih =>
    simp only [renewInteraction] at hb ⊢
    split at hb
    · rename_i hid
      rw [if_pos hid]
      have hlt := Nat.lt_of_le_of_lt (renewInteraction_issued s.nextStateSerial.2 id attention rs) hb
      have hset : (before ++ heldSerials (r :: rs)).set (before.length + 2) (next32 s.stateSerial) =
          (before ++ [r.fullscreen.serial, r.maximized.serial, next32 s.stateSerial]) ++ heldSerials rs := by
        rw [List.set_append_right _ _ (Nat.le_add_right _ _), Nat.add_sub_cancel_left, heldSerials_cons, List.append_assoc]
        rfl
      have hnext := h.replace hlt (before.length + 2)
      rw [hset] at hnext
      have hrest := ih s.nextStateSerial.2 _ hnext hb
      rw [List.append_assoc] at hrest
      exact hrest
    · rename_i hid
      rw [if_neg hid]
      rw [heldSerials_cons, ← List.append_assoc] at h
      have hrest := ih s _ h hb
      rw [List.append_assoc, ← heldSerials_cons] at hrest
      exact hrest

/-- The records change under their serials. -/
theorem map_allocates {f : WindowRecord → WindowRecord} (hf : ∀ r, (f r).serials = r.serials) {t : State}
    (hlast : t.stateSerial = s.stateSerial) (hissued : t.issued = s.issued) (hrecords : t.records = s.records.map f) :
    Allocates s t := by
  refine .of_sublist hlast hissued ?_
  rw [hrecords, heldSerials_map hf]

theorem changeAll_allocates (id : Nat) : Allocates s (s.changeAll id) :=
  map_allocates s (fun r => by split <;> rfl) rfl rfl rfl

theorem onDestroy_allocates (id : Nat) : Allocates s (s.onDestroy id) :=
  map_allocates s (fun r => by split <;> rfl) rfl rfl rfl

theorem propertyChanged_allocates (id : Nat) (name : Name) (attention : Bool) :
    Allocates s (s.propertyChanged id name attention) := by
  have hrenew : Allocates s { (renewInteraction id attention s.records s).2 with
      records := (renewInteraction id attention s.records s).1 } := by
    refine ⟨renewInteraction_issued s id attention s.records, fun hb h => ?_⟩
    exact (renewInteraction_serials s id attention s.records [] h (Nat.lt_succ_of_lt hb)).congr rfl rfl
  have hclass : ∀ u : State, Allocates u (if name = .wmClass ∨ name = .wmNormalHints then u.changeAll id else u) := by
    intro u
    split
    · exact changeAll_allocates u id
    · exact .refl u
  have hdirty : ∀ u : State, Allocates u { u with dirty := true } := fun u => .of_records rfl rfl rfl
  unfold propertyChanged
  split
  · exact (hrenew.trans (hclass _)).trans (hdirty _)
  · exact (hclass s).trans (hdirty _)

theorem setProperty_allocates (id : Nat) (name : Name) (value : Option Property) (early : Bool) :
    Allocates s (s.setProperty id name value early) := by
  have hstore : Allocates s (s.storeProperty id name value) := .of_records rfl rfl rfl
  exact hstore.trans (propertyChanged_allocates _ id name _)

theorem publishWindow_allocates (w : Window) (calloc : Bool) : Allocates s (s.publishWindow w calloc) := by
  have hrecord := recordFor_allocates s w calloc
  unfold publishWindow
  rcases hr : s.recordFor w calloc with ⟨_ | r, u⟩ <;> rw [hr] at hrecord
  · exact hrecord
  · dsimp only
    have hupdate : ∀ f : WindowRecord → WindowRecord, (∀ r, (f r).serials = r.serials) → Allocates s (u.update w.id f) := by
      intro f hf
      refine hrecord.trans (.of_sublist rfl rfl ?_)
      have hheld : heldSerials (u.update w.id f).records = heldSerials u.records := heldSerials_updateLive hf w.id u.records
      rw [hheld]
    have hsent : ∀ (v : State) (sent : List Sent), Allocates v { v with sent := sent } := fun v sent => .of_records rfl rfl rfl
    split
    · exact (hupdate (fun r => { u.observed r w with seen := true, published := true, changed := false })
        fun r => rfl).trans (hsent _ _)
    · exact hupdate _ fun r => rfl

theorem walk_allocates (calloc : Nat → Bool) : Allocates s (s.walk calloc) := by
  unfold State.walk
  generalize s.windows = ws
  induction ws generalizing s with
  | nil => exact .refl s
  | cons w ws ih => exact (publishWindow_allocates s w (calloc w.number)).trans (ih _)

theorem refresh_allocates (calloc : Nat → Bool) : Allocates s (s.lorieWindowModelRefresh calloc) := by
  have hfilter : ∀ (u : State) (p : WindowRecord → Bool) (sent : List Sent),
      Allocates u { u with sent := sent, records := u.records.filter p } := fun u p sent =>
    .of_sublist rfl rfl (List.Sublist.flatMap List.filter_sublist serials)
  have hunseen : ∀ u : State, Allocates u { u with records := u.records.map fun r => { r with seen := false } } := fun u =>
    map_allocates u (f := fun r => { r with seen := false }) (fun r => rfl) rfl rfl rfl
  unfold lorieWindowModelRefresh
  split
  · exact .refl s
  · have hstart : Allocates s { s with dirty := false, failed := false } := .of_records rfl rfl rfl
    exact ((((hstart.trans (hfilter _ _ _)).trans (hunseen _)).trans (walk_allocates _ calloc)).trans (hfilter _ _ _)).trans
      (.of_records rfl rfl rfl)

end Operations

theorem Change.allocates {s t : State} (h : Change s t) : Allocates s t := by
  cases h with
  | record w calloc _ => exact recordFor_allocates s w calloc
  | renew id f hf => exact changeSerial_allocates s id hf
  | change id f hf => exact change_allocates s id hf
  | property id name value _ => exact setProperty_allocates s id name (some value) false
  | gesture window direction => exact .of_records rfl rfl rfl
  | request => exact .of_records rfl rfl rfl

theorem Changes.allocates {s t : State} (h : Changes s t) : Allocates s t := by
  induction h with
  | refl => exact .refl s
  | tail _ hc ih => exact ih.trans (Change.allocates hc)

theorem managerChanged_allocates (s : State) (destroyed : Bool) : Allocates s (s.managerChanged destroyed) := by
  unfold managerChanged
  cases s.managerWindow with
  | none => exact .refl s
  | some old =>
    have hchanged : ∀ u : State, Allocates u
        { u with records := u.records.map fun r => { r with changed := true }, dirty := true } := fun u =>
      map_allocates u (f := fun r => { r with changed := true }) (fun r => rfl) rfl rfl rfl
    have hlost : Allocates s { s with managerWindow := none } := .of_records rfl rfl rfl
    cases destroyed with
    | true => exact hlost.trans (hchanged _)
    | false => exact (hlost.trans (onDestroy_allocates _ old)).trans (hchanged _)

/-- **Every step** keeps the serials in order. -/
theorem step_allocates {s t : State} {a : Action} (hs : step s a = some t) : Allocates s t := by
  cases a with
  | createWindow id parent place inputOutput overrideRedirect x y width height =>
    obtain ⟨-, h⟩ := Option.ite_none_right_eq_some.1 hs
    cases h
    exact .of_records rfl rfl rfl
  | destroyWindow id =>
    obtain ⟨-, h⟩ := Option.ite_none_right_eq_some.1 hs
    cases h
    exact onDestroy_allocates s id
  | realize id | unrealize id | restack id place | tick milliseconds =>
    cases hs
    exact .of_records rfl rfl rfl
  | position id parent x y width height =>
    cases hs
    have hhook : ∀ f, Allocates s (s.hook id f) := fun f => .of_records rfl rfl rfl
    exact (hhook _).trans (changeAll_allocates _ id)
  | changeProperty id name value early =>
    obtain ⟨-, h⟩ := Option.ite_none_right_eq_some.1 hs
    cases h
    exact setProperty_allocates s id name value early
  | sendEvent m calloc gesture =>
    cases hs
    exact Changes.allocates (sendEvent_changes m calloc gesture)
  | managerChanged destroyed =>
    cases hs
    exact managerChanged_allocates s destroyed
  | fullscreenConfirm id serial fullscreen env =>
    cases hs
    exact Changes.allocates (confirm_changes id serial fullscreen 0 env).1
  | maximizedConfirm id serial axes env =>
    cases hs
    exact Changes.allocates (confirm_changes id serial false axes env).2.1
  | interactionConfirm id serial flags env =>
    cases hs
    exact Changes.allocates (confirm_changes id serial false flags env).2.2
  | userInput window =>
    cases hs
    unfold lorieWindowUserInput
    split
    · exact .refl s
    · exact .of_records rfl rfl rfl
  | refresh calloc =>
    cases hs
    exact refresh_allocates s calloc
  | observe | reset =>
    cases hs
    exact map_allocates s (f := fun r => { r with published := false }) (fun r => rfl) rfl rfl rfl
  | clientArrives slot | clientExits slot =>
    obtain ⟨-, h⟩ := Option.ite_none_right_eq_some.1 hs
    cases h
    exact .of_records rfl rfl rfl

/-! ## Old serials -/

/-- The window, the serial and the kind of serial of a confirmation -/
def confirmation : Action → Option (Nat × Nat × (WindowRecord → Nat))
  | .fullscreenConfirm window serial _ _ => some (window, serial, fun r => r.fullscreen.serial)
  | .maximizedConfirm window serial _ _ => some (window, serial, fun r => r.maximized.serial)
  | .interactionConfirm window serial _ _ => some (window, serial, fun r => r.interaction.serial)
  | _ => none

/-- The action confirms a serial that was issued, and that the record of the window does not hold as this kind of serial. -/
def Stale (s : State) (a : Action) : Prop :=
  ∃ id serial kind, confirmation a = some (id, serial, kind) ∧ serial ∈ s.issued ∧
    ∀ r ∈ s.records, live id r = true → kind r ≠ serial

/-- No record and no property changes; a record may be made. -/
structure Unchanged (s t : State) : Prop where
  records : ∃ new, t.records = new ++ s.records
  windows : t.windows = s.windows
  root : t.root = s.root

/-- What a confirmation finds, if its serial is old. -/
theorem confirmed_stale {s u : State} {id serial : Nat} {kind : WindowRecord → Nat} {env : Env} {w : Window}
    {r : WindowRecord} (h : Serials s (heldSerials s.records)) (hserial : serial ∈ s.issued)
    (hkind : ∀ r : WindowRecord, kind r ∈ r.serials) (hstale : ∀ r ∈ s.records, live id r = true → kind r ≠ serial)
    (hu : s.confirmed id env = (some (w, r), u)) (hb : u.issued.length < 4294967295) : kind r ≠ serial := by
  obtain ⟨hw, hr⟩ := confirmed_some hu
  have hspec := recordFor_spec s w env.record
  rw [hr] at hspec
  cases hspec with
  | found _ _ hfind =>
    have hlive := List.find?_some hfind
    rw [(lookup_some hw).1] at hlive
    exact hstale r (List.mem_of_find?_eq_some hfind) hlive
  | new _ _ _ =>
    intro heq
    exact newRecord_fresh s h (Nat.lt_succ_of_lt hb) _ (hkind _) (heq ▸ hserial)

/-- A confirmation looks for the record of its window and changes nothing else first. -/
theorem confirmed_unchanged (s : State) (id : Nat) (env : Env) : Unchanged s (s.confirmed id env).2 := by
  have hsame : Unchanged s s := ⟨⟨[], rfl⟩, rfl, rfl⟩
  unfold confirmed
  split
  · exact hsame
  · split
    · exact hsame
    · rename_i w hw
      have hrecord : Unchanged s (s.recordFor w env.record).2 := by
        have hspec := recordFor_spec s w env.record
        generalize s.recordFor w env.record = x at hspec
        cases hspec with
        | other _ | hidden _ _ | found _ _ _ => exact hsame
        | failed _ _ _ _ => exact ⟨⟨[], rfl⟩, rfl, rfl⟩
        | new _ _ _ => exact ⟨⟨[_], rfl⟩, rfl, rfl⟩
      split
      · rename_i u hu
        rw [hu] at hrecord
        exact hrecord
      · rename_i r u hu
        rw [hu] at hrecord
        exact hrecord

section Confirm

variable {s : State} {window serial : Nat} {env : Env}

theorem fullscreenConfirm_stale {fullscreen : Bool}
    (h : ∀ w r u, s.confirmed window env = (some (w, r), u) → r.fullscreen.serial ≠ serial) :
    s.lorieWindowFullscreenConfirm window serial fullscreen env = (s.confirmed window env).2 := by
  unfold lorieWindowFullscreenConfirm
  rcases hu : s.confirmed window env with ⟨_ | ⟨w, r⟩, u⟩
  · rfl
  · exact if_pos (.inl (h w r u hu).symm)

theorem maximizedConfirm_stale {axes : BitVec 32} (haxes : axes &&& ~~~3 = 0)
    (h : ∀ w r u, s.confirmed window env = (some (w, r), u) → r.maximized.serial ≠ serial) :
    s.lorieWindowMaximizedConfirm window serial axes env = (s.confirmed window env).2 := by
  unfold lorieWindowMaximizedConfirm
  rw [if_neg (not_not_intro haxes)]
  rcases hu : s.confirmed window env with ⟨_ | ⟨w, r⟩, u⟩
  · rfl
  · exact if_pos (.inl (h w r u hu).symm)

theorem interactionConfirm_stale {flags : BitVec 32} (hflags : flags &&& ~~~7 = 0)
    (h : ∀ w r u, s.confirmed window env = (some (w, r), u) → r.interaction.serial ≠ serial) :
    s.lorieWindowInteractionConfirm window serial flags env = (s.confirmed window env).2 := by
  unfold lorieWindowInteractionConfirm
  rw [if_neg (not_not_intro hflags)]
  rcases hu : s.confirmed window env with ⟨_ | ⟨w, r⟩, u⟩
  · rfl
  · exact if_pos (.inl (h w r u hu))

end Confirm

/-- **An old serial** changes no record and no property. -/
theorem stale_confirmation {s t : State} {a : Action} (h : Serials s (heldSerials s.records)) (hstale : Stale s a)
    (hs : step s a = some t) (hb : t.issued.length < 4294967295) : Unchanged s t := by
  obtain ⟨window, serial, kind, hkind, hserial, hlive⟩ := hstale
  cases a with
  | fullscreenConfirm window serial fullscreen env =>
    cases hkind
    cases hs
    have hle := (Changes.allocates (fullscreenConfirm_changes (s := s) window serial fullscreen env)).issued
    have hold : ∀ w r u, s.confirmed window env = (some (w, r), u) → r.fullscreen.serial ≠ serial := by
      intro w r u hu
      rw [hu] at hle
      exact @confirmed_stale s u window serial (fun r => r.fullscreen.serial) env w r h hserial (fun r => .head _) hlive hu
        (Nat.lt_of_le_of_lt hle hb)
    rw [fullscreenConfirm_stale hold]
    exact confirmed_unchanged s window env
  | maximizedConfirm window serial axes env =>
    cases hkind
    cases hs
    by_cases haxes : axes &&& ~~~3 = 0
    · have hle := (Changes.allocates (maximizedConfirm_changes (s := s) window serial env haxes)).issued
      have hold : ∀ w r u, s.confirmed window env = (some (w, r), u) → r.maximized.serial ≠ serial := by
        intro w r u hu
        rw [hu] at hle
        exact @confirmed_stale s u window serial (fun r => r.maximized.serial) env w r h hserial
          (fun r => .tail _ (.head _)) hlive hu
          (Nat.lt_of_le_of_lt hle hb)
      rw [maximizedConfirm_stale haxes hold]
      exact confirmed_unchanged s window env
    · have hnone : s.lorieWindowMaximizedConfirm window serial axes env = s := if_pos haxes
      rw [hnone]
      exact ⟨⟨[], rfl⟩, rfl, rfl⟩
  | interactionConfirm window serial flags env =>
    cases hkind
    cases hs
    by_cases hflags : flags &&& ~~~7 = 0
    · have hle := (Changes.allocates (interactionConfirm_changes (s := s) window serial env hflags)).issued
      have hold : ∀ w r u, s.confirmed window env = (some (w, r), u) → r.interaction.serial ≠ serial := by
        intro w r u hu
        rw [hu] at hle
        exact @confirmed_stale s u window serial (fun r => r.interaction.serial) env w r h hserial
          (fun r => .tail _ (.tail _ (.head _))) hlive hu (Nat.lt_of_le_of_lt hle hb)
      rw [interactionConfirm_stale hflags hold]
      exact confirmed_unchanged s window env
    · have hnone : s.lorieWindowInteractionConfirm window serial flags env = s := if_pos hflags
      rw [hnone]
      exact ⟨⟨[], rfl⟩, rfl, rfl⟩
  | _ => cases hkind

/-! ## Runs -/

/-- The serials of the records of existing windows -/
def liveSerials (s : State) : List Nat := heldSerials (s.records.filter fun r => !r.destroyed)

theorem reach_serials {atom : Name → Nat} {root : Window} {manager : Option Nat} {s : State}
    (h : Reach step Free (State.init atom root manager) s) (hb : s.issued.length < 4294967295) :
    Serials s (heldSerials s.records) := by
  have hinit : Serials (State.init atom root manager) (heldSerials (State.init atom root manager).records) :=
    ⟨rfl, fun n hn => absurd hn List.not_mem_nil, .nil⟩
  have hrun : Allocates (State.init atom root manager) s :=
    Reach.rel (I := fun _ => True) Allocates.refl (fun _ _ _ => Allocates.trans) trivial (fun _ _ _ _ _ _ => trivial)
      (fun _ _ _ _ _ hs => step_allocates hs) h
  exact hrun.serials hb hinit

/-- **Stale confirmations have no effect.** As long as fewer than `2 ^ 32 - 1` serials were issued, the serials of the windows
are not zero and differ, and a confirmation of a serial that is not the current one changes no record and no property. -/
theorem serials_distinct {atom : Name → Nat} {root : Window} {manager : Option Nat} {s : State}
    (h : Reach step Free (State.init atom root manager) s) (hb : s.issued.length < 4294967295) :
    ((liveSerials s).Nodup ∧ ∀ n ∈ liveSerials s, n ≠ 0) ∧
      ∀ a t, Stale s a → step s a = some t → t.issued.length < 4294967295 → Unchanged s t := by
  have hserials := reach_serials h hb
  have hlive := hserials.sublist (List.Sublist.flatMap (List.filter_sublist (p := fun r => !r.destroyed)) serials)
  refine ⟨⟨hlive.issued.nodup, fun n hn => ?_⟩, fun a t hstale hs hbt => stale_confirmation hserials hstale hs hbt⟩
  exact Nat.pos_iff_ne_zero.1 (hlive.range n (hlive.issued.mem n hn)).1

/-- A window is destroyed and another one gets its number; each had a record. -/
def reusedRun : List Action :=
  ([.observe, .clientArrives 1] : List Action) ++ appears 2097153 1 ++
    ([.refresh fun _ => true, .destroyWindow 2097153] : List Action) ++ appears 2097153 1 ++
    ([.refresh fun _ => true] : List Action)

theorem serials_distinct_reused :
    ∃ s, exec step (State.init Name.ctorIdx (rootRecord 1 800 600) (some 2)) reusedRun = some s ∧
      liveSerials s = [4, 5, 6] ∧ (liveSerials s).Nodup ∧
      ∀ t, step s (.fullscreenConfirm 2097153 1 true ⟨true, true, fun _ => true⟩) = some t →
        t.issued.length < 4294967295 → Unchanged s t := by
  have hrun : (exec step (State.init Name.ctorIdx (rootRecord 1 800 600) (some 2)) reusedRun).map
      (fun s => decide (liveSerials s = [4, 5, 6] ∧ s.issued = [6, 5, 4, 3, 2, 1] ∧
        ∀ r ∈ s.records, live 2097153 r = true → r.fullscreen.serial ≠ 1)) = some true := by
    decide +kernel
  obtain ⟨s, hs, hdecide⟩ := Option.map_eq_some_iff.1 hrun
  obtain ⟨hlive, hissued, hserial⟩ := of_decide_eq_true hdecide
  have hb : s.issued.length < 4294967295 := by
    rw [hissued]
    decide
  obtain ⟨⟨hnodup, -⟩, hold⟩ := serials_distinct (Reach.of_exec reusedRun hs) hb
  refine ⟨s, hs, hlive, hnodup, fun t ht hbt => hold _ t ⟨2097153, 1, _, rfl, ?_, hserial⟩ ht hbt⟩
  rw [hissued]
  decide

end Lorie.Windows
