import Lorie.Lib.Transition
import Lorie.Windows.Changes

/-!
# Activation

A client may ask for the activation of a window after the host delivered input to one of its windows. The model remembers the
number of that window and the time of the input, and compares the clients when it is asked.

- `Justified`: the input that a request may rely on;
- `Genuine`: the number still names a window of the client that had the input, and the clock has not come round since;
- `activation_justified`: then an activation is justified;
- `activation_of_reused`: another client, which got the slot and took the number, is activated without any input.
-/

namespace Lorie.Windows

open Lorie.Lib State

/-! ## Requests and what they rely on -/

/-- Something was asked for, after an input. -/
def Entry.isRequest : Entry → Bool
  | .input _ _ => false
  | .request _ => true

/-- The message asks for the activation of `w`, which has a record, and the record says so afterwards. -/
structure Activated (s : State) (m : Message) (calloc : Bool) (t : State) (w : Window) : Prop where
  manager : s.managerWindow ≠ none
  toRoot : m.toRoot = true
  type : m.type = s.atom .netActiveWindow
  lookup : s.lookup m.window = some w
  record : (s.recordFor w calloc).1.isSome = true
  action : (t.records.find? (live w.id)).map (fun r => r.interaction.action) = some .activate

/-- The client of `w` had input in the last ten seconds, and no activation was asked for since. -/
def Justified (s : State) (w : Window) : Prop :=
  ∃ client past time between, s.wClient w = some client ∧ s.log = past ++ .input time (some client) :: between ∧
    (∀ e ∈ between, e.isRequest = false) ∧ time ≤ s.clock ∧ s.clock - time ≤ 10000

/-- A message that `sendEvent` takes as a request to activate a window, with a time -/
def asksActivation (s : State) (m : Message) (calloc : Bool) : Bool :=
  s.managerWindow.isSome && m.toRoot && m.type = s.atom .netActiveWindow && m.longs1 ≠ 0 &&
    (s.lookup m.window).any fun w => (s.recordFor w calloc).1.isSome

/-- What the last input says about its window and its time is still right when an activation is asked for. -/
def genuine (s : State) : Action → Bool
  | .sendEvent m calloc _ =>
    !asksActivation s m calloc ||
      match s.log.getLast? with
      | some (.input time owner) =>
        (s.lookup s.lastInputWindow).all (fun w => s.wClient w = owner) &&
          (10000 < (s.clock - time) % 4294967296 || s.clock - time ≤ 10000)
      | _ => true
  | _ => true

/-- `genuine` as a condition on the steps of a run -/
def Genuine (s : State) (a : Action) : Prop := genuine s a = true

instance (s : State) (a : Action) : Decidable (Genuine s a) := inferInstanceAs (Decidable (genuine s a = true))

/-! ## The remembered input -/

/-- The remembered time is the time of the last entry, unless it was used; every window with contents has a client. -/
structure Remembers (s : State) : Prop where
  last : s.lastInputTime ≠ 0 → ∃ past time owner, s.log = past ++ [.input time owner] ∧
    s.lastInputTime = time % 4294967296 ∧ time ≤ s.clock
  owned : ∀ w ∈ s.windows, w.inputOutput = true → (s.clients (slot w.id)).isSome = true

namespace Remembers

variable {s t : State}

/-- The input is the same, and so are the clients of the windows. -/
theorem congr (h : Remembers s) (htime : t.lastInputTime = s.lastInputTime) (hlog : t.log = s.log) (hclock : s.clock ≤ t.clock)
    (hclients : t.clients = s.clients)
    (hwindows : ∀ w ∈ t.windows, ∃ w' ∈ s.windows, w'.id = w.id ∧ w'.inputOutput = w.inputOutput) : Remembers t := by
  refine ⟨fun hne => ?_, fun w hw hio => ?_⟩
  · rw [htime] at hne ⊢
    obtain ⟨past, time, owner, hpast, heq, hle⟩ := h.last hne
    exact ⟨past, time, owner, hlog.trans hpast, heq, Nat.le_trans hle hclock⟩
  · obtain ⟨w', hw', hid, hio'⟩ := hwindows w hw
    rw [hclients, ← hid]
    exact h.owned w' hw' (hio'.trans hio)

theorem of_windows (h : Remembers s) (htime : t.lastInputTime = s.lastInputTime) (hlog : t.log = s.log)
    (hclock : t.clock = s.clock) (hclients : t.clients = s.clients) (hwindows : t.windows = s.windows) : Remembers t := by
  refine h.congr htime hlog (Nat.le_of_eq hclock.symm) hclients fun w hw => ⟨w, ?_, rfl, rfl⟩
  rw [← hwindows]
  exact hw

theorem recordFor (h : Remembers s) (w : Window) (calloc : Bool) : Remembers (s.recordFor w calloc).2 := by
  have hspec := recordFor_spec s w calloc
  generalize s.recordFor w calloc = x at hspec
  cases hspec with
  | other _ | hidden _ _ | found _ _ _ => exact h
  | failed _ _ _ _ | new _ _ _ => exact h.of_windows rfl rfl rfl rfl rfl

theorem setProperty (h : Remembers s) (id : Nat) (name : Name) (value : Option Property) (early : Bool) :
    Remembers (s.setProperty id name value early) := by
  obtain ⟨serial, issued, records, heq⟩ := setProperty_state s id name value early
  rw [heq]
  refine h.congr rfl rfl (Nat.le_refl _) rfl fun w hw => ?_
  obtain ⟨w', hw', rfl⟩ := List.mem_map.1 hw
  refine ⟨w', hw', ?_, ?_⟩
  · unfold store
    split <;> rfl
  · unfold store
    split <;> rfl

/-- The remembered input is used. -/
theorem request (h : Remembers s) (log : List Entry) : Remembers { s with lastInputTime := 0, log := log } :=
  ⟨fun hne => absurd rfl hne, h.owned⟩

theorem change (h : Remembers s) (hc : Change s t) : Remembers t := by
  cases hc with
  | record w calloc _ => exact h.recordFor w calloc
  | renew id f _ => exact h.of_windows rfl rfl rfl rfl rfl
  | change id f _ => exact h.of_windows rfl rfl rfl rfl rfl
  | property id name value _ => exact h.setProperty id name (some value) false
  | gesture window direction => exact h.of_windows rfl rfl rfl rfl rfl
  | request => exact h.request _

theorem changes (h : Remembers s) (hc : Changes s t) : Remembers t := by
  induction hc with
  | refl => exact h
  | tail _ hc ih => exact ih.change hc

/-- Windows change, but not which windows there are. -/
theorem hook (h : Remembers s) (id : Nat) {f : Window → Window} (hid : ∀ w, (f w).id = w.id)
    (hio : ∀ w, (f w).inputOutput = w.inputOutput) : Remembers (s.hook id f) := by
  refine h.congr rfl rfl (Nat.le_refl _) rfl fun w hw => ?_
  obtain ⟨w', hw', rfl⟩ := List.mem_map.1 hw
  refine ⟨w', hw', ?_, ?_⟩
  · split
    · exact (hid w').symm
    · rfl
  · split
    · exact (hio w').symm
    · rfl

theorem onDestroy (h : Remembers s) (id : Nat) : Remembers (s.onDestroy id) :=
  h.congr rfl rfl (Nat.le_refl _) rfl fun w hw => ⟨w, (List.mem_filter.1 hw).1, rfl, rfl⟩

theorem managerChanged (h : Remembers s) (destroyed : Bool) : Remembers (s.managerChanged destroyed) := by
  unfold State.managerChanged
  cases s.managerWindow with
  | none => exact h
  | some old =>
    have hlost : Remembers { s with managerWindow := none } := h.of_windows rfl rfl rfl rfl rfl
    cases destroyed with
    | true => exact hlost.of_windows rfl rfl rfl rfl rfl
    | false => exact (hlost.onDestroy old).of_windows rfl rfl rfl rfl rfl

theorem publishWindow (h : Remembers s) (w : Window) (calloc : Bool) : Remembers (s.publishWindow w calloc) := by
  have hrecord := h.recordFor w calloc
  unfold State.publishWindow
  rcases hr : s.recordFor w calloc with ⟨_ | r, u⟩ <;> rw [hr] at hrecord
  · exact hrecord
  · dsimp only
    split
    · exact hrecord.of_windows rfl rfl rfl rfl rfl
    · exact hrecord.of_windows rfl rfl rfl rfl rfl

theorem walk (h : Remembers s) (calloc : Nat → Bool) : Remembers (s.walk calloc) := by
  unfold State.walk
  generalize s.windows = ws
  induction ws generalizing s with
  | nil => exact h
  | cons w ws ih => exact ih (h.publishWindow w (calloc w.number))

theorem refresh (h : Remembers s) (calloc : Nat → Bool) : Remembers (s.lorieWindowModelRefresh calloc) := by
  unfold lorieWindowModelRefresh
  split
  · exact h
  · have hwalk := walk (s := { ({ s with dirty := false, failed := false } : State).removeDestroyed with
      records := (({ s with dirty := false, failed := false } : State).removeDestroyed).records.map fun r =>
        { r with seen := false } }) (h.of_windows rfl rfl rfl rfl rfl) calloc
    exact hwalk.of_windows rfl rfl rfl rfl rfl

/-- **Every step** keeps the remembered input. -/
theorem step (h : Remembers s) {a : Action} (hs : Windows.step s a = some t) : Remembers t := by
  cases a with
  | createWindow id parent place inputOutput overrideRedirect x y width height =>
    obtain ⟨⟨-, -, -, hclient⟩, heq⟩ := Option.ite_none_right_eq_some.1 hs
    cases heq
    refine ⟨h.last, fun w hw hio => ?_⟩
    rcases List.mem_append.1 hw with hw | hw
    · exact h.owned w (List.mem_of_mem_take hw) hio
    · rcases List.mem_cons.1 hw with rfl | hw
      · exact hclient
      · exact h.owned w (List.mem_of_mem_drop hw) hio
  | destroyWindow id =>
    obtain ⟨-, heq⟩ := Option.ite_none_right_eq_some.1 hs
    cases heq
    exact h.onDestroy id
  | realize id | unrealize id =>
    cases hs
    exact h.hook id (fun _ => rfl) (fun _ => rfl)
  | position id parent x y width height =>
    cases hs
    have hhook := h.hook id (f := fun w => { w with parent := parent, x := x, y := y, width := width, height := height })
      (fun _ => rfl) (fun _ => rfl)
    exact hhook.of_windows rfl rfl rfl rfl rfl
  | restack id place =>
    cases hs
    refine h.congr rfl rfl (Nat.le_refl _) rfl fun w hw => ⟨w, ?_, rfl, rfl⟩
    rcases List.mem_append.1 hw with hw | hw
    · rcases List.mem_append.1 hw with hw | hw
      · exact (List.mem_filter.1 (List.mem_of_mem_take hw)).1
      · exact (List.mem_filter.1 hw).1
    · exact (List.mem_filter.1 (List.mem_of_mem_drop hw)).1
  | changeProperty id name value early =>
    obtain ⟨-, heq⟩ := Option.ite_none_right_eq_some.1 hs
    cases heq
    exact h.setProperty id name value early
  | sendEvent m calloc gesture =>
    cases hs
    exact h.changes (sendEvent_changes m calloc gesture)
  | managerChanged destroyed =>
    cases hs
    exact h.managerChanged destroyed
  | fullscreenConfirm id serial fullscreen env =>
    cases hs
    exact h.changes (confirm_changes id serial fullscreen 0 env).1
  | maximizedConfirm id serial axes env =>
    cases hs
    exact h.changes (confirm_changes id serial false axes env).2.1
  | interactionConfirm id serial flags env =>
    cases hs
    exact h.changes (confirm_changes id serial false flags env).2.2
  | userInput window =>
    cases hs
    unfold lorieWindowUserInput
    split
    · exact h
    · exact ⟨fun _ => ⟨s.log, s.clock, _, rfl, rfl, Nat.le_refl _⟩, h.owned⟩
  | refresh calloc =>
    cases hs
    exact h.refresh calloc
  | observe | reset =>
    cases hs
    exact h.of_windows rfl rfl rfl rfl rfl
  | clientArrives new =>
    obtain ⟨hfree, heq⟩ := Option.ite_none_right_eq_some.1 hs
    cases heq
    refine ⟨h.last, fun w hw hio => ?_⟩
    have hclient := h.owned w hw hio
    by_cases hslot : slot w.id = new
    · rw [hslot, hfree] at hclient
      cases hclient
    · have hsame : Function.update s.clients new (some s.created) (slot w.id) = s.clients (slot w.id) :=
        Function.update_of_ne hslot _ _
      exact (congrArg Option.isSome hsame).trans hclient
  | clientExits old =>
    obtain ⟨⟨-, hgone⟩, heq⟩ := Option.ite_none_right_eq_some.1 hs
    cases heq
    refine ⟨h.last, fun w hw hio => ?_⟩
    have hsame : Function.update s.clients old none (slot w.id) = s.clients (slot w.id) :=
      Function.update_of_ne (hgone w hw) _ _
    exact (congrArg Option.isSome hsame).trans (h.owned w hw hio)
  | tick milliseconds =>
    cases hs
    exact h.congr rfl rfl (Nat.le_add_right _ _) rfl fun w hw => ⟨w, hw, rfl, rfl⟩

theorem init (atom : Name → Nat) (root : Window) (manager : Option Nat) : Remembers (State.init atom root manager) := by
  refine ⟨fun hne => absurd rfl hne, fun w hw hio => ?_⟩
  obtain ⟨id, -, rfl⟩ := List.mem_map.1 hw
  cases hio

end Remembers

/-! ## Activations -/

/-- What `activate` makes of the record of the window. -/
theorem activate_action (s : State) {w : Window} {r : WindowRecord} (hfind : s.records.find? (live w.id) = some r)
    (requested : Nat) :
    ((s.activate w r requested).records.find? (live w.id)).map (fun r => r.interaction.action) =
      some (if s.activationAllowed w requested then .activate else .none) := by
  have hrecords : (s.activate w r requested).records = updateLive w.id (fun r' =>
      { r' with
        interaction :=
          { r.interaction with
            action := if s.activationAllowed w requested then .activate else .none
            attention := r.interaction.attention || !s.activationAllowed w requested
            serial := next32 s.stateSerial }
        changed := true }) s.records := rfl
  rw [hrecords, find_updateLive, hfind]
  · rfl
  · exact fun _ => rfl

/-- An activated window belongs to the client of the window that had the last input, by the numbers and the 32-bit clock. -/
theorem Activated.allowed {s t : State} {m : Message} {calloc : Bool} {gesture : Nat → Nat → Bool} {w : Window}
    (ha : Activated s m calloc t w) (hs : step s (.sendEvent m calloc gesture) = some t) :
    s.isApplication w = true ∧ s.activationAllowed w m.longs1 = true := by
  cases hs
  have hrecord := ha.record
  have haction := ha.action
  have hspec := recordFor_spec s w calloc
  unfold sendEvent at haction
  rw [if_neg (by simp only [ha.manager, ha.toRoot, Bool.not_true, Bool.false_eq_true, or_self, not_false_eq_true]),
    ha.lookup] at haction
  dsimp only at haction
  rcases hr : s.recordFor w calloc with ⟨_ | r, u⟩
  · rw [hr] at hrecord
    cases hrecord
  · rw [hr] at haction hspec
    have hatom : u.atom = s.atom := by
      cases hspec with
      | found _ _ _ | new _ _ _ => rfl
    have hallowed : u.activationAllowed w m.longs1 = s.activationAllowed w m.longs1 := by
      cases hspec with
      | found _ _ _ | new _ _ _ => rfl
    have happ : s.isApplication w = true := by
      cases hspec with
      | found _ happ _ => exact happ
      | new happ _ _ => exact happ
    refine ⟨happ, ?_⟩
    have hrequest : u.request w r m gesture = u.activate w r m.longs1 := if_pos (by rw [ha.type, hatom])
    dsimp only at haction
    rw [hrequest, activate_action u (recordFor_find hr), hallowed] at haction
    by_contra hnot
    rw [if_neg hnot] at haction
    cases haction

/-- The request has a time, and the remembered time is at most ten seconds ago by the 32-bit clock. -/
theorem recent_of_timestamp {time clock requested : Nat} (hle : time ≤ clock)
    (h : lorieActivationTimestamp requested (time % 4294967296) (clock % 4294967296) = true) :
    requested ≠ 0 ∧ (clock - time) % 4294967296 ≤ 10000 := by
  simp only [lorieActivationTimestamp, Bool.and_eq_true, decide_eq_true_eq] at h
  obtain ⟨⟨⟨⟨hrequested, -⟩, -⟩, -⟩, hrecent⟩ := h
  exact ⟨hrequested, by omega⟩

/-- A message that got its window activated was taken as a request. -/
theorem Activated.asks {s t : State} {m : Message} {calloc : Bool} {w : Window} (ha : Activated s m calloc t w)
    (htime : m.longs1 ≠ 0) : asksActivation s m calloc = true := by
  have hmanager : s.managerWindow.isSome = true := Option.isSome_iff_ne_none.2 ha.manager
  simp [asksActivation, hmanager, ha.toRoot, ha.type, ha.lookup, ha.record, htime]

/-- **An activation is justified** in every run in which, whenever one is asked for, the number of the last input still names
a window of the client that had the input, and the 32-bit clock has not come round since. -/
theorem activation_justified {atom : Name → Nat} {root : Window} {manager : Option Nat} {s t : State} {m : Message}
    {calloc : Bool} {gesture : Nat → Nat → Bool} {w : Window} (h : Reach step Genuine (State.init atom root manager) s)
    (hg : Genuine s (.sendEvent m calloc gesture)) (hs : step s (.sendEvent m calloc gesture) = some t)
    (ha : Activated s m calloc t w) : Justified s w := by
  have hremembers : Remembers s := h.invariant (.init atom root manager) fun _ _ _ hr _ hs => hr.step hs
  obtain ⟨happ, hallowed⟩ := ha.allowed hs
  unfold activationAllowed at hallowed
  cases hinput : s.lookup s.lastInputWindow with
  | none =>
    rw [hinput] at hallowed
    cases hallowed
  | some input =>
    rw [hinput] at hallowed
    dsimp only at hallowed
    rw [Bool.and_eq_true, decide_eq_true_eq] at hallowed
    obtain ⟨hsame, htimestamp⟩ := hallowed
    have hne : s.lastInputTime ≠ 0 := by
      intro h0
      rw [h0] at htimestamp
      simp only [lorieActivationTimestamp, ne_eq, not_true_eq_false, decide_false, Bool.and_false, Bool.false_and,
        Bool.false_eq_true] at htimestamp
    obtain ⟨past, time, owner, hlog, htime, hle⟩ := hremembers.last hne
    rw [htime] at htimestamp
    obtain ⟨hrequested, hrecent⟩ := recent_of_timestamp hle htimestamp
    -- the condition: the owner of the input, and the real time
    have hgenuine : s.wClient input = owner ∧ s.clock - time ≤ 10000 := by
      have hlast : s.log.getLast? = some (.input time owner) := by
        rw [hlog, List.getLast?_append, List.getLast?_singleton, Option.some_or]
      have hg : genuine s (.sendEvent m calloc gesture) = true := hg
      simp only [genuine, ha.asks hrequested, hlast, hinput, Option.all_some, Bool.not_true, Bool.false_or, Bool.and_eq_true,
        Bool.or_eq_true, decide_eq_true_eq] at hg
      exact ⟨hg.1, hg.2.resolve_left (Nat.not_lt.2 hrecent)⟩
    obtain ⟨hroot, hio⟩ := isApplication_own happ
    have hmem : w ∈ s.windows := (lookup_some ha.lookup).2.resolve_left fun e => hroot (congrArg Window.id e)
    obtain ⟨client, hclient⟩ := Option.isSome_iff_exists.1 (hremembers.owned w hmem hio)
    have howner : owner = some client := (hgenuine.1.symm.trans hsame).trans hclient
    exact ⟨client, past, time, [], hclient, by rw [hlog, howner], fun e he => absurd he List.not_mem_nil, hle, hgenuine.2⟩

/-- A `_NET_ACTIVE_WINDOW` for the first window of the first slot -/
def asks (time : Nat) : Message := ⟨true, 2097153, Name.ctorIdx .netActiveWindow, 2, time, 0, 0⟩

/-- What is to be known of a state in which the window asks for its activation. -/
def asking (s : State) (time : Nat) (log : List Entry) (client : Nat) : Bool :=
  s.log = log && s.managerWindow.isSome && (asks time).type = s.atom .netActiveWindow && s.clock = 1500 &&
    (s.lookup 2097153).any (fun w => (s.recordFor w true).1.isSome && s.wClient w = some client) &&
    ((s.sendEvent (asks time) true fun _ _ => false).records.find? (live 2097153)).map (fun r => r.interaction.action) =
      some .activate

theorem activated_of_asking {s : State} {time client : Nat} {log : List Entry} (h : asking s time log client = true) :
    s.log = log ∧ ∃ w, Activated s (asks time) true (s.sendEvent (asks time) true fun _ _ => false) w ∧
      s.wClient w = some client := by
  simp only [asking, Bool.and_eq_true, decide_eq_true_eq] at h
  obtain ⟨⟨⟨⟨⟨hlog, hmanager⟩, htype⟩, -⟩, hany⟩, haction⟩ := h
  obtain ⟨w, hw, hrecord⟩ := (Option.any_eq_true _ _).1 hany
  rw [Bool.and_eq_true, decide_eq_true_eq] at hrecord
  have hid : w.id = 2097153 := (lookup_some hw).1
  refine ⟨hlog, w, ⟨?_, rfl, htype, hw, hrecord.1, hid ▸ haction⟩, hrecord.2⟩
  exact fun hnone => by rw [hnone] at hmanager; cases hmanager

/-- The client of the input exits, and the next client gets its slot and makes a window with the same number. -/
def slotReused : List Action :=
  ([.clientArrives 1] : List Action) ++ appears 2097153 1 ++
    ([.tick 1000, .userInput 2097153, .destroyWindow 2097153, .clientExits 1, .clientArrives 1] : List Action) ++
    appears 2097153 1 ++ ([.tick 500] : List Action)

/-- **Without the condition** a client that had no input is activated. -/
theorem activation_of_reused :
    ¬ ∀ (atom : Name → Nat) (root : Window) (manager : Option Nat) (s t : State) (m : Message) (calloc : Bool)
      (gesture : Nat → Nat → Bool) (w : Window), Reach step Free (State.init atom root manager) s →
      step s (.sendEvent m calloc gesture) = some t → Activated s m calloc t w → Justified s w := by
  intro hclaim
  have hrun : (exec step (State.init Name.ctorIdx (rootRecord 1 800 600) (some 2)) slotReused).map
      (fun s => asking s 1200 [.input 1000 (some 1)] 3) = some true := by
    decide +kernel
  obtain ⟨s, hs, hasking⟩ := Option.map_eq_some_iff.1 hrun
  obtain ⟨hlog, w, ha, hclient⟩ := activated_of_asking hasking
  obtain ⟨client, past, time, between, hw, heq, -⟩ := hclaim _ _ _ s _ _ true _ w (Reach.of_exec slotReused hs) rfl ha
  have hmem : Entry.input time (some client) ∈ s.log := by
    rw [heq]
    exact List.mem_append_right _ List.mem_cons_self
  rw [hlog, List.mem_singleton] at hmem
  cases hmem
  rw [hclient] at hw
  cases hw

/-- The client of the window with the input asks half a second later. -/
def ownInput : List Action :=
  ([.clientArrives 1] : List Action) ++ appears 2097153 1 ++
    ([.tick 1000, .userInput 2097153, .tick 500] : List Action)

theorem activation_justified_own :
    ∃ s w, Reach step Genuine (State.init Name.ctorIdx (rootRecord 1 800 600) (some 2)) s ∧
      Activated s (asks 1200) true (s.sendEvent (asks 1200) true fun _ _ => false) w ∧ Justified s w := by
  have hrun : (exec (fun s a => if Genuine s a then step s a else none)
      (State.init Name.ctorIdx (rootRecord 1 800 600) (some 2)) ownInput).map (fun s =>
        asking s 1200 [.input 1000 (some 1)] 1 && genuine s (.sendEvent (asks 1200) true fun _ _ => false)) = some true := by
    decide +kernel
  obtain ⟨s, hs, hfacts⟩ := Option.map_eq_some_iff.1 hrun
  rw [Bool.and_eq_true] at hfacts
  obtain ⟨-, w, ha, -⟩ := activated_of_asking hfacts.1
  have hreach := Reach.of_exec_guarded ownInput hs
  exact ⟨s, w, hreach, ha, activation_justified hreach hfacts.2 rfl ha⟩

end Lorie.Windows
