import Lorie.Lib.Pairing
import Lorie.Outputs.Publishing

/-!
# Redirections are balanced

What the cache of images asks of Composite over whole runs, in which windows are made, change and are destroyed, and their
XIDs are used again.

- `Sync`: an image is redirected exactly while a redirection of the window that has its id is pending;
- `imageFor_sync`, `prune_sync`: what the two operations on the cache keep;
- `redirections_balanced`: in every run.
-/

namespace Lorie.Outputs.Images

open Lorie.Lib Lorie.Windows

/-! ## Runs -/

structure Session where
  outputs : State
  desktop : Desktop
  /-- The number of the next window object -/
  created : Nat

inductive Action (R : Type) where
  | lorieOutputCommand (c : Leases.Command) (env : Leases.Env)
  /-- A window is made. -/
  | createWindow (e : Desktop) (w : Nat)
  /-- A window is destroyed, after `lorieOutputWindowDestroyed`. -/
  | destroyWindow (e : Desktop) (w : Nat)
  /-- Windows are mapped, moved, restacked or get other properties. -/
  | change (e : Desktop)
  /-- A window is drawn to. -/
  | damage (id : Nat)
  /-- The pixmap of an image is destroyed: `damageDestroyed`. -/
  | damageDestroyed (id : Nat)
  | loriePublishOutputs (v : Nat → Server R)
  | lorieResetOutputs

namespace State

variable (s : State)

/-- A loop over the images -/
def eachImage (f : WindowImage → WindowImage) : State :=
  { s with cache := { s.cache with images := s.cache.images.map f } }

/-- `lorieOutputCommand`; a new selection has new memory. -/
def lorieOutputCommand (c : Leases.Command) (env : Leases.Env) : State :=
  { s with
    leases := s.leases.lorieOutputCommand c env
    published :=
      match c.operation, env.calloc with
      | .bind, some o => Function.update s.published o .zero
      | _, _ => s.published }

/-- `lorieOutputWindowDestroyed` -/
def lorieOutputWindowDestroyed (id : Nat) : State :=
  { s with leases := s.leases.lorieOutputWindowDestroyed id }.eachImage fun i =>
    if i.window = id then { i with redirected := false } else i

/-- `damageDestroyed` -/
def damageDestroyed (id : Nat) : State :=
  s.eachImage fun i => if i.window = id then { i with pixmap := none, damage := none, changed := true } else i

/-- `lorieResetOutputs` -/
def lorieResetOutputs (d : Desktop) : State :=
  { s with leases := s.leases.lorieResetOutputs, cache := pruneImages d (unuse s.cache) }

end State

namespace Session

variable {R : Type}

def init (d : Desktop) : Session where
  outputs := ⟨.init, fun _ => .zero, ⟨[], []⟩, []⟩
  desktop := d
  created := 0

/-- The windows of a changed desktop are the objects that they were. -/
def SameObjects (d e : Desktop) : Prop := ∀ w ∈ e.lastChild.windows, w ∈ d.lastChild.windows →
  (e.heap w).number = (d.heap w).number

instance (d e : Desktop) : Decidable (SameObjects d e) :=
  inferInstanceAs (Decidable (∀ w ∈ e.lastChild.windows, _ → _ = _))

def step (s : Session) : Action R → Option Session
  | .lorieOutputCommand c env =>
    if ∀ o ∈ env.calloc, o ∉ s.outputs.leases.selections then
      some { s with outputs := s.outputs.lorieOutputCommand c env }
    else none
  | .createWindow e w =>
    if e.root = s.desktop.root ∧ e.lastChild.windows.Perm (w :: s.desktop.lastChild.windows) ∧
        SameObjects s.desktop e ∧ (e.heap w).number = s.created then
      some { s with desktop := e, created := s.created + 1 }
    else none
  | .destroyWindow e w =>
    if w ∈ s.desktop.lastChild.windows ∧ e.root = s.desktop.root ∧
        e.lastChild.windows.Perm (s.desktop.lastChild.windows.erase w) ∧ SameObjects s.desktop e then
      some { s with outputs := s.outputs.lorieOutputWindowDestroyed w, desktop := e }
    else none
  | .change e =>
    if e.root = s.desktop.root ∧ e.lastChild.windows.Perm s.desktop.lastChild.windows ∧ SameObjects s.desktop e then
      some { s with desktop := e }
    else none
  | .damage id =>
    some { s with outputs := s.outputs.eachImage fun i =>
      if i.window = id then { i with damage := i.damage.map fun _ => true } else i }
  | .damageDestroyed id => some { s with outputs := s.outputs.damageDestroyed id }
  | .loriePublishOutputs v => (s.outputs.loriePublishOutputs s.desktop v).map fun t => { s with outputs := t }
  | .lorieResetOutputs => some { s with outputs := s.outputs.lorieResetOutputs s.desktop }

end Session

/-! ## The cache -/

/-- A redirection of a window object is pending. -/
def Redirected (calls : List Call) (number : Nat) : Prop := pending (.redirect number true) (.unredirect number) calls

/-- Window objects have numbers of their own, which were given out. -/
structure Numbered (d : Desktop) (created : Nat) : Prop where
  inj : ∀ w ∈ d.lastChild.windows, ∀ w' ∈ d.lastChild.windows, (d.heap w).number = (d.heap w').number → w = w'
  lt : ∀ w ∈ d.lastChild.windows, (d.heap w).number < created

/-- The images against the calls into Composite -/
structure Sync (d : Desktop) (created : Nat) (cache : Cache) : Prop where
  ids : (cache.images.map (·.window)).Nodup
  paired : ∀ n, Paired (.redirect n true) (.unredirect n) cache.calls
  fresh : ∀ n, created ≤ n → ¬Redirected cache.calls n
  stale : ∀ i ∈ cache.images, i.redirected = true → i.window ∈ d.lastChild.windows
  redirected : ∀ w ∈ d.lastChild.windows, Redirected cache.calls (d.heap w).number ↔
    ∃ i ∈ cache.images, i.window = w ∧ i.redirected = true

section Images

variable {images : List WindowImage} {id : Nat} {f : WindowImage → WindowImage} {i j : WindowImage}

/-- Images with the same id are the same. -/
theorem image_unique (hn : (images.map (·.window)).Nodup) (hi : i ∈ images) (hj : j ∈ images)
    (h : i.window = j.window) : i = j :=
  List.inj_on_of_nodup_map hn hi hj h

theorem mem_modify_iff (hn : (images.map (·.window)).Nodup) (hj : findImage id images = some j) :
    i ∈ modifyImage id f images ↔ i = f j ∨ (i ∈ images ∧ i.window ≠ id) := by
  induction images with
  | nil => cases hj
  | cons k images ih =>
    obtain ⟨hk, hn⟩ := List.nodup_cons.1 hn
    rw [findImage_cons] at hj
    rw [modifyImage]
    split at hj
    · rename_i heq
      cases hj
      rw [if_pos heq, List.mem_cons, List.mem_cons]
      have hne : ∀ l ∈ images, l.window ≠ id := fun l hl he => hk (List.mem_map.2 ⟨l, hl, he.trans heq.symm⟩)
      constructor
      · rintro (h | h)
        · exact .inl h
        · exact .inr ⟨.inr h, hne i h⟩
      · rintro (h | ⟨rfl | h, hw⟩)
        · exact .inl h
        · exact absurd heq hw
        · exact .inr h
    · rename_i heq
      rw [if_neg heq, List.mem_cons, List.mem_cons, ih hn hj]
      constructor
      · rintro (rfl | h | ⟨h, hw⟩)
        · exact .inr ⟨.inl rfl, heq⟩
        · exact .inl h
        · exact .inr ⟨.inr h, hw⟩
      · rintro (h | ⟨rfl | h, hw⟩)
        · exact .inr (.inl h)
        · exact .inl rfl
        · exact .inr (.inr ⟨h, hw⟩)

theorem map_window_modify (hf : ∀ i, (f i).window = i.window) :
    (modifyImage id f images).map (·.window) = images.map (·.window) := by
  induction images with
  | nil => rfl
  | cons k images ih =>
    rw [modifyImage]
    split
    · rw [List.map_cons, List.map_cons, hf]
    · rw [List.map_cons, List.map_cons, ih]

theorem findImage_none (h : findImage id images = none) : id ∉ images.map (·.window) := by
  intro hmem
  obtain ⟨i, hi, hw⟩ := List.mem_map.1 hmem
  have hno := List.find?_eq_none.1 h i hi
  exact hno (decide_eq_true hw)

end Images

section Cache

variable {R : Type} {d : Desktop} {v : Server R} {created : Nat} {cache : Cache} {w : Nat} {i : WindowImage}

/-- A window's pending redirection is that of its image. -/
theorem Sync.redirected_iff (h : Sync d created cache) (hw : w ∈ d.lastChild.windows) (hi : i ∈ cache.images)
    (hid : i.window = w) : Redirected cache.calls (d.heap w).number ↔ i.redirected = true := by
  rw [h.redirected w hw]
  constructor
  · rintro ⟨j, hj, hjw, hr⟩
    rw [image_unique h.ids hi hj (hid.trans hjw.symm)]
    exact hr
  · exact fun hr => ⟨i, hi, hid, hr⟩

/-- A new image -/
theorem Sync.new (h : Sync d created cache) {id : Nat} (hid : findImage id cache.images = none) :
    Sync d created { cache with images := .new id :: cache.images } := by
  refine ⟨List.nodup_cons.2 ⟨findImage_none hid, h.ids⟩, h.paired, h.fresh, fun i hi hr => ?_, fun w hw => ?_⟩
  · rcases List.mem_cons.1 hi with rfl | hi
    · cases hr
    · exact h.stale i hi hr
  · rw [h.redirected w hw]
    refine ⟨fun ⟨i, hi, hr⟩ => ⟨i, List.mem_cons_of_mem _ hi, hr⟩, fun ⟨i, hi, hiw, hr⟩ => ?_⟩
    rcases List.mem_cons.1 hi with rfl | hi
    · cases hr
    · exact ⟨i, hi, hiw, hr⟩

/-- An attempt to redirect a window object -/
theorem redirect_calls {calls : List Call} (hp : ∀ n, Paired (.redirect n true) (.unredirect n) calls) {n : Nat}
    (hn : ¬Redirected calls n) (success : Bool) :
    (∀ m, Paired (.redirect m true) (.unredirect m) (calls ++ [Call.redirect n success])) ∧
      ∀ m, Redirected (calls ++ [Call.redirect n success]) m ↔ if m = n then success = true else Redirected calls m := by
  have hother : ∀ m, (m ≠ n ∨ success = false) → Call.redirect n success ≠ .redirect m true := by
    rintro m h heq
    cases heq
    rcases h with h | h
    · exact h rfl
    · cases h
  have hopened : ∀ m, m = n → success = true →
      Paired (.redirect m true) (.unredirect m) (calls ++ [Call.redirect n success]) ∧
      Redirected (calls ++ [Call.redirect n success]) m := by
    rintro m rfl rfl
    exact (hp m).opened Call.noConfusion hn
  refine ⟨fun m => ?_, fun m => ?_⟩
  · by_cases h : m = n ∧ success = true
    · exact (hopened m h.1 h.2).1
    · refine (hp m).other (hother m ?_) Call.noConfusion
      rw [not_and_or, Bool.not_eq_true] at h
      exact h
  · by_cases hm : m = n
    · rw [if_pos hm]
      cases success with
      | true => exact iff_of_true (hopened m hm rfl).2 rfl
      | false =>
        refine iff_of_false ?_ Bool.false_ne_true
        rw [Redirected, pending_other (hother m (.inr rfl)) Call.noConfusion]
        exact hm ▸ hn
    · rw [if_neg hm]
      exact pending_other (hother m (.inl hm)) Call.noConfusion

/-- The image of a window is refreshed. -/
theorem exists_modify {f : WindowImage → WindowImage} (hf : ∀ i, (f i).window = i.window) {images : List WindowImage}
    (hn : (images.map (·.window)).Nodup) {id : Nat} {j : WindowImage} (hj : findImage id images = some j) (w : Nat) :
    (∃ i ∈ modifyImage id f images, i.window = w ∧ i.redirected = true) ↔
      if w = id then (f j).redirected = true else ∃ i ∈ images, i.window = w ∧ i.redirected = true := by
  have hwj := findImage_window hj
  split
  · rename_i hw
    constructor
    · rintro ⟨i, hi, hiw, hr⟩
      rcases (mem_modify_iff hn hj).1 hi with rfl | ⟨-, hne⟩
      · exact hr
      · exact absurd (hiw.trans hw) hne
    · exact fun hr => ⟨f j, (mem_modify_iff hn hj).2 (.inl rfl), (hf j).trans (hwj.trans hw.symm), hr⟩
  · rename_i hw
    constructor
    · rintro ⟨i, hi, hiw, hr⟩
      rcases (mem_modify_iff hn hj).1 hi with rfl | ⟨hi, -⟩
      · exact absurd (hiw.symm.trans ((hf j).trans hwj)) hw
      · exact ⟨i, hi, hiw, hr⟩
    · rintro ⟨i, hi, hiw, hr⟩
      exact ⟨i, (mem_modify_iff hn hj).2 (.inr ⟨hi, hiw ▸ hw⟩), hiw, hr⟩

/-- Only a window other than the root is asked for. -/
theorem asks_window {j : WindowImage} (hw : w ∈ d.windows) (h : j.asks d w = true) :
    w ∈ d.lastChild.windows ∧ imageId d w = w ∧ j.redirected = false := by
  rw [WindowImage.asks, Bool.and_eq_true, decide_eq_true_eq, Bool.not_eq_true'] at h
  obtain ⟨hid, hr⟩ := h
  have hne : w ≠ d.root := by
    intro heq
    rw [imageId, if_pos heq] at hid
    exact hid rfl
  refine ⟨?_, if_neg hne, hr⟩
  rcases List.mem_cons.1 hw with heq | hw
  · exact absurd heq hne
  · exact hw

/-- `imageFor` of an image that there is -/
theorem Sync.refresh (hnum : Numbered d created) (h : Sync d created cache) (hw : w ∈ d.windows) {j : WindowImage}
    (hj : findImage (imageId d w) cache.images = some j) :
    Sync d created
      { images := modifyImage (imageId d w) (·.refresh d v w) cache.images
        calls :=
          if j.asks d w then cache.calls ++ [.redirect (d.heap w).number (v.compRedirectWindow w)] else cache.calls } := by
  have hf : ∀ i : WindowImage, (i.refresh d v w).window = i.window := fun i => refresh_window i w
  have hjw := findImage_window hj
  have hjm := findImage_mem hj
  have hids : ((modifyImage (imageId d w) (·.refresh d v w) cache.images).map (·.window)).Nodup := by
    rw [map_window_modify hf]
    exact h.ids
  have hexists := exists_modify hf h.ids hj
  split
  · rename_i hasks
    obtain ⟨hw, hid, hr⟩ := asks_window hw hasks
    have hno : ¬Redirected cache.calls (d.heap w).number := by
      rw [h.redirected_iff hw hjm (hjw.trans hid), hr]
      exact Bool.false_ne_true
    obtain ⟨hpaired, hpending⟩ := redirect_calls h.paired hno (v.compRedirectWindow w)
    have hred : (j.refresh d v w).redirected = v.compRedirectWindow w := by
      rw [refresh_redirected, if_pos hasks]
    refine ⟨hids, hpaired, fun n hn => ?_, fun i hi hir => ?_, fun w' hw' => ?_⟩
    · have hlt := hnum.lt w hw
      rw [hpending, if_neg (by omega)]
      exact h.fresh n hn
    · rcases (mem_modify_iff h.ids hj).1 hi with rfl | ⟨hi, -⟩
      · rw [hf, hjw, hid]
        exact hw
      · exact h.stale i hi hir
    · rw [hpending, hexists w', hid, hred]
      by_cases heq : w' = w
      · rw [if_pos heq, if_pos (by rw [heq])]
      · rw [if_neg heq, if_neg (fun hn => heq (hnum.inj w' hw' w hw hn))]
        exact h.redirected w' hw'
  · rename_i hasks
    have hred : (j.refresh d v w).redirected = j.redirected := by
      rw [refresh_redirected, if_neg hasks]
    refine ⟨hids, h.paired, h.fresh, fun i hi hir => ?_, fun w' hw' => ?_⟩
    · rcases (mem_modify_iff h.ids hj).1 hi with rfl | ⟨hi, -⟩
      · rw [hf]
        exact h.stale j hjm (hred ▸ hir)
      · exact h.stale i hi hir
    · rw [hexists w', hred]
      split
      · rename_i heq
        exact h.redirected_iff hw' hjm (hjw.trans heq.symm)
      · exact h.redirected w' hw'

theorem imageFor_sync (hnum : Numbered d created) (h : Sync d created cache) (hw : w ∈ d.windows) {c : Cache}
    (hfor : imageFor d v cache w = some (i, c)) : Sync d created c := by
  unfold imageFor at hfor
  obtain ⟨⟨j, images⟩, hj, heq⟩ := Option.map_eq_some_iff.1 hfor
  cases heq
  cases hold : findImage (imageId d w) cache.images with
  | some k =>
    rw [hold] at hj
    cases hj
    exact h.refresh hnum hw hold
  | none =>
    rw [hold] at hj
    dsimp only at hj
    split at hj
    · cases hj
      exact (h.new hold).refresh hnum hw ((findImage_cons _).trans (if_pos rfl))
    · cases hj

/-! ## Publishing -/

theorem appendLayer_sync (hnum : Numbered d created) (owner : Nat) (childrenOnly : Bool) (s : Cache × FamilyFrame)
    (hw : w ∈ d.windows) (h : Sync d created s.1) : Sync d created (appendLayer d v owner childrenOnly s w).1 := by
  unfold appendLayer
  split
  · exact h
  · split
    · exact h
    · split
      · exact h
      · rename_i i c hfor
        split
        · exact imageFor_sync hnum h hw hfor
        · exact imageFor_sync hnum h hw hfor

theorem publishOutputs_sync (hnum : Numbered d created) {v : Nat → Server R} {outputs : List Nat} {s t : State}
    (h : Sync d created s.cache) (hs : State.publishOutputs d v outputs s = some t) : Sync d created t.cache := by
  induction outputs generalizing s with
  | nil =>
    cases hs
    exact h
  | cons o outputs ih =>
    obtain ⟨u, hu, hs⟩ := Option.bind_eq_some_iff.1 hs
    refine ih ?_ hs
    rw [(State.publishOutput_handled hu).cache]
    exact State.collected_induct (P := fun s => Sync d created s.1) h fun owner childrenOnly s _ hw hs =>
      appendLayer_sync hnum owner childrenOnly s hw hs

/-! ## Pruning -/

/-- Redirected windows are unredirected, one after the other. -/
theorem unredirect_calls {calls : List Call} (hp : ∀ n, Paired (.redirect n true) (.unredirect n) calls) {ns : List Nat}
    (hn : ns.Nodup) (hr : ∀ n ∈ ns, Redirected calls n) :
    (∀ n, Paired (.redirect n true) (.unredirect n) (calls ++ ns.map Call.unredirect)) ∧
      ∀ n, Redirected (calls ++ ns.map Call.unredirect) n ↔ Redirected calls n ∧ n ∉ ns := by
  induction ns generalizing calls with
  | nil =>
    rw [List.map_nil, List.append_nil]
    exact ⟨hp, fun n => ⟨fun h => ⟨h, List.not_mem_nil⟩, fun h => h.1⟩⟩
  | cons n ns ih =>
    obtain ⟨hnot, hn⟩ := List.nodup_cons.1 hn
    have hclosed := (hp n).closed (Call.noConfusion : Call.redirect n true ≠ .unredirect n) (hr n List.mem_cons_self)
    have hother : ∀ m, m ≠ n → Call.unredirect n ≠ .unredirect m := by
      rintro m hm heq
      cases heq
      exact hm rfl
    have hpaired : ∀ m, Paired (.redirect m true) (.unredirect m) (calls ++ [Call.unredirect n]) := by
      intro m
      by_cases hm : m = n
      · rw [hm]
        exact hclosed.1
      · exact (hp m).other Call.noConfusion (hother m hm)
    have hpending : ∀ m, Redirected (calls ++ [Call.unredirect n]) m ↔ Redirected calls m ∧ m ≠ n := by
      intro m
      by_cases hm : m = n
      · rw [hm]
        exact iff_of_false hclosed.2 fun h => h.2 rfl
      · rw [Redirected, pending_other Call.noConfusion (hother m hm)]
        exact ⟨fun h => ⟨h, hm⟩, fun h => h.1⟩
    have hrest : ∀ m ∈ ns, Redirected (calls ++ [Call.unredirect n]) m := fun m hm =>
      (hpending m).2 ⟨hr m (List.mem_cons_of_mem _ hm), fun heq => hnot (heq ▸ hm)⟩
    obtain ⟨hall, hiff⟩ := ih hpaired hn hrest
    rw [List.map_cons, ← List.singleton_append, ← List.append_assoc]
    refine ⟨hall, fun m => ?_⟩
    rw [hiff, hpending, and_assoc, List.mem_cons, not_or]

/-- The images that pruning unredirects -/
theorem pruned_calls (h : Sync d created cache) : (cache.images.filter fun i =>
    !i.used && i.redirected && (d.lookup i.window).isSome).map (fun i => Call.unredirect (d.heap i.window).number) =
      ((cache.images.filter fun i => !i.used && i.redirected).map fun i => (d.heap i.window).number).map .unredirect := by
  rw [List.map_map]
  have hsame : (cache.images.filter fun i => !i.used && i.redirected && (d.lookup i.window).isSome) =
      cache.images.filter fun i => !i.used && i.redirected := by
    refine List.filter_congr fun i hi => ?_
    cases hr : i.redirected with
    | false => simp
    | true =>
      have hmem : i.window ∈ d.windows := List.mem_cons_of_mem _ (h.stale i hi hr)
      have hlookup : (d.lookup i.window).isSome = true := by
        rw [Desktop.lookup, if_pos ⟨ne_zero_of_mem hmem, hmem⟩]
        rfl
      rw [hlookup, Bool.and_true]
  rw [hsame]
  rfl

theorem prune_sync (hnum : Numbered d created) (h : Sync d created cache) :
    Sync d created (State.pruneImages d cache) := by
  have hmem : ∀ i, i ∈ (cache.images.filter fun i => !i.used && i.redirected) ↔
      i ∈ cache.images ∧ i.used = false ∧ i.redirected = true := by
    intro i
    rw [List.mem_filter, Bool.and_eq_true, Bool.not_eq_true']
  have hnodup : ((cache.images.filter fun i => !i.used && i.redirected).map fun i => (d.heap i.window).number).Nodup := by
    refine List.Nodup.map_on (fun i hi j hj heq => ?_) (List.Nodup.filter _ h.ids.of_map)
    obtain ⟨hi, -, hir⟩ := (hmem i).1 hi
    obtain ⟨hj, -, hjr⟩ := (hmem j).1 hj
    exact image_unique h.ids hi hj (hnum.inj _ (h.stale i hi hir) _ (h.stale j hj hjr) heq)
  have hred : ∀ n ∈ (cache.images.filter fun i => !i.used && i.redirected).map fun i => (d.heap i.window).number,
      Redirected cache.calls n := by
    intro n hn
    obtain ⟨i, hi, rfl⟩ := List.mem_map.1 hn
    obtain ⟨hi, -, hir⟩ := (hmem i).1 hi
    exact (h.redirected_iff (h.stale i hi hir) hi rfl).2 hir
  obtain ⟨hpaired, hpending⟩ := unredirect_calls h.paired hnodup hred
  have hkept : ∀ i, i ∈ (State.pruneImages d cache).images →
      ∃ j ∈ cache.images, j.used = true ∧ i.window = j.window ∧ i.redirected = j.redirected := by
    intro i hi
    obtain ⟨j, hj, rfl⟩ := List.mem_map.1 hi
    obtain ⟨hj, hused⟩ := List.mem_filter.1 hj
    exact ⟨j, hj, hused, rfl, rfl⟩
  unfold State.pruneImages
  rw [pruned_calls h]
  refine ⟨?_, hpaired, fun n hn => ?_, fun i hi hir => ?_, fun w hw => ?_⟩
  · rw [List.map_map]
    exact (List.filter_sublist.map _).nodup h.ids
  · rw [hpending]
    exact fun hr => h.fresh n hn hr.1
  · obtain ⟨j, hj, -, hw, hr⟩ := hkept i hi
    rw [hw]
    exact h.stale j hj (hr ▸ hir)
  · rw [hpending, h.redirected w hw]
    constructor
    · rintro ⟨⟨i, hi, hiw, hir⟩, hnot⟩
      have hused : i.used = true := by
        by_contra hno
        exact hnot (List.mem_map.2 ⟨i, (hmem i).2 ⟨hi, eq_false_of_ne_true hno, hir⟩, by rw [hiw]⟩)
      exact ⟨_, List.mem_map_of_mem (List.mem_filter.2 ⟨hi, hused⟩), hiw, hir⟩
    · rintro ⟨i, hi, hiw, hir⟩
      obtain ⟨j, hj, hused, hjw, hjr⟩ := hkept i hi
      refine ⟨⟨j, hj, hjw.symm.trans hiw, hjr ▸ hir⟩, fun hn => ?_⟩
      obtain ⟨k, hk, hnumber⟩ := List.mem_map.1 hn
      obtain ⟨hk, hno, hkr⟩ := (hmem k).1 hk
      have hkw : k.window = w := hnum.inj _ (h.stale k hk hkr) _ hw hnumber
      have hsame := image_unique h.ids hj hk (hjw.symm.trans (hiw.trans hkw.symm))
      rw [hsame, hno] at hused
      cases hused

/-! ## The other operations -/

/-- Images change, but not what is redirected. -/
theorem Sync.map (h : Sync d created cache) {f : WindowImage → WindowImage} (hw : ∀ i, (f i).window = i.window)
    (hr : ∀ i, (f i).redirected = i.redirected) : Sync d created { cache with images := cache.images.map f } := by
  refine ⟨?_, h.paired, h.fresh, fun i hi hir => ?_, fun w hw' => ?_⟩
  · have hsame : (cache.images.map f).map (·.window) = cache.images.map (·.window) := by
      rw [List.map_map]
      exact List.map_congr_left fun i _ => hw i
    rw [hsame]
    exact h.ids
  · obtain ⟨j, hj, rfl⟩ := List.mem_map.1 hi
    rw [hw]
    exact h.stale j hj (hr j ▸ hir)
  · rw [h.redirected w hw']
    constructor
    · rintro ⟨i, hi, hiw, hir⟩
      exact ⟨f i, List.mem_map_of_mem hi, (hw i).trans hiw, (hr i).trans hir⟩
    · rintro ⟨i, hi, hiw, hir⟩
      obtain ⟨j, hj, rfl⟩ := List.mem_map.1 hi
      exact ⟨j, hj, (hw j).symm.trans hiw, hr j ▸ hir⟩

/-- The windows change; the new ones have no image that is redirected. -/
theorem Sync.desktop {e : Desktop} {created' : Nat} (h : Sync d created cache) (hc : created ≤ created')
    (hold : ∀ w ∈ e.lastChild.windows, (w ∈ d.lastChild.windows ∧ (e.heap w).number = (d.heap w).number) ∨
      (w ∉ d.lastChild.windows ∧ created ≤ (e.heap w).number))
    (hstale : ∀ i ∈ cache.images, i.redirected = true → i.window ∈ e.lastChild.windows) : Sync e created' cache := by
  refine ⟨h.ids, h.paired, fun n hn => h.fresh n (Nat.le_trans hc hn), hstale, fun w hw => ?_⟩
  rcases hold w hw with ⟨hw, hnumber⟩ | ⟨hw, hnumber⟩
  · rw [hnumber]
    exact h.redirected w hw
  · refine iff_of_false (h.fresh _ hnumber) ?_
    rintro ⟨i, hi, rfl, hir⟩
    exact hw (h.stale i hi hir)

/-- `lorieOutputWindowDestroyed`, and the window goes. -/
theorem Sync.destroyed {e : Desktop} (h : Sync d created cache) {w : Nat}
    (hwin : e.lastChild.windows.Perm (d.lastChild.windows.erase w)) (hsame : Session.SameObjects d e) :
    Sync e created { cache with
      images := cache.images.map fun i => if i.window = w then { i with redirected := false } else i } := by
  set f : WindowImage → WindowImage := fun i => if i.window = w then { i with redirected := false } else i with hf
  have hnodup : d.lastChild.windows.Nodup := (List.nodup_cons.1 d.nodup).2
  have hmem : ∀ w', w' ∈ e.lastChild.windows ↔ w' ≠ w ∧ w' ∈ d.lastChild.windows := fun w' => by
    rw [hwin.mem_iff, hnodup.mem_erase_iff]
  have hwindow : ∀ i, (f i).window = i.window := by
    intro i
    rw [hf]
    dsimp only
    split <;> rfl
  have hred : ∀ i, (f i).redirected = true ↔ i.window ≠ w ∧ i.redirected = true := by
    intro i
    rw [hf]
    dsimp only
    split
    · rename_i heq
      exact iff_of_false Bool.false_ne_true fun h => h.1 heq
    · rename_i hne
      exact ⟨fun h => ⟨hne, h⟩, fun h => h.2⟩
  refine ⟨?_, h.paired, h.fresh, fun i hi hir => ?_, fun w' hw' => ?_⟩
  · have hids : (cache.images.map f).map (·.window) = cache.images.map (·.window) := by
      rw [List.map_map]
      exact List.map_congr_left fun i _ => hwindow i
    rw [hids]
    exact h.ids
  · obtain ⟨j, hj, rfl⟩ := List.mem_map.1 hi
    obtain ⟨hne, hjr⟩ := (hred j).1 hir
    rw [hwindow]
    exact (hmem _).2 ⟨hne, h.stale j hj hjr⟩
  · obtain ⟨hne, hd⟩ := (hmem w').1 hw'
    rw [hsame w' hw' hd, h.redirected w' hd]
    constructor
    · rintro ⟨i, hi, hiw, hir⟩
      exact ⟨f i, List.mem_map_of_mem hi, (hwindow i).trans hiw, (hred i).2 ⟨hiw ▸ hne, hir⟩⟩
    · rintro ⟨i, hi, hiw, hir⟩
      obtain ⟨j, hj, rfl⟩ := List.mem_map.1 hi
      exact ⟨j, hj, (hwindow j).symm.trans hiw, ((hred j).1 hir).2⟩

theorem Numbered.desktop {e : Desktop} (h : Numbered d created) (hwin : e.lastChild.windows ⊆ d.lastChild.windows)
    (hsame : Session.SameObjects d e) : Numbered e created := by
  refine ⟨fun w hw w' hw' heq => ?_, fun w hw => ?_⟩
  · rw [hsame w hw (hwin hw), hsame w' hw' (hwin hw')] at heq
    exact h.inj w (hwin hw) w' (hwin hw') heq
  · rw [hsame w hw (hwin hw)]
    exact h.lt w (hwin hw)

/-- A window is made. -/
theorem Numbered.create {e : Desktop} (h : Numbered d created) {w : Nat}
    (hwin : e.lastChild.windows.Perm (w :: d.lastChild.windows)) (hsame : Session.SameObjects d e)
    (hw : (e.heap w).number = created) : Numbered e (created + 1) := by
  have hcases : ∀ x ∈ e.lastChild.windows,
      x = w ∨ (x ∈ d.lastChild.windows ∧ (e.heap x).number = (d.heap x).number) := by
    intro x hx
    rcases List.mem_cons.1 (hwin.mem_iff.1 hx) with rfl | hd
    · exact .inl rfl
    · exact .inr ⟨hd, hsame x hx hd⟩
  refine ⟨fun x hx y hy heq => ?_, fun x hx => ?_⟩
  · rcases hcases x hx with rfl | ⟨hxd, hxn⟩
    · rcases hcases y hy with rfl | ⟨hyd, hyn⟩
      · rfl
      · have hlt := h.lt y hyd
        omega
    · rcases hcases y hy with rfl | ⟨hyd, hyn⟩
      · have hlt := h.lt x hxd
        omega
      · exact h.inj x hxd y hyd (by rw [← hxn, ← hyn, heq])
  · rcases hcases x hx with rfl | ⟨hxd, hxn⟩
    · omega
    · have hlt := h.lt x hxd
      omega

end Cache

/-! ## Sessions -/

namespace Session

variable {R : Type} {s t : Session}

structure Inv (s : Session) : Prop where
  numbered : Numbered s.desktop s.created
  sync : Sync s.desktop s.created s.outputs.cache

theorem Inv.init {d : Desktop} (h : d.lastChild = .nil) : (init d).Inv := by
  have hnone : ∀ w, w ∉ d.lastChild.windows := fun w => by
    rw [h]
    exact List.not_mem_nil
  have hpending : ∀ n, ¬Redirected [] n := fun n h => by
    cases h
  exact ⟨⟨fun w hw => absurd hw (hnone w), fun w hw => absurd hw (hnone w)⟩, .nil, fun _ => .nil, fun n _ => hpending n,
    fun _ hi => absurd hi List.not_mem_nil, fun w hw => absurd hw (hnone w)⟩

theorem Inv.reset (h : s.Inv) : Sync s.desktop s.created (s.outputs.lorieResetOutputs s.desktop).cache :=
  prune_sync h.numbered (h.sync.map (fun _ => rfl) fun _ => rfl)

theorem Inv.publish (h : s.Inv) {v : Nat → Server R} {u : State}
    (hs : s.outputs.loriePublishOutputs s.desktop v = some u) : Sync s.desktop s.created u.cache := by
  obtain ⟨r, hr, rfl⟩ := Option.map_eq_some_iff.1 hs
  have hstart : Sync s.desktop s.created (State.unuse s.outputs.cache) := h.sync.map (fun _ => rfl) fun _ => rfl
  exact prune_sync h.numbered (publishOutputs_sync h.numbered hstart hr)

theorem Inv.step {a : Action R} (h : s.Inv) (hs : s.step a = some t) : t.Inv := by
  cases a with
  | lorieOutputCommand c env =>
    rw [Session.step] at hs
    split at hs
    · cases hs
      exact ⟨h.numbered, h.sync⟩
    · cases hs
  | createWindow e w =>
    rw [Session.step] at hs
    split at hs
    · rename_i hok
      obtain ⟨-, hwin, hsame, hnumber⟩ := hok
      cases hs
      refine ⟨h.numbered.create hwin hsame hnumber, h.sync.desktop (Nat.le_succ _) (fun x hx => ?_) fun i hi hir => ?_⟩
      · have hnodup : (w :: s.desktop.lastChild.windows).Nodup := hwin.nodup_iff.1 (List.nodup_cons.1 e.nodup).2
        rcases List.mem_cons.1 (hwin.mem_iff.1 hx) with rfl | hd
        · exact .inr ⟨(List.nodup_cons.1 hnodup).1, Nat.le_of_eq hnumber.symm⟩
        · exact .inl ⟨hd, hsame x hx hd⟩
      · exact hwin.mem_iff.2 (List.mem_cons_of_mem _ (h.sync.stale i hi hir))
    · cases hs
  | destroyWindow e w =>
    rw [Session.step] at hs
    split at hs
    · rename_i hok
      obtain ⟨-, -, hwin, hsame⟩ := hok
      cases hs
      exact ⟨h.numbered.desktop (fun x hx => List.mem_of_mem_erase (hwin.mem_iff.1 hx)) hsame,
        h.sync.destroyed hwin hsame⟩
    · cases hs
  | change e =>
    rw [Session.step] at hs
    split at hs
    · rename_i hok
      obtain ⟨-, hwin, hsame⟩ := hok
      cases hs
      refine ⟨h.numbered.desktop hwin.subset hsame,
        h.sync.desktop (Nat.le_refl _) (fun x hx => .inl ?_) fun i hi hir => ?_⟩
      · exact ⟨hwin.subset hx, hsame x hx (hwin.subset hx)⟩
      · exact hwin.mem_iff.2 (h.sync.stale i hi hir)
    · cases hs
  | damage id =>
    cases hs
    refine ⟨h.numbered, h.sync.map (fun i => ?_) fun i => ?_⟩
    all_goals split <;> rfl
  | damageDestroyed id =>
    cases hs
    refine ⟨h.numbered, h.sync.map (fun i => ?_) fun i => ?_⟩
    all_goals split <;> rfl
  | loriePublishOutputs v =>
    obtain ⟨u, hu, rfl⟩ := Option.map_eq_some_iff.1 hs
    exact ⟨h.numbered, h.publish hu⟩
  | lorieResetOutputs =>
    cases hs
    exact ⟨h.numbered, h.reset⟩

/-- What the redirections come to -/
structure Balanced (s : Session) : Prop where
  one_image : (s.outputs.cache.images.map (·.window)).Nodup
  /-- A window object is unredirected at most once for each time it was redirected, and only after that. -/
  paired : ∀ n, Paired (.redirect n true) (.unredirect n) s.outputs.cache.calls
  /-- An image is redirected while the redirection of the window that has its id is pending. -/
  redirected : ∀ w ∈ s.desktop.lastChild.windows, Redirected s.outputs.cache.calls (s.desktop.heap w).number ↔
    ∃ i ∈ s.outputs.cache.images, i.window = w ∧ i.redirected = true
  /-- No image of a window that was destroyed is. -/
  destroyed : ∀ i ∈ s.outputs.cache.images, i.redirected = true → i.window ∈ s.desktop.lastChild.windows

theorem Inv.balanced (h : s.Inv) : s.Balanced := ⟨h.sync.ids, h.sync.paired, h.sync.redirected, h.sync.stale⟩

/-- **Composite redirection is balanced** in every run; a reset leaves no image, and no window redirected. -/
theorem redirections_balanced {d : Desktop} (hd : d.lastChild = .nil) (h : Reach (step (R := R)) Free (init d) s) :
    s.Balanced ∧ ∀ t, s.step (.lorieResetOutputs : Action R) = some t → t.outputs.cache.images = [] ∧
      ∀ w ∈ t.desktop.lastChild.windows, ¬Redirected t.outputs.cache.calls (t.desktop.heap w).number := by
  have hinv : s.Inv := h.invariant (.init hd) fun _ _ _ hi _ hs => hi.step hs
  refine ⟨hinv.balanced, fun t ht => ?_⟩
  have hreset := (hinv.step ht).balanced
  cases ht
  have hempty : (s.outputs.lorieResetOutputs s.desktop).cache.images = [] := by
    simp [State.lorieResetOutputs, State.pruneImages, State.unuse, List.filter_map]
  refine ⟨hempty, fun w hw hr => ?_⟩
  obtain ⟨i, hi, -⟩ := (hreset.redirected w hw).1 hr
  rw [hempty] at hi
  cases hi

/-! ## An XID that is used again -/

/-- The root 1, the client 10 and perhaps window 20, a dialog of the client or a window on its own -/
def dialogDesktop (windows : Forest) (linked : windows.Linked (fun w => if w = 10 ∨ w = 20 then 1 else 0) 1)
    (nodup : (1 :: windows.windows).Nodup) (nonzero : 0 ∉ 1 :: windows.windows) (number : Nat) (dialog : Bool) :
    Desktop where
  atom := Name.ctorIdx
  managerWindow := none
  focus := none
  root := 1
  lastChild := windows
  heap := fun w =>
    { id := w
      parent := if w = 10 ∨ w = 20 then 1 else 0
      inputOutput := true
      overrideRedirect := false
      realized := true
      x := 0
      y := 0
      width := 100
      height := 80
      properties := fun
        | .wmTransientFor => if w = 20 ∧ dialog then some ⟨Name.ctorIdx .window, 32, [10]⟩ else none
        | _ => none
      number := if w = 20 then number else 0
      wasRealized := true
      originX := 0
      originY := 0
      borderWidth := 0
      considered := false }
  linked := linked
  nodup := nodup
  nonzero := nonzero
  parent_root := rfl

def noClient : Desktop := dialogDesktop .nil trivial (by decide) (by decide) 0 false

def oneClient : Desktop := dialogDesktop (.node 10 .nil .nil) (by simp [Forest.Linked]) (by decide) (by decide) 0 false

def withDialog (number : Nat) (dialog : Bool) : Desktop :=
  dialogDesktop (.node 10 .nil (.node 20 .nil .nil)) (by simp [Forest.Linked]) (by decide) (by decide) number dialog

/-- A dialog is shown and destroyed; the next one gets its XID and is shown before the images are pruned, and leaves the
family again. -/
def reuseRun : List (Action Unit) :=
  [.createWindow oneClient 10, .createWindow (withDialog 1 true) 20,
    .lorieOutputCommand (State.bindCommand 1 10 0 0) ⟨true, fun _ => false, fun _ => true, some 0, Leases.oneKeyTyping false⟩,
    .loriePublishOutputs fun _ => State.plainServer, .destroyWindow oneClient 20, .createWindow (withDialog 2 true) 20,
    .loriePublishOutputs fun _ => State.plainServer, .change (withDialog 2 false),
    .loriePublishOutputs fun _ => State.plainServer]

theorem redirections_balanced_reused : ∃ s, exec step (init noClient) reuseRun = some s ∧
    s.outputs.cache.calls = [.redirect 0 true, .redirect 1 true, .redirect 2 true, .unredirect 2] ∧ s.Balanced := by
  obtain ⟨s, hs, hcalls⟩ : ∃ s, exec step (init noClient) reuseRun = some s ∧
      s.outputs.cache.calls = [.redirect 0 true, .redirect 1 true, .redirect 2 true, .unredirect 2] :=
    ⟨_, rfl, by decide⟩
  exact ⟨s, hs, hcalls, (redirections_balanced rfl (Reach.of_exec reuseRun hs)).1⟩

end Session

end Lorie.Outputs.Images
