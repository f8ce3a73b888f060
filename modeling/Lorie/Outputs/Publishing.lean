import Lorie.Outputs.Images
import Lorie.Windows.Composition

/-!
# No damage is lost between outputs

An image that several outputs show is marked, by a new pixmap or by damage, until every output was handled.

- `refresh_refresh`: asked a second time while the server answers the same, `imageFor` changes nothing (`Settled`);
- `Grows`: what handling an output does to the images; a settled image stays as it is;
- `Collects`: the frame of an output is changed if one of its images is marked, in the end as when it was collected;
- `publish_exact_iff`: what is published of every output, and when the call crashes instead.
-/

namespace Lorie.Outputs.Images

open Lorie.Windows

variable {R : Type} {d : Desktop} {v : Server R}

/-! ## One image -/

/-- What becomes of an image until the images are pruned -/
structure Kept (i j : WindowImage) : Prop where
  window : j.window = i.window
  changed : i.changed = true → j.changed = true
  /-- The damage goes only with the pixmap. -/
  damage : j.damage = i.damage ∨ j.changed = true

theorem Kept.refl (i : WindowImage) : Kept i i := ⟨rfl, id, .inl rfl⟩

theorem Kept.trans {i j k : WindowImage} (h : Kept i j) (h' : Kept j k) : Kept i k := by
  refine ⟨h'.window.trans h.window, fun hc => h'.changed (h.changed hc), ?_⟩
  rcases h'.damage with hd' | hc
  · rcases h.damage with hd | hc
    · exact .inl (hd'.trans hd)
    · exact .inr (h'.changed hc)
  · exact .inr hc

/-- A marked image stays marked. -/
theorem Kept.marked {i j : WindowImage} (h : Kept i j) (hi : i.marked = true) : j.marked = true := by
  unfold WindowImage.marked at hi ⊢
  rw [Bool.or_eq_true] at hi ⊢
  rcases hi with hi | hi
  · exact .inl (h.changed hi)
  · rcases h.damage with hd | hc
    · exact .inr (by rw [hd]; exact hi)
    · exact .inl hc

/-- Asked again, `imageFor` leaves the image as it is. -/
def Settled (d : Desktop) (v : Server R) (i : WindowImage) : Prop :=
  ∀ w, w ≠ 0 → imageId d w = i.window → i.refresh d v w = i

section Refresh

variable (i : WindowImage) (w : Nat)

theorem setPixmap_kept (pixmap : Option Nat) : Kept i (i.setPixmap v w pixmap) := by
  unfold WindowImage.setPixmap
  split
  · exact .refl i
  · exact ⟨rfl, fun _ => rfl, .inr rfl⟩

@[simp] theorem setPixmap_pixmap (pixmap : Option Nat) : (i.setPixmap v w pixmap).pixmap = pixmap := by
  unfold WindowImage.setPixmap
  split
  · assumption
  · rfl

@[simp] theorem setPixmap_used (pixmap : Option Nat) : (i.setPixmap v w pixmap).used = i.used := by
  unfold WindowImage.setPixmap
  split <;> rfl

@[simp] theorem setPixmap_redirected (pixmap : Option Nat) : (i.setPixmap v w pixmap).redirected = i.redirected := by
  unfold WindowImage.setPixmap
  split <;> rfl

theorem refresh_kept : Kept i (i.refresh d v w) := by
  unfold WindowImage.refresh
  refine Kept.trans ?_ (setPixmap_kept _ w _)
  exact ⟨rfl, id, .inl rfl⟩

@[simp] theorem refresh_window : (i.refresh d v w).window = i.window := (refresh_kept i w).window

@[simp] theorem refresh_used : (i.refresh d v w).used = true := by
  rw [WindowImage.refresh, setPixmap_used]

theorem refresh_redirected :
    (i.refresh d v w).redirected = if i.asks d w then v.compRedirectWindow w else i.redirected := by
  rw [WindowImage.refresh, setPixmap_redirected]

theorem refresh_pixmap : (i.refresh d v w).pixmap = imagePixmap d v w (i.refresh d v w).redirected := by
  rw [refresh_redirected, WindowImage.refresh, setPixmap_pixmap]

/-- The second time, the window is redirected already, or is not to be redirected this time either. -/
theorem refresh_refresh : (i.refresh d v w).refresh d v w = i.refresh d v w := by
  set j := i.refresh d v w with hj
  have hred : (if j.asks d w then v.compRedirectWindow w else j.redirected) = j.redirected := by
    split
    · rename_i hasks
      rw [WindowImage.asks, Bool.and_eq_true] at hasks
      obtain ⟨hid, hno⟩ := hasks
      rw [hj, refresh_redirected] at hno ⊢
      split
      · rfl
      · rename_i hasks'
        rw [if_neg hasks'] at hno
        exact absurd (by rw [WindowImage.asks, hid, hno]; rfl) hasks'
    · rfl
  have hused : j.used = true := refresh_used i w
  rw [WindowImage.refresh, hred]
  have hsame : ({ j with used := true, redirected := j.redirected } : WindowImage) = j := by
    rw [← hused]
  rw [hsame, WindowImage.setPixmap, if_pos (refresh_pixmap i w)]

end Refresh

theorem imageId_inj {w w' : Nat} (hw : w ≠ 0) (hw' : w' ≠ 0) (h : imageId d w = imageId d w') : w = w' := by
  unfold imageId at h
  split at h
  · split at h
    · simp_all
    · exact absurd h.symm hw'
  · split at h
    · exact absurd h hw
    · exact h

theorem refresh_settled (i : WindowImage) {w : Nat} (hw : w ≠ 0) (hi : imageId d w = i.window) :
    Settled d v (i.refresh d v w) := by
  intro w' hw' hid
  rw [refresh_window, ← hi] at hid
  rw [imageId_inj hw' hw hid]
  exact refresh_refresh i w

/-! ## All images -/

section Find

variable {id id' : Nat} {images : List WindowImage} {f : WindowImage → WindowImage} {i : WindowImage}

theorem findImage_window (h : findImage id images = some i) : i.window = id := by
  unfold findImage at h
  have hfound := List.find?_some h
  exact of_decide_eq_true hfound

theorem findImage_mem (h : findImage id images = some i) : i ∈ images := List.mem_of_find?_eq_some h

theorem findImage_cons (i : WindowImage) :
    findImage id (i :: images) = if i.window = id then some i else findImage id images := by
  unfold findImage
  rw [List.find?_cons]
  by_cases h : i.window = id <;> simp [h]

theorem findImage_modify (hf : ∀ i, (f i).window = i.window) (h : findImage id images = some i) :
    findImage id (modifyImage id f images) = some (f i) := by
  induction images with
  | nil => cases h
  | cons j images ih =>
    rw [findImage_cons] at h
    rw [modifyImage]
    split at h
    · rename_i hj
      cases h
      rw [if_pos hj, findImage_cons, hf, if_pos hj]
    · rename_i hj
      rw [if_neg hj, findImage_cons, if_neg hj]
      exact ih h

theorem findImage_modify_ne (hf : ∀ i, (f i).window = i.window) (hne : id' ≠ id) :
    findImage id' (modifyImage id f images) = findImage id' images := by
  induction images with
  | nil => rfl
  | cons j images ih =>
    rw [modifyImage]
    split
    · rename_i hj
      rw [findImage_cons, findImage_cons, hf, if_neg (hj ▸ hne.symm), if_neg (hj ▸ hne.symm)]
    · rw [findImage_cons, findImage_cons, ih]

theorem mem_modify (h : i ∈ images) : i ∈ modifyImage id f images ∨ f i ∈ modifyImage id f images := by
  induction images with
  | nil => cases h
  | cons j images ih =>
    rw [modifyImage]
    split
    · rcases List.mem_cons.1 h with rfl | h
      · exact .inr List.mem_cons_self
      · exact .inl (List.mem_cons_of_mem _ h)
    · rcases List.mem_cons.1 h with rfl | h
      · exact .inl List.mem_cons_self
      · exact (ih h).imp (List.mem_cons_of_mem _) (List.mem_cons_of_mem _)

end Find

/-- What happens to the images while outputs are handled -/
structure Grows (d : Desktop) (v : Server R) (a b : List WindowImage) : Prop where
  kept : ∀ i ∈ a, ∃ j ∈ b, Kept i j
  settled : ∀ id i, findImage id a = some i → Settled d v i → findImage id b = some i

theorem Grows.refl (a : List WindowImage) : Grows d v a a :=
  ⟨fun i hi => ⟨i, hi, .refl i⟩, fun _ _ h _ => h⟩

theorem Grows.trans {a b c : List WindowImage} (h : Grows d v a b) (h' : Grows d v b c) : Grows d v a c := by
  refine ⟨fun i hi => ?_, fun id i hi hs => h'.settled id i (h.settled id i hi hs) hs⟩
  obtain ⟨j, hj, hij⟩ := h.kept i hi
  obtain ⟨k, hk, hjk⟩ := h'.kept j hj
  exact ⟨k, hk, hij.trans hjk⟩

/-- An image is refreshed. -/
theorem modify_grows {images : List WindowImage} {w : Nat} (hw : w ≠ 0) :
    Grows d v images (modifyImage (imageId d w) (·.refresh d v w) images) := by
  refine ⟨fun i hi => ?_, fun id i hi hs => ?_⟩
  · rcases mem_modify hi with hmem | hmem
    · exact ⟨i, hmem, .refl i⟩
    · exact ⟨_, hmem, refresh_kept i w⟩
  · by_cases hid : id = imageId d w
    · subst hid
      rw [findImage_modify (fun i => refresh_window i w) hi, hs w hw (findImage_window hi).symm]
    · rw [findImage_modify_ne (fun i => refresh_window i w) hid, hi]

theorem new_grows {images : List WindowImage} {id : Nat} (h : findImage id images = none) :
    Grows d v images (.new id :: images) := by
  refine ⟨fun i hi => ⟨i, List.mem_cons_of_mem _ hi, .refl i⟩, fun id' i hi _ => ?_⟩
  rw [findImage_cons]
  split
  · rename_i heq
    have heq : id = id' := heq
    subst heq
    rw [h] at hi
    cases hi
  · exact hi

/-- What `imageFor` returns and what it leaves -/
theorem imageFor_spec {cache cache' : Cache} {w : Nat} {i : WindowImage} (hw : w ≠ 0)
    (h : imageFor d v cache w = some (i, cache')) :
    findImage (imageId d w) cache'.images = some i ∧ Settled d v i ∧ Grows d v cache.images cache'.images := by
  unfold imageFor at h
  obtain ⟨⟨j, images⟩, hj, heq⟩ := Option.map_eq_some_iff.1 h
  cases heq
  have hfind : findImage (imageId d w) images = some j ∧ Grows d v cache.images images := by
    cases hold : findImage (imageId d w) cache.images with
    | some k =>
      rw [hold] at hj
      cases hj
      exact ⟨hold, .refl _⟩
    | none =>
      rw [hold] at hj
      dsimp only at hj
      split at hj
      · cases hj
        exact ⟨(findImage_cons _).trans (if_pos rfl), new_grows hold⟩
      · cases hj
  refine ⟨?_, refresh_settled j hw (findImage_window hfind.1).symm, hfind.2.trans (modify_grows hw)⟩
  exact findImage_modify (fun i => refresh_window i w) hfind.1

/-! ## The frame of an output -/

/-- An image of the cache is marked. -/
def Marked (images : List WindowImage) (id : Nat) : Prop := ∃ i, findImage id images = some i ∧ i.marked = true

/-- What a frame says of its images, which are settled -/
structure Collects (d : Desktop) (v : Server R) (images : List WindowImage) (frame : FamilyFrame) : Prop where
  settled : ∀ id ∈ frame.images, ∃ i, findImage id images = some i ∧ Settled d v i
  changed : frame.changed = true ↔ ∃ id ∈ frame.images, Marked images id

theorem Collects.zero (images : List WindowImage) : Collects d v images .zero :=
  ⟨fun _ h => absurd h List.not_mem_nil, by simp [FamilyFrame.zero]⟩

/-- A settled image is marked in the end if it is when it is collected. -/
theorem Collects.grow {a b : List WindowImage} {frame : FamilyFrame} (h : Collects d v a frame) (hg : Grows d v a b) :
    Collects d v b frame := by
  have hsame : ∀ id ∈ frame.images, findImage id b = findImage id a := by
    intro id hid
    obtain ⟨i, hi, hs⟩ := h.settled id hid
    rw [hi, hg.settled id i hi hs]
  refine ⟨fun id hid => ?_, ?_⟩
  · rw [hsame id hid]
    exact h.settled id hid
  · rw [h.changed]
    refine exists_congr fun id => and_congr_right fun hid => ?_
    rw [Marked, Marked, hsame id hid]

/-- One more image is collected. -/
theorem Collects.append {images : List WindowImage} {frame : FamilyFrame} (h : Collects d v images frame)
    {i : WindowImage} (hi : findImage i.window images = some i) (hs : Settled d v i) (layers : List (Layer × Nat)) :
    Collects d v images ⟨frame.images ++ [i.window], frame.changed || i.marked, layers⟩ := by
  refine ⟨fun id hid => ?_, ?_⟩
  · rcases List.mem_append.1 hid with hid | hid
    · exact h.settled id hid
    · rw [List.mem_singleton.1 hid]
      exact ⟨i, hi, hs⟩
  · simp only [Bool.or_eq_true, h.changed, List.mem_append, List.mem_singleton]
    constructor
    · rintro (⟨id, hid, hm⟩ | hm)
      · exact ⟨id, .inl hid, hm⟩
      · exact ⟨i.window, .inr rfl, i, hi, hm⟩
    · rintro ⟨id, hid | rfl, hm⟩
      · exact .inl ⟨id, hid, hm⟩
      · obtain ⟨j, hj, hm⟩ := hm
        rw [hi] at hj
        cases hj
        exact .inr hm

/-- What a visitor does to the cache and to the frame -/
structure Visit (d : Desktop) (v : Server R) (s t : Cache × FamilyFrame) : Prop where
  grows : Grows d v s.1.images t.1.images
  collects : Collects d v s.1.images s.2 → Collects d v t.1.images t.2

theorem Visit.refl (s : Cache × FamilyFrame) : Visit d v s s := ⟨.refl _, id⟩

theorem Visit.trans {s t u : Cache × FamilyFrame} (h : Visit d v s t) (h' : Visit d v t u) : Visit d v s u :=
  ⟨h.grows.trans h'.grows, fun hc => h'.collects (h.collects hc)⟩

theorem appendLayer_visit {owner w : Nat} (hw : w ≠ 0) (childrenOnly : Bool) (s : Cache × FamilyFrame) :
    Visit d v s (appendLayer d v owner childrenOnly s w) := by
  unfold appendLayer
  split
  · exact .refl s
  · split
    · exact .refl s
    · split
      · exact .refl s
      · rename_i i cache hfor
        obtain ⟨hfind, hsettled, hgrows⟩ := imageFor_spec hw hfor
        split
        · exact ⟨hgrows, fun hc => hc.grow hgrows⟩
        · rw [← findImage_window hfind] at hfind
          exact ⟨hgrows, fun hc => (hc.grow hgrows).append hfind hsettled _⟩

theorem ne_zero_of_mem {w : Nat} (hw : w ∈ d.windows) : w ≠ 0 := fun h => d.nonzero (h ▸ hw)

/-- What every layer keeps, the walk over a family keeps. -/
theorem family_induct {P : Cache × FamilyFrame → Prop} {owner : Nat} {childrenOnly : Bool}
    (hstep : ∀ s, ∀ w ∈ d.windows, P s → P (appendLayer d v owner childrenOnly s w)) {s : Cache × FamilyFrame}
    (h : P s) : P (Desktop.lorieWindowFamily (fun _ => d) owner (appendLayer d v owner childrenOnly) s) := by
  rw [Desktop.visitFamily_eq (fun _ _ => .refl d)]
  have hall : ∀ ws : List Nat, ws ⊆ d.windows → ∀ s, P s → P (ws.foldl (appendLayer d v owner childrenOnly) s) := by
    intro ws
    induction ws with
    | nil => exact fun _ _ h => h
    | cons w ws ih =>
      intro hws s h
      exact ih (fun w' hw' => hws (List.mem_cons_of_mem _ hw')) _ (hstep s w (hws List.mem_cons_self) h)
  exact hall _ (fun w hw => List.mem_cons_of_mem _ (d.family_subset owner hw)) s h

namespace State

variable {s : State} {o : Nat}

theorem window?_mem {w : Nat} (h : s.window? d o = some w) : w ∈ d.windows := by
  unfold window? at h
  split at h
  · cases h
  · split at h
    · cases h
      exact List.mem_cons_self
    · unfold Desktop.lookup at h
      split at h
      · rename_i hw
        cases h
        exact hw.2
      · cases h

/-- What every layer keeps, collecting the layers of an output keeps. -/
theorem collected_induct {P : Cache × FamilyFrame → Prop} (h : P (s.cache, .zero))
    (hstep : ∀ owner childrenOnly s, ∀ w ∈ d.windows, P s → P (appendLayer d v owner childrenOnly s w)) :
    P (s.collected d v o) := by
  unfold collected
  split
  · rename_i w hw
    have hmem := window?_mem hw
    unfold layers
    split
    · split
      · exact family_induct (hstep w true) h
      · split
        · exact hstep w false _ w hmem h
        · split
          · exact family_induct (hstep w false) h
          · exact hstep w false _ w hmem h
    · exact h
  · exact h

/-- What is collected for an output -/
theorem collected_visit : Visit d v (s.cache, .zero) (s.collected d v o) :=
  collected_induct (.refl _) fun _ childrenOnly t _ hw h => h.trans (appendLayer_visit (ne_zero_of_mem hw) childrenOnly t)

theorem collected_grows : Grows d v s.cache.images (s.collected d v o).1.images := collected_visit.grows

theorem collected_collects : Collects d v (s.collected d v o).1.images (s.collected d v o).2 :=
  collected_visit.collects (.zero _)

/-! ## One output -/

/-- The messages that were sent for a selection -/
def messages (s : State) (o : Nat) : List Message := (s.sent.filter (·.1 = o)).map (·.2)

@[simp] theorem keep_self (s : State) (o : Nat) (f : Published → Published) :
    (s.keep o f).published o = f (s.published o) := by
  simp [keep]

@[simp] theorem keep_ne (s : State) {o o' : Nat} (h : o' ≠ o) (f : Published → Published) :
    (s.keep o f).published o' = s.published o' := by
  simp [keep, h]

/-- A selection changes. -/
def withNode (s : State) (o : Nat) (f : Leases.OutputSelection → Leases.OutputSelection) : State :=
  { s with leases := s.leases.modify o f }

@[simp] theorem withNode_self (s : State) (o : Nat) (f : Leases.OutputSelection → Leases.OutputSelection) :
    (s.withNode o f).node o = f (s.node o) := by
  simp [withNode, node, Leases.State.modify]

@[simp] theorem withNode_ne (s : State) {o o' : Nat} (h : o' ≠ o)
    (f : Leases.OutputSelection → Leases.OutputSelection) : (s.withNode o f).node o' = s.node o' := by
  simp [withNode, node, Leases.State.modify, h]

/-- Handling an output changes nothing of the others. -/
structure Local (o : Nat) (s t : State) : Prop where
  selections : t.leases.selections = s.leases.selections
  node : ∀ o', o' ≠ o → t.node o' = s.node o'
  published : ∀ o', o' ≠ o → t.published o' = s.published o'
  sent : ∃ l, t.sent = s.sent ++ l ∧ ∀ m ∈ l, m.1 = o

theorem Local.refl (o : Nat) (s : State) : Local o s s :=
  ⟨rfl, fun _ _ => rfl, fun _ _ => rfl, [], (List.append_nil _).symm, fun _ h => absurd h List.not_mem_nil⟩

theorem Local.trans {s t u : State} (h : Local o s t) (h' : Local o t u) : Local o s u := by
  obtain ⟨l, hl, hlo⟩ := h.sent
  obtain ⟨l', hl', hlo'⟩ := h'.sent
  refine ⟨h'.selections.trans h.selections, fun o' hne => (h'.node o' hne).trans (h.node o' hne),
    fun o' hne => (h'.published o' hne).trans (h.published o' hne), l ++ l', ?_, fun m hm => ?_⟩
  · rw [hl', hl, List.append_assoc]
  · rcases List.mem_append.1 hm with hm | hm
    · exact hlo m hm
    · exact hlo' m hm

theorem Local.messages {s t : State} (h : Local o s t) {o' : Nat} (hne : o' ≠ o) : t.messages o' = s.messages o' := by
  obtain ⟨l, hl, hlo⟩ := h.sent
  have hnone : l.filter (·.1 = o') = [] := by
    refine List.filter_eq_nil_iff.2 fun m hm heq => ?_
    exact hne (of_decide_eq_true heq ▸ hlo m hm)
  rw [State.messages, hl, List.filter_append, hnone, List.append_nil]
  rfl

/-- What the frame of an output depends on stays while its family geometry is published. -/
structure Quiet (o : Nat) (s t : State) : Prop extends Local o s t where
  cache : t.cache = s.cache
  id : (t.node o).id = (s.node o).id
  window : (t.node o).window = (s.node o).window
  changed : (t.node o).changed = (s.node o).changed
  presentation : (t.node o).presentation = (s.node o).presentation
  viewport : (t.node o).viewport = (s.node o).viewport
  layers : (t.published o).layers = (s.published o).layers
  revision : (t.published o).revision = (s.published o).revision

theorem Quiet.refl (o : Nat) (s : State) : Quiet o s s := ⟨.refl o s, rfl, rfl, rfl, rfl, rfl, rfl, rfl, rfl⟩

theorem Quiet.trans {s t u : State} (h : Quiet o s t) (h' : Quiet o t u) : Quiet o s u :=
  ⟨h.toLocal.trans h'.toLocal, h'.cache.trans h.cache, h'.id.trans h.id, h'.window.trans h.window,
    h'.changed.trans h.changed, h'.presentation.trans h.presentation, h'.viewport.trans h.viewport,
    h'.layers.trans h.layers, h'.revision.trans h.revision⟩

theorem withNode_quiet (s : State) (o : Nat) {f : Leases.OutputSelection → Leases.OutputSelection}
    (hf : ∀ x, ∃ dead geometryPending, f x = { x with dead := dead, geometryPending := geometryPending }) :
    Quiet o s (s.withNode o f) := by
  obtain ⟨dead, geometryPending, hx⟩ := hf (s.node o)
  have hself := withNode_self s o f
  rw [hx] at hself
  refine ⟨⟨rfl, fun _ hne => withNode_ne s hne f, fun _ _ => rfl, [], (List.append_nil _).symm,
    fun _ h => absurd h List.not_mem_nil⟩, rfl, ?_, ?_, ?_, ?_, ?_, rfl, rfl⟩
  all_goals rw [hself]

theorem keep_quiet (s : State) (o : Nat) {f : Published → Published}
    (hf : ∀ x, (f x).layers = x.layers ∧ (f x).revision = x.revision) : Quiet o s (s.keep o f) := by
  refine ⟨⟨rfl, fun _ _ => rfl, fun _ hne => keep_ne s hne f, [], (List.append_nil _).symm,
    fun _ h => absurd h List.not_mem_nil⟩, rfl, rfl, rfl, rfl, rfl, rfl, ?_, ?_⟩
  · rw [keep_self, (hf _).1]
  · rw [keep_self, (hf _).2]

/-- A geometry is published. -/
def publishGeometry (s : State) (o : Nat) (geometry : LorieFamilyGeometry) : State :=
  { (s.withNode o fun x => { x with geometryPending := false }).keep o fun p =>
      { p with family := geometry, familyPublished := true } with
    sent := s.sent ++ [(o, .family (s.node o).id geometry)] }

theorem publishGeometry_quiet (s : State) (o : Nat) (geometry : LorieFamilyGeometry) :
    Quiet o s (s.publishGeometry o geometry) := by
  have hquiet := (withNode_quiet s o fun x => ⟨x.dead, false, rfl⟩).trans
    (keep_quiet (s.withNode o fun x => { x with geometryPending := false }) o
      (f := fun p => { p with family := geometry, familyPublished := true }) fun _ => ⟨rfl, rfl⟩)
  exact ⟨⟨hquiet.selections, hquiet.node, hquiet.published, _, rfl, fun m hm => by rw [List.mem_singleton.1 hm]⟩,
    hquiet.cache, hquiet.id, hquiet.window, hquiet.changed, hquiet.presentation, hquiet.viewport, hquiet.layers,
    hquiet.revision⟩

/-- What is sent of a family: nothing, or a geometry that is new to a dependent output -/
def FamilyMessages (s : State) (o : Nat) (g : List Message) : Prop :=
  g = [] ∨ (s.node o).parent ≠ 0 ∧ ∃ geometry, g = [.family (s.node o).id geometry] ∧
    ((s.published o).familyPublished = true → geometry ≠ (s.published o).family)

theorem look_quiet (s : State) (o : Nat) : Quiet o s (s.look d o) := by
  unfold look
  split
  · exact keep_quiet s o fun _ => ⟨rfl, rfl⟩
  · split
    · exact withNode_quiet s o fun x => ⟨true, x.geometryPending, rfl⟩
    · exact .refl o s

theorem look_messages (s : State) (o : Nat) : (s.look d o).messages o = s.messages o := by
  unfold look
  split
  · rfl
  · split <;> rfl

theorem look_family (s : State) (o : Nat) {g : List Message} (h : FamilyMessages (s.look d o) o g) :
    FamilyMessages s o g := by
  unfold FamilyMessages look at h
  split at h
  · rw [keep_self] at h
    exact h
  · split at h
    · rw [show ({ s with leases := s.leases.modify o fun x => { x with dead := true } } : State) =
        s.withNode o fun x => { x with dead := true } from rfl, withNode_self] at h
      exact h
    · exact h

theorem publishFamily_spec {s t : State} (h : s.publishFamily d v o = some t) :
    Quiet o s t ∧ ∃ g, FamilyMessages s o g ∧ t.messages o = s.messages o ++ g := by
  unfold publishFamily at h
  split at h
  · rename_i hneeded
    obtain ⟨geometry, -, heq⟩ := Option.map_eq_some_iff.1 h
    dsimp only at heq
    split at heq
    · rename_i hnew
      have heq : s.publishGeometry o geometry = t := heq
      rw [← heq]
      refine ⟨publishGeometry_quiet s o geometry, [.family (s.node o).id geometry],
        .inr ⟨hneeded.1, geometry, rfl, fun hpub => ?_⟩, ?_⟩
      · rw [hpub] at hnew
        exact hnew.resolve_left Bool.false_ne_true
      · simp [State.messages, publishGeometry, List.filter_append]
    · rw [← heq]
      exact ⟨withNode_quiet s o fun x => ⟨x.dead, false, rfl⟩, [], .inl rfl, (List.append_nil _).symm⟩
  · cases h
    exact ⟨.refl o s, [], .inl rfl, (List.append_nil _).symm⟩

/-- The frame that `loriePublishOutputs` collects for an output -/
def collectedFrame (d : Desktop) (s : State) (v : Server R) (o : Nat) : FamilyFrame := (s.collected d v o).2

/-- The events of the next frame of an output -/
def nextFrame (d : Desktop) (s : State) (v : Server R) (o : Nat) : List Message :=
  (frameEvents (s.node o).id (s.frameOf d v o ((s.window? d o).getD d.root) (s.collectedFrame d v o))).map .event

/-- What handling an output does -/
structure Handled (d : Desktop) (v : Server R) (o : Nat) (s t : State) : Prop extends Local o s t where
  cache : t.cache = (s.collected d v o).1
  messages_self : ∃ g, FamilyMessages s o g ∧ t.messages o =
    s.messages o ++ g ++ if s.due o (s.collectedFrame d v o) then s.nextFrame d v o else []
  revision : (t.published o).revision =
    if s.due o (s.collectedFrame d v o) then ((s.published o).revision + 1) % 2 ^ 64 else (s.published o).revision
  layers : (t.published o).layers = (s.collectedFrame d v o).layers.map (·.1)
  changed : (t.node o).changed = false

theorem publishFrame_local (s : State) (window : Nat) (frame : FamilyFrame) :
    Local o s (s.publishFrame d v o window frame) := by
  refine ⟨rfl, fun o' hne => withNode_ne s hne _, fun o' hne => ?_, _, rfl, fun m hm => ?_⟩
  · exact Function.update_of_ne hne _ _
  obtain ⟨e, -, rfl⟩ := List.mem_map.1 hm
  rfl

theorem publishFrame_messages (s : State) (window : Nat) (frame : FamilyFrame) :
    (s.publishFrame d v o window frame).messages o =
      s.messages o ++ (frameEvents (s.node o).id (s.frameOf d v o window frame)).map .event := by
  simp only [messages, publishFrame, List.filter_append, List.map_append]
  congr 1
  rw [List.filter_eq_self.2]
  · rw [List.map_map]
    rfl
  · intro m hm
    obtain ⟨e, -, rfl⟩ := List.mem_map.1 hm
    exact decide_eq_true rfl

theorem publishFrame_published (s : State) (window : Nat) (frame : FamilyFrame) :
    (s.publishFrame d v o window frame).published o =
      { s.published o with
        layers := frame.layers.map (·.1)
        revision := (s.frameOf d v o window frame).revision
        contentWidth := (s.frameOf d v o window frame).width
        contentHeight := (s.frameOf d v o window frame).height } :=
  Function.update_self ..

theorem publishFrame_node (s : State) (window : Nat) (frame : FamilyFrame) :
    (s.publishFrame d v o window frame).node o = { s.node o with changed := false } :=
  withNode_self s o _

theorem Quiet.due {s t : State} (h : Quiet o s t) (frame : FamilyFrame) : t.due o frame = s.due o frame := by
  unfold State.due
  rw [h.changed, h.layers]

theorem Quiet.frameOf {s t : State} (h : Quiet o s t) (window : Nat) (frame : FamilyFrame) :
    t.frameOf d v o window frame = s.frameOf d v o window frame := by
  unfold State.frameOf State.familyOf
  rw [h.id, h.window, h.revision, h.presentation, h.viewport]

theorem publishOutput_handled {s t : State} (h : s.publishOutput d v o = some t) : Handled d v o s t := by
  unfold publishOutput at h
  obtain ⟨u, hu, heq⟩ := Option.map_eq_some_iff.1 h
  obtain ⟨hfamily, g, hfam, hg⟩ := publishFamily_spec hu
  have hq : Quiet o { s with cache := (s.collected d v o).1 } u := (look_quiet _ o).trans hfamily
  have hfam : FamilyMessages s o g := look_family { s with cache := (s.collected d v o).1 } o hfam
  rw [look_messages] at hg
  have hlocal : Local o s u := ⟨hq.selections, hq.node, hq.published, hq.sent⟩
  have hdue : u.due o (s.collectedFrame d v o) = s.due o (s.collectedFrame d v o) := hq.due _
  have heq : (if u.due o (s.collectedFrame d v o) then
      u.publishFrame d v o ((s.window? d o).getD d.root) (s.collectedFrame d v o) else u) = t := heq
  rw [hdue] at heq
  split at heq
  · rename_i hyes
    rw [← heq]
    refine ⟨hlocal.trans (publishFrame_local u _ _), hq.cache, ⟨g, hfam, ?_⟩, ?_, ?_, ?_⟩
    · rw [publishFrame_messages, hg, if_pos hyes, hq.frameOf, hq.id]
      rfl
    · rw [if_pos hyes]
      rw [publishFrame_published, hq.frameOf]
      rfl
    · rw [publishFrame_published]
    · rw [publishFrame_node]
  · rename_i hno
    rw [← heq]
    refine ⟨hlocal, hq.cache, ⟨g, hfam, ?_⟩, ?_, ?_, ?_⟩
    · rw [if_neg hno, List.append_nil]
      exact hg
    · rw [if_neg hno]
      exact hq.revision
    · rw [hq.layers]
      simp only [State.due, Bool.or_eq_true, decide_eq_true_eq, not_or, ne_eq, not_not] at hno
      exact hno.2
    · rw [hq.changed]
      simp only [State.due, Bool.or_eq_true, not_or] at hno
      exact eq_false_of_ne_true hno.1.1

/-! ## Where it crashes -/

/-- A dependent output that was bound to a window that is gone by then: it is not dead, for it was not seen, and there is
no window to take the family of. -/
def crashes (d : Desktop) (s : State) (o : Nat) : Bool :=
  (s.node o).parent ≠ 0 && !(s.node o).dead && !(s.published o).seen && (s.window? d o).isNone &&
    ((s.node o).geometryPending || !(s.published o).familyPublished)

theorem publishFamily_none (s : State) (o : Nat) : s.publishFamily d v o = none ↔
    (s.node o).parent ≠ 0 ∧ (s.node o).dead = false ∧ s.window? d o = none ∧
      ((s.node o).geometryPending = true ∨ (s.published o).familyPublished = false) := by
  unfold publishFamily familyGeometry
  cases hdead : (s.node o).dead with
  | true => split <;> simp
  | false =>
    split
    · rename_i h
      simp only [Bool.false_eq_true, or_false, Bool.not_eq_true'] at h
      simp [h]
    · rename_i h
      simp only [Bool.false_eq_true, or_false, Bool.not_eq_true', not_and] at h
      simp only [reduceCtorEq, true_and, false_iff, not_and]
      exact fun hp _ => h hp

theorem publishOutput_none (s : State) (o : Nat) : s.publishOutput d v o = none ↔ s.crashes d o = true := by
  unfold publishOutput
  dsimp only
  rw [Option.map_eq_none_iff, publishFamily_none]
  generalize hc : (s.collected d v o).1 = c
  have hcrash : s.crashes d o = true ↔ (s.node o).parent ≠ 0 ∧ (s.node o).dead = false ∧
      (s.published o).seen = false ∧ s.window? d o = none ∧
        ((s.node o).geometryPending = true ∨ (s.published o).familyPublished = false) := by
    simp [crashes, and_assoc]
  rw [hcrash]
  have hwindow : ({ s with cache := c } : State).window? d o = s.window? d o := rfl
  unfold look
  rw [hwindow]
  cases hw : s.window? d o with
  | some w =>
    have hsame : (({ s with cache := c } : State).keep o fun p => { p with seen := true }).window? d o = s.window? d o :=
      rfl
    rw [hsame, hw]
    simp
  | none =>
    dsimp only
    cases hseen : (s.published o).seen with
    | true =>
      simp [Leases.State.modify, node]
    | false =>
      rw [if_neg Bool.false_ne_true, hwindow, hw]
      simp [node]

/-! ## All outputs -/

/-- The state in which an output is handled -/
def handling (d : Desktop) (v : Nat → Server R) (o : Nat) : List Nat → State → Option State
  | [], _ => none
  | o' :: outputs, s => if o' = o then some s else (s.publishOutput d (v o') o').bind (handling d v o outputs)

/-- The own state of an output is the same. -/
structure Same (o : Nat) (s t : State) : Prop where
  node : t.node o = s.node o
  published : t.published o = s.published o
  messages : t.messages o = s.messages o

theorem Same.refl (o : Nat) (s : State) : Same o s s := ⟨rfl, rfl, rfl⟩

theorem Same.trans {s t u : State} (h : Same o s t) (h' : Same o t u) : Same o s u :=
  ⟨h'.node.trans h.node, h'.published.trans h.published, h'.messages.trans h.messages⟩

theorem Local.same {s t : State} (h : Local o s t) {o' : Nat} (hne : o' ≠ o) : Same o' s t :=
  ⟨h.node o' hne, h.published o' hne, h.messages hne⟩

theorem Same.crashes {s t : State} (h : Same o s t) : t.crashes d o = s.crashes d o := by
  unfold State.crashes window?
  rw [h.node, h.published]

theorem Handled.grows {s t : State} (h : Handled d v o s t) : Grows d v s.cache.images t.cache.images := by
  rw [h.cache]
  exact collected_grows

/-- Handling some outputs: each is handled in a state in which its own state is as before, and keeps what it got. -/
theorem publishOutputs_spec {outputs : List Nat} (hn : outputs.Nodup) {s u : State}
    (h : publishOutputs d (fun _ => v) outputs s = some u) :
    Grows d v s.cache.images u.cache.images ∧ (∀ o ∉ outputs, Same o s u) ∧
      ∀ o ∈ outputs, ∃ r r', handling d (fun _ => v) o outputs s = some r ∧ Handled d v o r r' ∧ Same o s r ∧
        Same o r' u ∧ Grows d v r'.cache.images u.cache.images := by
  induction outputs generalizing s with
  | nil =>
    cases h
    exact ⟨.refl _, fun o _ => .refl o _, fun _ ho => absurd ho List.not_mem_nil⟩
  | cons o outputs ih =>
    obtain ⟨t, ht, h⟩ := Option.bind_eq_some_iff.1 h
    obtain ⟨ho, hn⟩ := List.nodup_cons.1 hn
    have hstep := publishOutput_handled ht
    obtain ⟨hgrows, hsame, hall⟩ := ih hn h
    refine ⟨hstep.grows.trans hgrows, fun o' ho' => ?_, fun o' ho' => ?_⟩
    · obtain ⟨hne, ho'⟩ := List.ne_and_not_mem_of_not_mem_cons ho'
      exact (hstep.toLocal.same hne).trans (hsame o' ho')
    · rcases List.mem_cons.1 ho' with rfl | ho'
      · exact ⟨s, t, if_pos rfl, hstep, .refl _ s, hsame o' ho, hgrows⟩
      · have hne : o' ≠ o := fun heq => ho (heq ▸ ho')
        obtain ⟨r, r', hr, hr', hbefore, hafter⟩ := hall o' ho'
        refine ⟨r, r', ?_, hr', (hstep.toLocal.same hne).trans hbefore, hafter⟩
        rw [handling, if_neg hne.symm]
        exact Option.bind_eq_some_iff.2 ⟨t, ht, hr⟩

/-- All outputs are handled unless one of them crashes. -/
theorem publishOutputs_isSome {outputs : List Nat} (hn : outputs.Nodup) (s : State) :
    (∃ u, publishOutputs d (fun _ => v) outputs s = some u) ↔ ∀ o ∈ outputs, s.crashes d o = false := by
  induction outputs generalizing s with
  | nil => exact ⟨fun _ _ ho => absurd ho List.not_mem_nil, fun _ => ⟨s, rfl⟩⟩
  | cons o outputs ih =>
    obtain ⟨ho, hn⟩ := List.nodup_cons.1 hn
    rw [publishOutputs, List.forall_mem_cons]
    cases hout : s.publishOutput d v o with
    | none =>
      have hcrash := (publishOutput_none s o).1 hout
      rw [hcrash]
      simp
    | some t =>
      have hstep := publishOutput_handled hout
      have hlives : s.crashes d o = false := by
        rw [← Bool.not_eq_true, ← publishOutput_none (v := v), hout]
        exact Option.some_ne_none t
      rw [Option.bind_some, ih hn t]
      refine ⟨fun h => ⟨hlives, fun o' ho' => ?_⟩, fun h o' ho' => ?_⟩
      all_goals have hne : o' ≠ o := fun heq => ho (heq ▸ ho')
      · rw [← (hstep.toLocal.same hne).crashes]
        exact h o' ho'
      · rw [(hstep.toLocal.same hne).crashes]
        exact h.2 o' ho'

theorem publishOutputs_append (v : Nat → Server R) (before after : List Nat) (s : State) :
    publishOutputs d v (before ++ after) s = (publishOutputs d v before s).bind (publishOutputs d v after) := by
  induction before generalizing s with
  | nil => rfl
  | cons o before ih =>
    simp only [List.cons_append, publishOutputs]
    rw [Option.bind_assoc]
    congr 1
    funext t
    exact ih t

/-! ## What is published -/

/-- The state before the first output is handled -/
def started (s : State) : State := { s with cache := unuse s.cache }

/-- An output is to be published: it is marked changed itself, or an image of its layer list is marked, or its layer list
is not the one last published. -/
def Due (s : State) (images : List WindowImage) (o : Nat) (frame : FamilyFrame) : Prop :=
  (s.node o).changed = true ∨ (∃ id ∈ frame.images, Marked images id) ∨
    (s.published o).layers ≠ frame.layers.map (·.1)

/-- The layers of an output that can be exported -/
def exportable (d : Desktop) (s : State) (v : Server R) (o : Nat) : List Layer :=
  (s.familyOf d v o ((s.window? d o).getD d.root) (s.collectedFrame d v o)).sent

/-- What a call does for an output that was handled in the state `r`, when `images` were the images in the end -/
structure Exact (d : Desktop) (v : Server R) (images : List WindowImage) (o : Nat) (s r t : State) : Prop where
  due : s.Due images o (r.collectedFrame d v o) → ∃ g f, FamilyMessages s o g ∧
    t.messages o = s.messages o ++ g ++ (r.exportable d v o).map (fun l => Message.event (.layer (s.node o).id l)) ++
      [Message.event (.frame (s.node o).id f)] ∧
    f.revision = ((s.published o).revision + 1) % 2 ^ 64 ∧ (t.published o).revision = f.revision
  not_due : ¬s.Due images o (r.collectedFrame d v o) → ∃ g, FamilyMessages s o g ∧
    t.messages o = s.messages o ++ g ∧ (t.published o).revision = (s.published o).revision

/-- What `loriePublishOutputs` does: every output is published exactly if it is due, and the images are cleared in the end. -/
structure NothingLost (d : Desktop) (v : Server R) (s t : State) : Prop where
  outputs : ∃ u, publishOutputs d (fun _ => v) s.leases.selections s.started = some u ∧
    t.cache = pruneImages d u.cache ∧ ∀ o ∈ s.leases.selections,
      ∃ r, handling d (fun _ => v) o s.leases.selections s.started = some r ∧ Exact d v u.cache.images o s r t
  /-- Until every output was handled, no image loses its mark. -/
  kept : ∀ before, before <+: s.leases.selections → ∃ r, publishOutputs d (fun _ => v) before s.started = some r ∧
    ∀ i ∈ s.cache.images, ∃ j ∈ r.cache.images, Kept i j
  cleared : ∀ i ∈ t.cache.images, i.marked = false

theorem unuse_kept (cache : Cache) : ∀ i ∈ cache.images, ∃ j ∈ (unuse cache).images, Kept i j :=
  fun i hi => ⟨{ i with used := false }, List.mem_map_of_mem hi, rfl, id, .inl rfl⟩

theorem prune_cleared (cache : Cache) : ∀ i ∈ (pruneImages d cache).images, i.marked = false := by
  intro i hi
  obtain ⟨j, -, rfl⟩ := List.mem_map.1 hi
  cases j.damage <;> simp [WindowImage.marked]

/-- Whether an output is due is decided when it is handled. -/
theorem due_iff {s r : State} (hsame : Same o s r) {images : List WindowImage}
    (hc : Collects d v images (r.collectedFrame d v o)) :
    r.due o (r.collectedFrame d v o) = true ↔ s.Due images o (r.collectedFrame d v o) := by
  rw [State.due, Due, Bool.or_eq_true, Bool.or_eq_true, hc.changed, hsame.node, hsame.published, or_assoc,
    decide_eq_true_eq]

theorem exact_of_handled {s r r' t : State} {images : List WindowImage} (hbefore : Same o s r) (hr : Handled d v o r r')
    (hafter : Same o r' t) (hg : Grows d v r'.cache.images images) : Exact d v images o s r t := by
  have hc : Collects d v images (r.collectedFrame d v o) := by
    have hnow : Collects d v r'.cache.images (r.collectedFrame d v o) := by
      rw [hr.cache]
      exact collected_collects
    exact hnow.grow hg
  have hdue := due_iff hbefore hc
  obtain ⟨g, hfam, hsent⟩ := hr.messages_self
  unfold FamilyMessages at hfam
  rw [hbefore.node, hbefore.published] at hfam
  constructor
  · intro hd
    have hd := hdue.2 hd
    refine ⟨g, r.frameOf d v o ((r.window? d o).getD d.root) (r.collectedFrame d v o), hfam, ?_, ?_, ?_⟩
    · rw [hafter.messages, hsent, if_pos hd, hbefore.messages, nextFrame, frameEvents, hbefore.node, List.map_append,
        List.map_map, List.append_assoc, List.append_assoc, List.append_assoc]
      rfl
    · rw [← hbefore.published]
      rfl
    · rw [hafter.published, hr.revision, if_pos hd]
      rfl
  · intro hd
    have hd : ¬r.due o (r.collectedFrame d v o) = true := fun h => hd (hdue.1 h)
    refine ⟨g, hfam, ?_, ?_⟩
    · rw [hafter.messages, hsent, if_neg hd, List.append_nil, hbefore.messages]
    · rw [hafter.published, hr.revision, if_neg hd, hbefore.published]

/-- **No damage is lost between outputs** that share windows, exactly if no dependent output is bound to a window that was
never seen and is not there. -/
theorem publish_exact_iff (s : State) (d : Desktop) (v : Server R) (hn : s.leases.selections.Nodup) :
    (∃ t, s.loriePublishOutputs d (fun _ => v) = some t ∧ NothingLost d v s t) ↔
      ∀ o ∈ s.leases.selections, s.crashes d o = false := by
  have hsome := publishOutputs_isSome (d := d) (v := v) hn s.started
  constructor
  · rintro ⟨t, ht, -⟩
    obtain ⟨u, hu, -⟩ := Option.map_eq_some_iff.1 ht
    exact hsome.1 ⟨u, hu⟩
  · intro hlives
    obtain ⟨u, hu⟩ := hsome.2 hlives
    refine ⟨{ u with cache := pruneImages d u.cache }, Option.map_eq_some_iff.2 ⟨u, hu, rfl⟩, ⟨u, hu, rfl, ?_⟩, ?_, ?_⟩
    · intro o ho
      obtain ⟨-, -, hall⟩ := publishOutputs_spec hn hu
      obtain ⟨r, r', hr, hr', hbefore, hafter, hgrows⟩ := hall o ho
      exact ⟨r, hr, exact_of_handled (s := s) ⟨hbefore.node, hbefore.published, hbefore.messages⟩ hr'
        ⟨hafter.node, hafter.published, hafter.messages⟩ hgrows⟩
    · rintro before ⟨after, heq⟩
      rw [← heq, publishOutputs_append] at hu
      obtain ⟨r, hr, -⟩ := Option.bind_eq_some_iff.1 hu
      refine ⟨r, hr, fun i hi => ?_⟩
      obtain ⟨j, hj, hij⟩ := unuse_kept s.cache i hi
      have hnodup : before.Nodup := (List.nodup_append.1 (heq ▸ hn)).1
      obtain ⟨k, hk, hjk⟩ := (publishOutputs_spec hnodup hr).1.kept j hj
      exact ⟨k, hk, hij.trans hjk⟩
    · exact prune_cleared u.cache

/-! ## Outputs that share a window -/

/-- `LORIE_OUTPUT_BIND` -/
def bindCommand (output window detail : Nat) (x : Int) : Leases.Command :=
  { operation := .bind, down := false, output := output, window := window, x := x, y := 0, detail := detail, serial := 0,
    viewport := ⟨0, 0, 0, 0⟩ }

/-- A server whose windows have pixmaps of their own -/
def plainServer : Server Unit where
  calloc _ := true
  compRedirectWindow _ := true
  GetWindowPixmap w _ := w
  screenPixmap := 1
  DamageCreate _ := true
  pixmapSize _ := (100, 80)
  depth _ := 24
  lorieExportPixmap p := some p
  regions := ⟨(), fun _ _ _ => (), fun _ _ => (), fun _ _ => (), fun _ => [], fun _ => (), fun _ => none⟩

/-- Two outputs bound one after the other; the second may depend on the first. -/
def bound (window second detail : Nat) : State where
  leases :=
    (Leases.State.init.lorieOutputCommand (bindCommand 1 window 0 0)
      ⟨true, fun _ => false, fun _ => true, some 0, Leases.oneKeyTyping false⟩).lorieOutputCommand
      (bindCommand 2 second detail 1) ⟨true, fun _ => false, fun _ => true, some 1, Leases.oneKeyTyping false⟩
  published _ := .zero
  cache := ⟨[], []⟩
  sent := []

/-- A client with a dialog, and the dialog, as outputs -/
theorem publish_exact_shared : ∃ t,
    (bound 11 20 0).loriePublishOutputs Desktop.transientDesktop (fun _ => plainServer) = some t ∧
      NothingLost Desktop.transientDesktop plainServer (bound 11 20 0) t :=
  (publish_exact_iff (bound 11 20 0) Desktop.transientDesktop plainServer (by decide)).2 (by decide)

/-- Window 77 is destroyed before an output, and a second one that depends on it, are bound to it. -/
theorem lost_dependent_crashes :
    ¬∃ t, (bound 77 77 2).loriePublishOutputs Desktop.transientDesktop (fun _ => plainServer) = some t ∧
      NothingLost Desktop.transientDesktop plainServer (bound 77 77 2) t := by
  rintro ⟨t, ht, -⟩
  have hcrash : ((bound 77 77 2).loriePublishOutputs Desktop.transientDesktop fun _ => plainServer).isNone = true := by
    decide
  rw [ht] at hcrash
  cases hcrash

end State

end Lorie.Outputs.Images
