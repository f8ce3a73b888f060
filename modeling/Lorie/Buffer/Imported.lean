import Mathlib.Data.List.Perm.Basic
import Mathlib.Data.List.Nodup
import Mathlib.Data.List.Range
import Mathlib.Logic.Function.Basic

/-!
# The lists of imported buffers

The renderer keeps the buffers that it received in `addedBuffers`, `buffers` and `removedBuffers`, which share the link of a
buffer (`renderer.cpp`). The looper adds and removes buffers, the worker attaches images to them and releases the removed
ones, and each locked section is a step. A buffer is named by how many were received before it.

- `Lists`: the three lists; `all_addToList`: a buffer moves between them;
- `Renderer`: the steps of the looper, and `workerStep`;
- `Inv`: each buffer is in one place, and the looper releases none that has an image.
-/

namespace Lorie.Imports

/-! ## The lists -/

/-- The head of a list -/
inductive Head where
  | added
  | buffers
  | removed
  deriving DecidableEq, Repr

/-- `addedBuffers`, `buffers` and `removedBuffers`, from the first. -/
structure Lists where
  added : List Nat
  buffers : List Nat
  removed : List Nat
  deriving DecidableEq, Repr

namespace Lists

def all (l : Lists) : List Nat := l.added ++ l.buffers ++ l.removed

/-- What `findBuffer` finds -/
def present (l : Lists) : List Nat := l.added ++ l.buffers

/-- `xorg_list_del`, whichever list the buffer is in -/
def del (l : Lists) (b : Nat) : Lists := ⟨l.added.erase b, l.buffers.erase b, l.removed.erase b⟩

/-- `xorg_list_add` -/
def add (l : Lists) (b : Nat) : Head → Lists
  | .added => { l with added := b :: l.added }
  | .buffers => { l with buffers := b :: l.buffers }
  | .removed => { l with removed := b :: l.removed }

/-- `LorieBuffer_addToList` -/
def addToList (l : Lists) (b : Nat) (list : Head) : Lists := (l.del b).add b list

variable {l : Lists} {b : Nat}

theorem all_del (h : l.all.Nodup) : (l.del b).all = l.all.erase b := by
  obtain ⟨hab, -, hr⟩ := List.nodup_append'.1 h
  obtain ⟨-, -, hb⟩ := List.nodup_append'.1 hab
  unfold all del
  by_cases h₁ : b ∈ l.added
  · rw [List.erase_append_left _ (List.mem_append_left _ h₁), List.erase_append_left _ h₁,
      List.erase_of_not_mem (hb h₁), List.erase_of_not_mem (hr (List.mem_append_left _ h₁))]
  · by_cases h₂ : b ∈ l.buffers
    · rw [List.erase_append_left _ (List.mem_append_right _ h₂), List.erase_append_right _ h₁,
        List.erase_of_not_mem h₁, List.erase_of_not_mem (hr (List.mem_append_right _ h₂))]
    · have h₁₂ : b ∉ l.added ++ l.buffers := fun h => (List.mem_append.1 h).elim h₁ h₂
      rw [List.erase_append_right _ h₁₂, List.erase_of_not_mem h₁, List.erase_of_not_mem h₂]

theorem all_add (list : Head) : (l.add b list).all.Perm (b :: l.all) := by
  unfold all
  cases list with
  | added => exact .refl _
  | buffers => exact (List.perm_middle.append_right _).trans (.refl _)
  | removed => exact List.perm_middle

/-- A buffer of the lists moves to one of them. -/
theorem all_addToList (h : l.all.Nodup) (hb : b ∈ l.all) (list : Head) : (l.addToList b list).all.Perm l.all := by
  refine (all_add list).trans ?_
  rw [all_del h]
  exact (List.perm_cons_erase hb).symm

theorem del_of_notMem (h : b ∉ l.all) : l.del b = l := by
  have hall := fun hm => h (List.mem_append.2 (.inl (List.mem_append.2 hm)))
  unfold del
  rw [List.erase_of_not_mem fun hm => hall (.inl hm), List.erase_of_not_mem fun hm => hall (.inr hm),
    List.erase_of_not_mem fun hm => h (List.mem_append_right _ hm)]

theorem mem_all : b ∈ l.all ↔ b ∈ l.added ∨ b ∈ l.buffers ∨ b ∈ l.removed := by
  simp only [all, List.mem_append, or_assoc]

end Lists

/-! ## The renderer -/

inductive Thread where
  | looper
  | worker
  deriving DecidableEq, Repr

/-- What the worker is about to do. -/
inductive Worker where
  | idle
  /-- `attachBuffer` -/
  | attaching (buffer : Nat)
  /-- `LorieBuffer_release` of a buffer that it took out of `removedBuffers`. -/
  | releasing (buffer : Nat)
  /-- The last loop over `removedBuffers` in `releaseGraphics` -/
  | retiring
  | ended
  deriving DecidableEq, Repr

/-- The buffer that the worker took out of the lists -/
def Worker.held : Worker → List Nat
  | releasing b => [b]
  | _ => []

structure Renderer where
  /-- `desc.id` -/
  id : Nat → Nat
  received : Nat
  lists : Lists
  graphicsImage : Nat → Bool
  stopping : Bool
  worker : Worker
  /-- History: which buffers were released, and by which thread. -/
  released : List (Nat × Thread)

namespace Renderer

def init : Renderer where
  id := fun _ => 0
  received := 0
  lists := ⟨[], [], []⟩
  graphicsImage := fun _ => false
  stopping := false
  worker := .idle
  released := []

variable (r : Renderer)

/-- Where the buffers are -/
def places : List Nat := r.lists.all ++ r.worker.held ++ r.released.map Prod.fst

/-- The ids that `findBuffer` finds -/
def presentIds : List Nat := r.lists.present.map r.id

/-- `LorieBufferList_findById` -/
def findById (list : List Nat) (id : Nat) : Option Nat := list.find? fun b => r.id b = id

/-- `LorieBuffer_addToList` -/
def addToList (b : Nat) (list : Head) : Renderer := { r with lists := r.lists.addToList b list }

/-- `LorieBuffer_release`; an imported buffer has one reference. -/
def release (thread : Thread) (b : Nat) : Renderer :=
  { r with
    lists := r.lists.del b
    released := (b, thread) :: r.released }

/-- `while ((buffer = LorieBufferList_first(&addedBuffers))) LorieBuffer_release(buffer);`, at most so many turns -/
def releaseAdded (thread : Thread) : Nat → Renderer → Renderer
  | 0, r => r
  | n + 1, r =>
    match r.lists.added with
    | [] => r
    | b :: _ => releaseAdded thread n (r.release thread b)

/-- `while ((buffer = LorieBufferList_first(&buffers))) LorieBuffer_addToList(buffer, &removedBuffers);` -/
def retireBuffers : Nat → Renderer → Renderer
  | 0, r => r
  | n + 1, r =>
    match r.lists.buffers with
    | [] => r
    | b :: _ => retireBuffers n (r.addToList b .removed)

/-- `removeAllBuffers`; a turn makes the list shorter. -/
def removeAllBuffers (thread : Thread) : Renderer :=
  let r := releaseAdded thread r.lists.added.length r
  retireBuffers r.lists.buffers.length r

/-! ### The looper -/

/-- `addBuffer` of a buffer that was received -/
def addBuffer (id : Nat) : Renderer :=
  { r with
    id := Function.update r.id r.received id
    received := r.received + 1
    lists := r.lists.addToList r.received .added
    graphicsImage := Function.update r.graphicsImage r.received false }

/-- `removeBuffer` -/
def removeBuffer (id : Nat) : Renderer :=
  match r.findById r.lists.added id with
  | some b => r.release .looper b
  | none =>
    match r.findById r.lists.buffers id with
    | some b => r.addToList b .removed
    | none => r

/-! ### The worker -/

/-- A step of the worker -/
inductive Step where
  /-- The locked section of `findBuffer` -/
  | findBuffer (id : Nat)
  /-- The locked section of the loop over `addedBuffers` -/
  | takeAdded
  /-- `attachBuffer`; `ok`: there is an image. -/
  | attach (ok : Bool)
  /-- The locked section of the loop over `removedBuffers` -/
  | takeRemoved
  /-- `LorieBuffer_release` -/
  | release
  /-- `removeAllBuffers` in `releaseGraphics` -/
  | releaseGraphics
  /-- A turn of the last loop in `releaseGraphics` -/
  | retire
  deriving DecidableEq, Repr

/-- A buffer that is found goes on to `attachBuffer`. -/
def attachNext (b : Nat) : Renderer := { r with worker := .attaching b }

def workerStep : Step → Option Renderer
  | .findBuffer id =>
    if r.worker = .idle then
      match r.findById r.lists.buffers id with
      | some b => some (r.attachNext b)
      | none =>
        match r.findById r.lists.added id with
        | some b => some ((r.addToList b .buffers).attachNext b)
        | none => some r
    else none
  | .takeAdded =>
    if r.worker = .idle then
      match r.lists.added with
      | [] => some r
      | b :: _ => some ((r.addToList b .buffers).attachNext b)
    else none
  | .attach ok =>
    match r.worker with
    | .attaching b =>
      some { r with
        graphicsImage := if r.graphicsImage b then r.graphicsImage else Function.update r.graphicsImage b ok
        worker := .idle }
    | _ => none
  | .takeRemoved =>
    if r.worker = .idle then
      match r.lists.removed with
      | [] => some r
      | b :: _ => some { r with lists := r.lists.del b, worker := .releasing b }
    else none
  | .release =>
    match r.worker with
    | .releasing b => some { r.release .worker b with worker := .idle }
    | _ => none
  | .releaseGraphics =>
    if r.worker = .idle ∧ r.stopping then some { r.removeAllBuffers .worker with worker := .retiring } else none
  | .retire =>
    if r.worker = .retiring then
      match r.lists.removed with
      | [] => some { r with worker := .ended }
      | b :: _ => some (r.release .worker b)
    else none

/-! ## The invariant -/

/-- Each buffer is in one place, and one that has an image is out of the looper's reach. -/
structure Inv (r : Renderer) : Prop where
  places : r.places.Perm (List.range r.received)
  added : ∀ b ∈ r.lists.added, r.graphicsImage b = false
  looper : ∀ b, (b, .looper) ∈ r.released → r.graphicsImage b = false
  attaching : ∀ b, r.worker = .attaching b → b ∈ r.lists.buffers ∨ b ∈ r.lists.removed
  retiring : r.worker = .retiring → r.stopping = true ∧ r.lists.present = []
  ended : r.worker = .ended → r.stopping = true ∧ r.lists.all = []

variable {r} {b : Nat}

theorem inv_init : Inv init where
  places := .refl _
  added := fun b h => absurd h List.not_mem_nil
  looper := fun b h => absurd h List.not_mem_nil
  attaching := fun b h => by cases h
  retiring := fun h => by cases h
  ended := fun h => by cases h

namespace Inv

theorem nodup (h : r.Inv) : r.places.Nodup := h.places.nodup_iff.2 List.nodup_range

theorem all_nodup (h : r.Inv) : r.lists.all.Nodup :=
  (List.nodup_append'.1 (List.nodup_append'.1 h.nodup).1).1

theorem lt (h : r.Inv) (hb : b ∈ r.places) : b < r.received := List.mem_range.1 (h.places.mem_iff.1 hb)

/-- A buffer of the lists was not released. -/
theorem not_released (h : r.Inv) (hb : b ∈ r.lists.all) (t : Thread) : (b, t) ∉ r.released := fun hr =>
  (List.nodup_append'.1 h.nodup).2.2 (List.mem_append_left _ hb) (List.mem_map.2 ⟨(b, t), hr, rfl⟩)

/-- The buffer that the worker attaches an image to is not in `addedBuffers`. -/
theorem attaching_ne (h : r.Inv) (hb : b ∈ r.lists.added) {c : Nat} (hc : r.worker = .attaching c) : c ≠ b := by
  rintro rfl
  obtain ⟨hab, -, hr⟩ := List.nodup_append'.1 h.all_nodup
  rcases h.attaching c hc with hc | hc
  · exact (List.nodup_append'.1 hab).2.2 hb hc
  · exact hr (List.mem_append_left _ hb) hc

/-- Moves to `buffers` and `removedBuffers`, until the worker ends. -/
theorem addToList (h : r.Inv) (hb : b ∈ r.lists.all) {list : Head} (hlist : list ≠ .added) (hretiring : r.worker ≠ .retiring)
    (hended : r.worker ≠ .ended) : (r.addToList b list).Inv where
  places := by
    refine .trans ?_ h.places
    exact ((Lists.all_addToList h.all_nodup hb list).append_right _).append_right _
  added := by
    intro c hc
    cases list with
    | added => exact absurd rfl hlist
    | buffers => exact h.added c (List.mem_of_mem_erase hc)
    | removed => exact h.added c (List.mem_of_mem_erase hc)
  looper := h.looper
  attaching := by
    intro c hc
    have hmem := h.attaching c hc
    by_cases hcb : c = b
    · rw [hcb]
      cases list with
      | added => exact absurd rfl hlist
      | buffers => exact .inl List.mem_cons_self
      | removed => exact .inr List.mem_cons_self
    · have herase : ∀ {l : List Nat}, c ∈ l → c ∈ l.erase b := fun hm => (List.mem_erase_of_ne hcb).2 hm
      cases list with
      | added => exact absurd rfl hlist
      | buffers => exact hmem.imp (fun hm => List.mem_cons_of_mem _ (herase hm)) herase
      | removed => exact hmem.imp herase fun hm => List.mem_cons_of_mem _ (herase hm)
  retiring := fun hw => absurd hw hretiring
  ended := fun hw => absurd hw hended

/-- A buffer of the lists is released: by the looper while it has no image, and not the one that the worker attaches to. -/
theorem release (h : r.Inv) (hb : b ∈ r.lists.all) {t : Thread} (ht : t = .looper → r.graphicsImage b = false)
    (hne : ∀ c, r.worker = .attaching c → c ≠ b) : (r.release t b).Inv where
  places := by
    refine .trans ?_ h.places
    unfold Renderer.places Renderer.release
    rw [Lists.all_del h.all_nodup, List.map_cons]
    refine List.perm_middle.trans ?_
    rw [← List.cons_append, ← List.cons_append]
    exact ((List.perm_cons_erase hb).symm.append_right _).append_right _
  added := fun c hc => h.added c (List.mem_of_mem_erase hc)
  looper := by
    intro c hc
    rcases List.mem_cons.1 hc with hc | hc
    · cases hc
      exact ht rfl
    · exact h.looper c hc
  attaching := fun c hc => (h.attaching c hc).imp (List.mem_erase_of_ne (hne c hc)).2 (List.mem_erase_of_ne (hne c hc)).2
  retiring := by
    intro hw
    obtain ⟨hstop, hpresent⟩ := h.retiring hw
    obtain ⟨hadded, hbuffers⟩ := List.append_eq_nil_iff.1 hpresent
    refine ⟨hstop, ?_⟩
    unfold Lists.present Renderer.release Lists.del
    dsimp only
    rw [hadded, hbuffers]
    rfl
  ended := fun hw => by
    rw [(h.ended hw).2] at hb
    cases hb

end Inv

/-- What the loops of `removeAllBuffers` keep. -/
structure Looped (r s : Renderer) : Prop where
  inv : s.Inv
  id : s.id = r.id
  received : s.received = r.received
  worker : s.worker = r.worker
  stopping : s.stopping = r.stopping

theorem releaseAdded_spec (t : Thread) (n : Nat) (h : r.Inv) (hn : n = r.lists.added.length) :
    Looped r (releaseAdded t n r) ∧ (releaseAdded t n r).lists.added = [] := by
  induction n generalizing r with
  | zero => exact ⟨⟨h, rfl, rfl, rfl, rfl⟩, List.length_eq_zero_iff.1 hn.symm⟩
  | succ n ih =>
    unfold releaseAdded
    cases hadded : r.lists.added with
    | nil =>
      rw [hadded] at hn
      cases hn
    | cons b rest =>
      have hb : b ∈ r.lists.added := hadded ▸ List.mem_cons_self
      have hrelease := h.release (Lists.mem_all.2 (.inl hb)) (t := t) (fun _ => h.added b hb) fun c hc => h.attaching_ne hb hc
      have hrest : (r.release t b).lists.added = rest := by
        show r.lists.added.erase b = rest
        rw [hadded, List.erase_cons_head]
      obtain ⟨hlooped, hnil⟩ := ih hrelease (by rw [hrest]; simpa [hadded] using hn)
      exact ⟨⟨hlooped.inv, hlooped.id, hlooped.received, hlooped.worker, hlooped.stopping⟩, hnil⟩

theorem retireBuffers_spec (n : Nat) (h : r.Inv) (hn : n = r.lists.buffers.length) (hadded : r.lists.added = [])
    (hretiring : r.worker ≠ .retiring) (hended : r.worker ≠ .ended) :
    Looped r (retireBuffers n r) ∧ (retireBuffers n r).lists.present = [] := by
  induction n generalizing r with
  | zero =>
    refine ⟨⟨h, rfl, rfl, rfl, rfl⟩, ?_⟩
    exact List.append_eq_nil_iff.2 ⟨hadded, List.length_eq_zero_iff.1 hn.symm⟩
  | succ n ih =>
    unfold retireBuffers
    cases hbuffers : r.lists.buffers with
    | nil =>
      rw [hbuffers] at hn
      cases hn
    | cons b rest =>
      have hb : b ∈ r.lists.buffers := hbuffers ▸ List.mem_cons_self
      have hmove := h.addToList (Lists.mem_all.2 (.inr (.inl hb))) (by decide : Head.removed ≠ .added) hretiring hended
      have hrest : (r.addToList b .removed).lists.buffers = rest := by
        show r.lists.buffers.erase b = rest
        rw [hbuffers, List.erase_cons_head]
      have hnone : (r.addToList b .removed).lists.added = [] := by
        show r.lists.added.erase b = []
        rw [hadded]
        rfl
      obtain ⟨hlooped, hnil⟩ := ih hmove (by rw [hrest]; simpa [hbuffers] using hn) hnone hretiring hended
      exact ⟨⟨hlooped.inv, hlooped.id, hlooped.received, hlooped.worker, hlooped.stopping⟩, hnil⟩

/-- `removeAllBuffers` leaves no buffer that is found. -/
theorem removeAllBuffers_spec (t : Thread) (h : r.Inv) (hretiring : r.worker ≠ .retiring) (hended : r.worker ≠ .ended) :
    Looped r (r.removeAllBuffers t) ∧ (r.removeAllBuffers t).lists.present = [] := by
  obtain ⟨h₁, hadded⟩ := releaseAdded_spec t _ h rfl
  obtain ⟨h₂, hpresent⟩ := retireBuffers_spec _ h₁.inv rfl hadded (h₁.worker ▸ hretiring) (h₁.worker ▸ hended)
  exact ⟨⟨h₂.inv, h₂.id.trans h₁.id, h₂.received.trans h₁.received, h₂.worker.trans h₁.worker,
    h₂.stopping.trans h₁.stopping⟩, hpresent⟩

/-! ## The steps -/

theorem findById_some {list : List Nat} {id : Nat} (h : r.findById list id = some b) : b ∈ list ∧ r.id b = id :=
  ⟨List.mem_of_find?_eq_some h, by simpa using List.find?_some h⟩

theorem findById_none {list : List Nat} {id : Nat} (h : r.findById list id = none) : id ∉ list.map r.id := by
  intro hm
  obtain ⟨b, hb, rfl⟩ := List.mem_map.1 hm
  exact absurd (List.find?_eq_none.1 h b hb) (by simp)

/-- The ids of a list that a buffer leaves -/
theorem map_erase {f : Nat → Nat} {l : List Nat} (h : b ∈ l) : ((l.erase b).map f).Perm ((l.map f).erase (f b)) := by
  have hmap := (List.perm_cons_erase h).map f
  have herase := hmap.erase (f b)
  rw [List.map_cons, List.erase_cons_head] at herase
  exact herase.symm

namespace Inv

theorem not_retiring (h : r.Inv) (hstop : r.stopping = false) : r.worker ≠ .retiring := by
  intro hw
  rw [(h.retiring hw).1] at hstop
  cases hstop

theorem not_ended (h : r.Inv) (hstop : r.stopping = false) : r.worker ≠ .ended := by
  intro hw
  rw [(h.ended hw).1] at hstop
  cases hstop

/-- The next buffer is in no place. -/
theorem fresh (h : r.Inv) : r.received ∉ r.places := fun hm => Nat.lt_irrefl _ (h.lt hm)

end Inv

section Looper

variable (h : r.Inv)

include h

theorem addBuffer_lists (id : Nat) : (r.addBuffer id).lists = { r.lists with added := r.received :: r.lists.added } := by
  have hall : r.received ∉ r.lists.all := fun hm =>
    h.fresh (List.mem_append_left _ (List.mem_append_left _ hm))
  unfold addBuffer Lists.addToList
  dsimp only
  rw [Lists.del_of_notMem hall]
  rfl

theorem addBuffer_inv (hstop : r.stopping = false) (id : Nat) : (r.addBuffer id).Inv := by
  have hlists := addBuffer_lists h id
  have himage : ∀ c, c < r.received → (r.addBuffer id).graphicsImage c = r.graphicsImage c := fun c hc =>
    Function.update_of_ne (Nat.ne_of_lt hc) _ _
  refine ⟨?_, ?_, ?_, ?_, fun hw => absurd hw (h.not_retiring hstop), fun hw => absurd hw (h.not_ended hstop)⟩
  · have hplaces : (r.addBuffer id).places = r.received :: r.places := by
      unfold places
      rw [hlists]
      rfl
    rw [hplaces, show (r.addBuffer id).received = r.received + 1 from rfl, List.range_succ]
    exact (h.places.cons _).trans (List.perm_append_singleton _ _).symm
  · intro c hc
    rw [hlists] at hc
    rcases List.mem_cons.1 hc with rfl | hc
    · exact Function.update_self _ _ _
    · rw [himage c (h.lt (List.mem_append_left _ (List.mem_append_left _ (Lists.mem_all.2 (.inl hc)))))]
      exact h.added c hc
  · intro c hc
    rw [himage c (h.lt (List.mem_append_right _ (List.mem_map.2 ⟨_, hc, rfl⟩)))]
    exact h.looper c hc
  · intro c hc
    rw [hlists]
    exact h.attaching c hc

theorem addBuffer_ids (id : Nat) : (r.addBuffer id).presentIds = id :: r.presentIds := by
  have hne : ∀ c ∈ r.lists.present, Function.update r.id r.received id c = r.id c := by
    intro c hc
    refine Function.update_of_ne (fun e => h.fresh ?_) _ _
    rw [← e]
    exact List.mem_append_left _ (List.mem_append_left _ (List.mem_append_left _ hc))
  unfold presentIds
  rw [addBuffer_lists h]
  show Function.update r.id r.received id r.received :: r.lists.present.map (Function.update r.id r.received id) = _
  rw [Function.update_self, List.map_congr_left hne]

theorem removeBuffer_inv (hstop : r.stopping = false) (id : Nat) : (r.removeBuffer id).Inv := by
  unfold removeBuffer
  split
  · rename_i b hb
    have hmem := (findById_some hb).1
    exact h.release (Lists.mem_all.2 (.inl hmem)) (fun _ => h.added b hmem) fun c hc => h.attaching_ne hmem hc
  · split
    · rename_i b hb
      exact h.addToList (Lists.mem_all.2 (.inr (.inl (findById_some hb).1))) (by decide) (h.not_retiring hstop)
        (h.not_ended hstop)
    · exact h

theorem removeBuffer_ids (id : Nat) : (r.removeBuffer id).presentIds.Perm (r.presentIds.erase id) := by
  obtain ⟨-, -, hdisjoint⟩ := List.nodup_append'.1 (List.nodup_append'.1 h.all_nodup).1
  unfold removeBuffer presentIds Lists.present
  split
  · rename_i b hb
    obtain ⟨hmem, rfl⟩ := findById_some hb
    show ((r.lists.added.erase b ++ r.lists.buffers.erase b).map r.id).Perm _
    rw [List.erase_of_not_mem (hdisjoint hmem), ← List.erase_append_left _ hmem]
    exact map_erase (List.mem_append_left _ hmem)
  · rename_i hadded
    have hnone := findById_none hadded
    split
    · rename_i b hb
      obtain ⟨hmem, rfl⟩ := findById_some hb
      have hb' : b ∉ r.lists.added := fun hm => hdisjoint hm hmem
      show ((r.lists.added.erase b ++ r.lists.buffers.erase b).map r.id).Perm _
      rw [List.erase_of_not_mem hb', ← List.erase_append_right _ hb']
      exact map_erase (List.mem_append_right _ hmem)
    · rename_i hbuffers
      have hid : id ∉ (r.lists.added ++ r.lists.buffers).map r.id := by
        rw [List.map_append]
        exact fun hm => (List.mem_append.1 hm).elim hnone (findById_none hbuffers)
      rw [List.erase_of_not_mem hid]

end Looper

/-- A buffer that the worker finds in `addedBuffers` is found in `buffers` then. -/
theorem addToList_present (h : r.Inv) (hb : b ∈ r.lists.added) : (r.addToList b .buffers).lists.present.Perm r.lists.present := by
  obtain ⟨-, -, hdisjoint⟩ := List.nodup_append'.1 (List.nodup_append'.1 h.all_nodup).1
  show (r.lists.added.erase b ++ b :: r.lists.buffers.erase b).Perm (r.lists.added ++ r.lists.buffers)
  rw [List.erase_of_not_mem (hdisjoint hb)]
  refine List.perm_middle.trans ?_
  rw [← List.cons_append]
  exact (List.perm_cons_erase hb).symm.append_right _

/-- The worker goes on to attach an image to a buffer. -/
theorem attachNext_inv (h : r.Inv) (hidle : r.worker = .idle) (hb : b ∈ r.lists.buffers) : (r.attachNext b).Inv where
  places := by
    refine .trans (.of_eq ?_) h.places
    unfold places attachNext
    rw [hidle]
    rfl
  added := h.added
  looper := h.looper
  attaching := by
    intro c hc
    cases hc
    exact .inl hb
  retiring := fun hw => by cases hw
  ended := fun hw => by cases hw

/-- The worker takes a buffer of `addedBuffers`. -/
theorem takeAdded_inv (h : r.Inv) (hidle : r.worker = .idle) (hb : b ∈ r.lists.added) :
    ((r.addToList b .buffers).attachNext b).Inv := by
  have hmove := h.addToList (Lists.mem_all.2 (.inl hb)) (by decide : Head.buffers ≠ .added)
    (by rw [hidle]; decide) (by rw [hidle]; decide)
  exact attachNext_inv hmove hidle List.mem_cons_self

/-- **Every step of the worker keeps each buffer in one place.** -/
theorem workerStep_inv {a : Step} {s : Renderer} (h : r.Inv) (hs : r.workerStep a = some s) : s.Inv := by
  unfold workerStep at hs
  cases a with
  | findBuffer id =>
    dsimp only at hs
    split at hs
    · rename_i hidle
      split at hs
      · rename_i b hb
        cases hs
        exact attachNext_inv h hidle (findById_some hb).1
      · split at hs
        · rename_i b hb
          cases hs
          exact takeAdded_inv h hidle (findById_some hb).1
        · cases hs
          exact h
    · cases hs
  | takeAdded =>
    dsimp only at hs
    split at hs
    · rename_i hidle
      split at hs
      · cases hs
        exact h
      · rename_i b rest hb
        cases hs
        exact takeAdded_inv h hidle (hb ▸ List.mem_cons_self)
    · cases hs
  | attach ok =>
    dsimp only at hs
    split at hs
    · rename_i b hw
      cases hs
      -- the buffer is neither in `addedBuffers` nor released
      have hall : b ∈ r.lists.all := Lists.mem_all.2 (.inr (h.attaching b hw))
      have himage : ∀ c, c ≠ b → (if r.graphicsImage b then r.graphicsImage else Function.update r.graphicsImage b ok) c =
          r.graphicsImage c := by
        intro c hc
        split
        · rfl
        · exact Function.update_of_ne hc _ _
      refine ⟨?_, ?_, ?_, ?_, ?_, ?_⟩
      · refine .trans (.of_eq ?_) h.places
        unfold places
        rw [hw]
        rfl
      · intro c hc
        exact (himage c (h.attaching_ne hc hw).symm).trans (h.added c hc)
      · intro c hc
        refine (himage c ?_).trans (h.looper c hc)
        rintro rfl
        exact h.not_released hall _ hc
      · exact fun c hc => by cases hc
      · exact fun hc => by cases hc
      · exact fun hc => by cases hc
    · cases hs
  | takeRemoved =>
    dsimp only at hs
    split at hs
    · rename_i hidle
      split at hs
      · cases hs
        exact h
      · rename_i b rest hb
        cases hs
        have hall : b ∈ r.lists.all := Lists.mem_all.2 (.inr (.inr (hb ▸ List.mem_cons_self)))
        refine ⟨?_, fun c hc => h.added c (List.mem_of_mem_erase hc), h.looper, ?_, ?_, ?_⟩
        · refine .trans ?_ h.places
          unfold places
          rw [Lists.all_del h.all_nodup, hidle]
          refine List.Perm.append_right _ ?_
          rw [show Worker.held .idle = [] from rfl, List.append_nil]
          exact (List.perm_append_singleton _ _).trans (List.perm_cons_erase hall).symm
        · exact fun c hc => by cases hc
        · exact fun hc => by cases hc
        · exact fun hc => by cases hc
    · cases hs
  | release =>
    dsimp only at hs
    split at hs
    · rename_i b hw
      cases hs
      have hb : b ∉ r.lists.all := fun hm =>
        (List.nodup_append'.1 (List.nodup_append'.1 h.nodup).1).2.2 hm (by rw [hw]; exact List.mem_singleton_self b)
      refine ⟨?_, fun c hc => h.added c (List.mem_of_mem_erase hc), ?_, ?_, ?_, ?_⟩
      · refine .trans (.of_eq ?_) h.places
        unfold places Renderer.release
        dsimp only
        rw [Lists.del_of_notMem hb, hw]
        simp [Worker.held]
      · intro c hc
        rcases List.mem_cons.1 hc with hc | hc
        · cases hc
        · exact h.looper c hc
      · exact fun c hc => by cases hc
      · exact fun hc => by cases hc
      · exact fun hc => by cases hc
    · cases hs
  | releaseGraphics =>
    dsimp only at hs
    split at hs
    · rename_i hg
      cases hs
      obtain ⟨hl, hpresent⟩ := removeAllBuffers_spec .worker h (by rw [hg.1]; decide) (by rw [hg.1]; decide)
      refine ⟨?_, hl.inv.added, hl.inv.looper, ?_, fun _ => ⟨hl.stopping.trans hg.2, hpresent⟩, ?_⟩
      · refine .trans (.of_eq ?_) hl.inv.places
        unfold places
        rw [hl.worker, hg.1]
        rfl
      · exact fun c hc => by cases hc
      · exact fun hc => by cases hc
    · cases hs
  | retire =>
    dsimp only at hs
    split at hs
    · rename_i hw
      obtain ⟨hstop, hpresent⟩ := h.retiring hw
      split at hs
      · rename_i hnil
        cases hs
        refine ⟨?_, h.added, h.looper, ?_, ?_, fun _ => ⟨hstop, ?_⟩⟩
        · refine .trans (.of_eq ?_) h.places
          unfold places
          rw [hw]
          rfl
        · exact fun c hc => by cases hc
        · exact fun hc => by cases hc
        · exact List.append_eq_nil_iff.2 ⟨hpresent, hnil⟩
      · rename_i b rest hb
        cases hs
        refine h.release (Lists.mem_all.2 (.inr (.inr (hb ▸ List.mem_cons_self)))) (fun e => by cases e) fun c hc => ?_
        rw [hw] at hc
        cases hc
    · cases hs

theorem workerStep_stopping {a : Step} {s : Renderer} (h : r.Inv) (hs : r.workerStep a = some s) :
    s.stopping = r.stopping := by
  unfold workerStep at hs
  cases a <;> dsimp only at hs <;> split at hs
  case releaseGraphics.isTrue hg =>
    cases hs
    exact (removeAllBuffers_spec .worker h (by rw [hg.1]; decide) (by rw [hg.1]; decide)).1.stopping
  all_goals first
    | cases hs <;> rfl
    | (split at hs <;> first
      | cases hs <;> rfl
      | (split at hs <;> cases hs <;> rfl))

/-- The worker moves buffers within what is found, until it ends. -/
theorem workerStep_ids {a : Step} {s : Renderer} (h : r.Inv) (hs : r.workerStep a = some s) (hstop : r.stopping = false) :
    s.presentIds.Perm r.presentIds := by
  unfold workerStep at hs
  cases a with
  | findBuffer id =>
    dsimp only at hs
    split at hs
    · split at hs
      · cases hs
        exact .refl _
      · split at hs
        · rename_i b hb
          cases hs
          exact (addToList_present h (findById_some hb).1).map _
        · cases hs
          exact .refl _
    · cases hs
  | takeAdded =>
    dsimp only at hs
    split at hs
    · split at hs
      · cases hs
        exact .refl _
      · rename_i b rest hb
        cases hs
        exact (addToList_present h (hb ▸ List.mem_cons_self)).map _
    · cases hs
  | attach ok =>
    dsimp only at hs
    split at hs
    · cases hs
      exact .refl _
    · cases hs
  | takeRemoved =>
    dsimp only at hs
    split at hs
    · split at hs
      · cases hs
        exact .refl _
      · rename_i b rest hb
        cases hs
        have hnot : b ∉ r.lists.added ++ r.lists.buffers := fun hm =>
          (List.nodup_append'.1 h.all_nodup).2.2 hm (hb ▸ List.mem_cons_self)
        refine .of_eq (congrArg (List.map r.id) ?_)
        show r.lists.added.erase b ++ r.lists.buffers.erase b = _
        rw [List.erase_of_not_mem fun hm => hnot (List.mem_append_left _ hm),
          List.erase_of_not_mem fun hm => hnot (List.mem_append_right _ hm)]
        rfl
    · cases hs
  | release =>
    dsimp only at hs
    split at hs
    · rename_i b hw
      cases hs
      have hb : b ∉ r.lists.all := fun hm =>
        (List.nodup_append'.1 (List.nodup_append'.1 h.nodup).1).2.2 hm (by rw [hw]; exact List.mem_singleton_self b)
      refine .of_eq (congrArg (fun l : Lists => l.present.map r.id) ?_)
      exact Lists.del_of_notMem hb
    · cases hs
  | releaseGraphics =>
    dsimp only at hs
    rw [hstop] at hs
    split at hs
    · rename_i hg
      exact absurd hg.2 Bool.false_ne_true
    · cases hs
  | retire =>
    dsimp only at hs
    split at hs
    · rename_i hw
      exact absurd hw (h.not_retiring hstop)
    · cases hs

end Renderer

end Lorie.Imports
