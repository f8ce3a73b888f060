import Lorie.Connection.Fragment
import Lorie.Cursor.Picture

/-!
# The cursor on its way to the host

- `Bytes.u32_fields`: the fields of a record are read back;
- `told`: what a callback of the host says about the cursor;
- `lorieSendCursor_told`: the event of `cursor.c` is one that the host accepts, and the host is told what the variables stand
  for.
-/

namespace Lorie.Cursor

open Connection

/-! ## Fields of a record -/

namespace Bytes

theorem u8_append_right (first rest : Bytes) (i : Nat) : Bytes.u8 (first ++ rest) (first.length + i) = rest.u8 i := by
  unfold Bytes.u8
  rw [List.getD_append_right _ _ _ _ (Nat.le_add_right _ _), Nat.add_sub_cancel_left]

theorem u32_append_right (first rest : Bytes) (i : Nat) : Bytes.u32 (first ++ rest) (first.length + i) = rest.u32 i := by
  unfold Bytes.u32
  simp only [Nat.add_assoc first.length, u8_append_right]

theorem u32_little {n : Nat} (hn : n < 2 ^ 32) (rest : Bytes) : Bytes.u32 (little 4 n ++ rest) 0 = n := by
  simp [Bytes.u32, Bytes.u8, little, List.range_succ]
  omega

/-- The bytes of some fields -/
def fields (ns : List Nat) : Bytes := ns.flatMap (little 4)

@[simp] theorem fields_length (ns : List Nat) : (fields ns).length = 4 * ns.length := by
  induction ns with
  | nil => rfl
  | cons n ns ih =>
    simp only [fields, List.flatMap_cons, List.length_append, little_length, List.length_cons] at ih ⊢
    omega

/-- **A field is read back.** -/
theorem u32_fields (ns : List Nat) {i : Nat} (hi : i < ns.length) (hn : ns[i] < 2 ^ 32) (rest : Bytes) :
    Bytes.u32 (fields ns ++ rest) (4 * i) = ns[i] := by
  induction ns generalizing i with
  | nil => cases hi
  | cons n ns ih =>
    have hsplit : fields (n :: ns) ++ rest = little 4 n ++ (fields ns ++ rest) := by simp [fields]
    rw [hsplit]
    cases i with
    | zero => exact u32_little hn _
    | succ i =>
      have hplace : 4 * (i + 1) = (little 4 n).length + 4 * i := by
        rw [little_length]
        omega
      rw [hplace, u32_append_right]
      exact ih (by simpa using hi) hn

theorem fields_take (ns : List Nat) (n : Nat) : (fields ns).take (n * 4) = fields (ns.take n) := by
  induction ns generalizing n with
  | nil => simp [fields]
  | cons m ns ih =>
    cases n with
    | zero => simp [fields]
    | succ n =>
      have hplace : (n + 1) * 4 = (little 4 m).length + n * 4 := by
        rw [little_length]
        omega
      have hrest := ih n
      simp only [fields, List.flatMap_cons, List.take_succ_cons] at hrest ⊢
      rw [hplace, List.take_length_add_append, hrest]

/-- A field of a part of a record -/
theorem u32_slice (bs : Bytes) {i j n : Nat} (h : j + 4 ≤ n) : Bytes.u32 (bs.slice i n) j = bs.u32 (i + j) := by
  have hbyte : ∀ k < n, Bytes.u8 (bs.slice i n) k = bs.u8 (i + k) := by
    intro k hk
    simp [Bytes.u8, Bytes.slice, List.getD_eq_getElem?_getD, hk]
  unfold Bytes.u32
  rw [hbyte j (by omega), hbyte (j + 1) (by omega), hbyte (j + 2) (by omega), hbyte (j + 3) (by omega)]
  rfl

end Bytes

/-! ## What the host is told -/

/-- The picture of the record and the pixels that the callback gets -/
def decode (info : Bytes) (pixels : Bytes) : Picture :=
  match info.u32 0 with
  | 0 => .default
  | 1 => .hidden
  | _ => .image (info.u32 4) (info.u32 8) (info.u32 12) (info.u32 16)
      ((List.range (info.u32 4 * info.u32 8)).map fun i => premultiply (.ofNat 32 (pixels.u32 (4 * i))))

/-- The output, the window and the picture of a cursor callback -/
def told : Callback → Option (Nat × Nat × Picture)
  | .cursor output window info pixels => some (output, window, decode info (pixels.getD []))
  | _ => none

/-- The fields of a cursor event fit. -/
structure Fits (v : Variables) : Prop where
  length : v.cursorPixels.length = pixelLimit
  valid : lorieCursorValid v.cursorInfo = true
  output : v.cursorOutput < 2 ^ 32
  window : v.cursorWindow < 2 ^ 32

section Event

variable {v : Variables}

/-- The fields behind the type -/
def eventFields (v : Variables) : List Nat :=
  [v.cursorOutput, v.cursorWindow, Variables.kindNumber v.cursorInfo.kind, v.cursorInfo.width, v.cursorInfo.height,
    v.cursorInfo.hotspotX, v.cursorInfo.hotspotY]

theorem event_eq (v : Variables) :
    v.event = [32, 0, 0, 0] ++ (Bytes.fields (eventFields v) ++ List.replicate (eventSize - 32) 0) := by
  have hfirst : [32, 0, 0, 0] ++ little 4 v.cursorOutput ++ little 4 v.cursorWindow ++
      little 4 (Variables.kindNumber v.cursorInfo.kind) ++ little 4 v.cursorInfo.width ++ little 4 v.cursorInfo.height ++
      little 4 v.cursorInfo.hotspotX ++ little 4 v.cursorInfo.hotspotY = [32, 0, 0, 0] ++ Bytes.fields (eventFields v) := by
    simp [Bytes.fields, eventFields]
  have hlength : ([32, 0, 0, 0] ++ Bytes.fields (eventFields v)).length = 32 := by simp [eventFields]
  unfold Variables.event eventOf
  rw [hfirst, hlength, List.append_assoc]

theorem event_length (v : Variables) : v.event.length = eventSize := by
  apply eventOf_length
  simp [eventSize]

theorem event_type (v : Variables) : Bytes.type v.event = .outputCursor := by
  rw [event_eq]
  rfl

/-- The sizes of a valid record -/
theorem info_bounds {info : LorieCursorInfo} (h : lorieCursorValid info = true) : info.width ≤ cursorSizeLimit ∧
    info.height ≤ cursorSizeLimit ∧ info.hotspotX ≤ cursorSizeLimit ∧ info.hotspotY ≤ cursorSizeLimit := by
  unfold lorieCursorValid at h
  split at h
  · simp at h
    omega
  · simp at h
    omega
  · simp at h
    omega

theorem kindNumber_lt (kind : Kind) : Variables.kindNumber kind < 2 ^ 32 := by
  cases kind <;> decide

/-- The fields of the event -/
theorem event_fields (h : Fits v) : Bytes.u32 v.event 4 = v.cursorOutput ∧ Bytes.u32 v.event 8 = v.cursorWindow ∧
    Bytes.u32 v.event 12 = Variables.kindNumber v.cursorInfo.kind ∧ Bytes.u32 v.event 16 = v.cursorInfo.width ∧
    Bytes.u32 v.event 20 = v.cursorInfo.height ∧ Bytes.u32 v.event 24 = v.cursorInfo.hotspotX ∧
    Bytes.u32 v.event 28 = v.cursorInfo.hotspotY := by
  obtain ⟨hw, hh, hx, hy⟩ := info_bounds h.valid
  have hlimit : cursorSizeLimit < 2 ^ 32 := by decide
  have hall : ∀ n ∈ eventFields v, n < 2 ^ 32 := by
    simp only [eventFields, List.forall_mem_cons, List.not_mem_nil, false_implies, implies_true, and_true]
    exact ⟨h.output, h.window, kindNumber_lt _, by omega, by omega, by omega, by omega⟩
  have hfield (i : Nat) (hi : i < 7) : Bytes.u32 v.event (4 + 4 * i) = (eventFields v)[i] := by
    rw [event_eq]
    exact (Bytes.u32_append_right [32, 0, 0, 0] _ (4 * i)).trans
      (Bytes.u32_fields (eventFields v) hi (hall _ (List.getElem_mem hi)) _)
  exact ⟨hfield 0 (by decide), hfield 1 (by decide), hfield 2 (by decide), hfield 3 (by decide), hfield 4 (by decide),
    hfield 5 (by decide), hfield 6 (by decide)⟩

/-- The event has a valid record, and as many bytes of pixels as the image. -/
theorem event_valid (h : Fits v) : Bytes.cursorValid v.event = true ∧
    Bytes.cursorSize v.event = lorieCursorPixelCount v.cursorInfo * 4 := by
  obtain ⟨-, -, hkind, hw, hh, hx, hy⟩ := event_fields h
  have hvalid : Bytes.cursorValid v.event = true := by
    have hinfo := h.valid
    unfold lorieCursorValid at hinfo
    unfold Bytes.cursorValid
    simp only [hkind, hw, hh, hx, hy]
    cases hk : v.cursorInfo.kind with
    | default => simpa [hk, Variables.kindNumber] using hinfo
    | hidden => simpa [hk, Variables.kindNumber] using hinfo
    | image =>
      simp [hk, Variables.kindNumber] at hinfo ⊢
      exact hinfo
  refine ⟨hvalid, ?_⟩
  unfold Bytes.cursorSize lorieCursorPixelCount
  rw [if_pos hvalid, if_pos h.valid, hw, hh]

/-- The pixels of the event are those of the image. -/
theorem pixels_le (h : Fits v) : lorieCursorPixelCount v.cursorInfo ≤ v.cursorPixels.length := by
  obtain ⟨hw, hh, -, -⟩ := info_bounds h.valid
  unfold lorieCursorPixelCount
  rw [if_pos h.valid, h.length]
  exact Nat.mul_le_mul hw hh

/-- The bytes of `cursorPixels` -/
theorem pixelBytes (pixels : List (BitVec 32)) :
    (pixels.flatMap fun pixel => little 4 pixel.toNat) = Bytes.fields (pixels.map BitVec.toNat) := by
  simp [Bytes.fields, List.flatMap_map]

/-- A host that shows cursors accepts the event. -/
theorem lorieSendCursor_valid (h : Fits v) (houtput : v.cursorOutput ≠ 0) : v.lorieSendCursor.Valid := by
  obtain ⟨hvalid, hsize⟩ := event_valid h
  refine ⟨event_length v, event_type v, ?_, hvalid, ?_⟩
  · rw [(event_fields h).1]
    exact houtput
  · have hle := pixels_le h
    rw [hsize, pixelBytes, Bytes.fields_length, List.length_map]
    omega

/-- The pixels are read back. -/
theorem decoded_pixels (pixels : List (BitVec 32)) :
    ((List.range pixels.length).map fun i =>
      premultiply (.ofNat 32 (Bytes.u32 (Bytes.fields (pixels.map BitVec.toNat)) (4 * i)))) = pixels.map premultiply := by
  apply List.ext_getElem
  · simp
  · intro j hj hj'
    have hlt : j < (pixels.map BitVec.toNat).length := by simpa using hj'
    have hread := Bytes.u32_fields _ hlt (by simpa using BitVec.isLt _) []
    rw [List.append_nil] at hread
    simp [hread]

/-- A record with its pixels is decoded. -/
theorem decode_eq {info bytes : Bytes} {i : LorieCursorInfo} {pixels : List (BitVec 32)}
    (hkind : info.u32 0 = Variables.kindNumber i.kind) (hw : info.u32 4 = i.width) (hh : info.u32 8 = i.height)
    (hx : info.u32 12 = i.hotspotX) (hy : info.u32 16 = i.hotspotY) (hlength : i.width * i.height ≤ pixels.length)
    (hbytes : i.kind = .image → bytes = Bytes.fields ((pixels.take (i.width * i.height)).map BitVec.toNat)) :
    decode info bytes = pictureOf i pixels := by
  unfold decode pictureOf
  rw [hkind]
  cases hk : i.kind with
  | default => rfl
  | hidden => rfl
  | image =>
    show Picture.image _ _ _ _ _ = Picture.image _ _ _ _ _
    rw [hw, hh, hx, hy, hbytes hk]
    have hcount : (pixels.take (i.width * i.height)).length = i.width * i.height := List.length_take_of_le hlength
    have hdecoded := decoded_pixels (pixels.take (i.width * i.height))
    rw [hcount] at hdecoded
    rw [hdecoded]

/-- The pixels that are sent -/
theorem sent_pixels (h : Fits v) : (v.cursorPixels.flatMap fun pixel => little 4 pixel.toNat).take (Bytes.cursorSize v.event) =
    Bytes.fields ((v.cursorPixels.take (lorieCursorPixelCount v.cursorInfo)).map BitVec.toNat) := by
  rw [(event_valid h).2, pixelBytes, Bytes.fields_take, List.map_take]

/-- **The host is told** the output, the window and the picture that the variables stand for. -/
theorem lorieSendCursor_told (h : Fits v) {cb : Callbacks} (hcb : cb.cursor = true) :
    (v.lorieSendCursor.callbacks cb).map told = [some (v.cursorOutput, v.cursorWindow, v.shown)] := by
  obtain ⟨houtput, hwindow, hkind, hw, hh, hx, hy⟩ := event_fields h
  have hslice (j : Nat) (hj : j + 4 ≤ 20) : Bytes.u32 (v.event.slice 12 20) j = Bytes.u32 v.event (12 + j) :=
    Bytes.u32_slice v.event hj
  have hcount := pixels_le h
  unfold lorieCursorPixelCount at hcount
  rw [if_pos h.valid] at hcount
  have hcalls : v.lorieSendCursor.callbacks cb = [.cursor (Bytes.u32 v.event 4) (Bytes.u32 v.event 8) (v.event.slice 12 20)
      (if Bytes.cursorSize v.event ≠ 0 then
        some ((v.cursorPixels.flatMap fun pixel => little 4 pixel.toNat).take (Bytes.cursorSize v.event)) else none)] := by
    have hgiven : given cb.cursor = fun call => [call] := by
      unfold given
      simp [hcb]
    show given cb.cursor _ = _
    rw [hgiven]
  rw [hcalls, List.map_singleton, told, houtput, hwindow]
  have hdecode : decode (v.event.slice 12 20) ((if Bytes.cursorSize v.event ≠ 0 then
      some ((v.cursorPixels.flatMap fun pixel => little 4 pixel.toNat).take (Bytes.cursorSize v.event)) else none).getD []) =
      v.shown := by
    refine decode_eq ((hslice 0 (by decide)).trans hkind) ((hslice 4 (by decide)).trans hw) ((hslice 8 (by decide)).trans hh)
      ((hslice 12 (by decide)).trans hx) ((hslice 16 (by decide)).trans hy) hcount fun hk => ?_
    have hsize : Bytes.cursorSize v.event ≠ 0 := by
      have hvalid := h.valid
      unfold lorieCursorValid at hvalid
      rw [(event_valid h).2, lorieCursorPixelCount, if_pos h.valid]
      simp [hk] at hvalid ⊢
      exact hvalid.1.1.1.1
    rw [if_pos hsize, Option.getD_some, sent_pixels h, lorieCursorPixelCount, if_pos h.valid]
  rw [hdecode]

end Event

end Lorie.Cursor
