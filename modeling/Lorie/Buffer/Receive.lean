import Lorie.Buffer.Wire

/-!
# What is received

`LorieBuffer_recvHandleFromUnixSocket` makes a buffer only of a record that describes the file or the hardware buffer that
comes with it (`buffer.c`).

- `Describes`: an acceptable layout and format for what is received; `recvHandle_describes`: there is no buffer without;
- `recvHandle_iff`: what was sent is received exactly when its record describes it, in any pieces.
-/

namespace Lorie.Buffer.Wire

open Layout
open Resources.Ancillary (Answer ancilRecvFd)

/-! ## What a record says -/

/-- An image in a file: inside the file, and mapped from the start of a page. -/
structure LorieBufferWire.FitsFile (w : LorieBufferWire) (sizeMax : UInt64) (page : Int64) (extent : UInt64) : Prop where
  format : w.format ∈ acceptedFormats
  layout : Acceptable sizeMax w.width w.stride w.height w.offset
  within : (w.offset.toNat : Int) + imageBytes w.width w.stride w.height ≤ extent.toNat
  room : imageBytes w.width w.stride w.height + w.offset.toNat % page.toInt ≤ sizeMax.toNat

/-- An image in a hardware buffer, as the hardware buffer is described. -/
structure LorieBufferWire.FitsHardware (w : LorieBufferWire) (sizeMax : UInt64) (d : HardwareDesc) : Prop where
  format : w.format ∈ acceptedFormats
  layout : Acceptable sizeMax w.width w.stride w.height w.offset
  offset : w.offset = 0
  layers : d.layers = 1
  width : (d.width.toNat : Int) = w.width.toInt
  height : (d.height.toNat : Int) = w.height.toInt
  stride : (d.stride.toNat : Int) = w.stride.toInt
  described : d.format.toNat = w.format.toNat

/-- A record that describes what is received -/
def Describes (r : Layout.Answers) (w : LorieBufferWire) : Prop :=
  w.reserved = 0 ∧ (w.type = typeFd ∧ w.FitsFile r.sizeMax r.page r.extent ∨
    w.type = typeAHardwareBuffer ∧ w.FitsHardware r.sizeMax r.describe)

section Fits

variable {a : Layout.Answers} {id : UInt64} {width stride height : Int32} {format : UInt8} {buf fd : Option Nat}
  {offset : Int64} {takeFd : Bool} {c : SharedBuffer}

/-- **When `allocate` takes a file.** -/
theorem allocate_file_iff : (∃ c, a.allocate id width stride height format typeFd buf fd offset takeFd = (some c, [])) ↔
    (if takeFd then fd else a.dup).isSome = true ∧ a.fstat.isSome = true ∧ Succeeds a ∧
      LorieBufferWire.FitsFile ⟨id, offset.toUInt64, width, height, stride, format, typeFd, 0⟩ a.sizeMax a.page a.extent := by
  have hfd : typeFd ≠ typeAHardwareBuffer ∧ typeFd ≠ typeRegular := by decide
  have hattach : ∀ {bytes b}, a.attach typeFd bytes takeFd b = a.mapFile bytes takeFd b := by
    intro bytes b
    unfold Layout.Answers.attach
    rw [if_neg hfd.2, if_pos rfl]
  have hkept : (if takeFd then (started id width stride height format typeFd buf fd offset takeFd).fd else a.dup) =
      (if takeFd then fd else a.dup) := by
    cases takeFd <;> rfl
  constructor
  · rintro ⟨c, h⟩
    obtain ⟨-, hbuffer, b, bytes, hb, hformat, hlayout, hok⟩ := allocate_iff.1 h
    rw [if_neg hfd.1] at hb
    cases hb
    rw [hattach] at hok
    obtain ⟨hsome, hstat, hwithin, hpage, hroom, hmmap, hsync⟩ := mapFile_iff.1 ⟨c, hok⟩
    obtain ⟨hacc, hbytes⟩ := (layout_iff _ _ _ _ _ _).1 hlayout
    have hpage := not_page_iff.1 hpage
    exact ⟨hkept ▸ hsome, hstat, ⟨hpage, hmmap, hsync, hbuffer⟩,
      ⟨hformat, hacc, (within_iff hacc hbytes).1 hwithin, (room_iff hpage hacc hbytes).1 hroom⟩⟩
  · rintro ⟨hsome, hstat, hcalls, hfits⟩
    obtain ⟨bytes, hlayout⟩ := layout_of_acceptable hfits.layout
    obtain ⟨-, hbytes⟩ := (layout_iff _ _ _ _ _ _).1 hlayout
    obtain ⟨c, hok⟩ := (mapFile_iff (b := started id width stride height format typeFd buf fd offset takeFd)).2
      ⟨hkept.symm ▸ hsome, hstat, (within_iff hfits.layout hbytes).2 hfits.within, not_page_iff.2 hcalls.page,
        (room_iff hcalls.page hfits.layout hbytes).2 hfits.room, hcalls.mmap, hcalls.sync⟩
    refine ⟨c, allocate_iff.2 ⟨rfl, hcalls.buffer, _, bytes, if_neg hfd.1, hfits.format, hlayout, ?_⟩⟩
    rw [hattach]
    exact hok

/-- A hardware buffer that `allocate` takes is as it is described. -/
theorem allocate_hardware_fits {released : List Release}
    (h : a.allocate id width stride height format typeAHardwareBuffer buf fd 0 takeFd = (some c, released)) :
    (wireOf c).FitsHardware a.sizeMax a.describe := by
  obtain ⟨-, -, -, hoffset, -, -⟩ := allocate_new h
  obtain ⟨-, -, b, bytes, hb, hformat, hlayout, hok⟩ := allocate_iff.1 h
  have heq := (attach_attached a typeAHardwareBuffer bytes takeFd b).1.eq
  rw [hok] at heq
  change c = { b with fd := c.fd, size := c.size, mapping := c.mapping, data := c.data, dmaBuf := c.dmaBuf } at heq
  rw [if_pos rfl] at hb
  obtain ⟨⟨-, hlayers, hwidth, hheight, hstride, hbyte⟩, hshape⟩ := describeHardware_iff.1 hb
  have hb' : (wireOf c).width = b.width ∧ (wireOf c).height = b.height ∧ (wireOf c).stride = b.stride ∧
      (wireOf c).format = b.format := by
    rw [heq]
    exact ⟨rfl, rfl, rfl, rfl⟩
  have hwire : (wireOf c).offset = 0 := congrArg Int64.toUInt64 hoffset
  obtain ⟨hbw, hbh, hbs, hbf⟩ := hb'
  refine ⟨hbf ▸ hformat, ?_, hwire, hlayers, ?_, ?_, ?_, ?_⟩
  · rw [hbw, hbh, hbs, hwire]
    exact ((layout_iff _ _ _ _ _ _).1 hlayout).1
  · rw [hbw, hshape]
    exact (toInt_toInt32 hwidth).symm
  · rw [hbh, hshape]
    exact (toInt_toInt32 hheight).symm
  · rw [hbs, hshape]
    exact (toInt_toInt32 hstride).symm
  · rw [hbf, hshape]
    rw [gt_iff_lt, UInt32.lt_iff_toNat_lt] at hbyte
    simp only [UInt32.reduceToNat, Nat.not_lt] at hbyte
    show a.describe.format.toNat = a.describe.format.toUInt8.toNat
    rw [UInt32.toNat_toUInt8]
    exact (Nat.mod_eq_of_lt (by omega)).symm

/-- A hardware buffer that is described as a record says is taken, with the shape of the record. -/
theorem allocate_hardware_some {w : LorieBufferWire} (hfits : w.FitsHardware a.sizeMax a.describe) (hbuf : buf.isSome = true)
    (hbuffer : a.buffer = true) : ∃ c,
      a.allocate id width stride height format typeAHardwareBuffer buf fd 0 takeFd = (some c, []) ∧
        c.width = w.width ∧ c.height = w.height ∧ c.stride = w.stride ∧ c.format = w.format := by
  obtain ⟨hwidth, hw⟩ := toInt32_of_toNat hfits.width
  obtain ⟨hheight, hh⟩ := toInt32_of_toNat hfits.height
  obtain ⟨hstride, hs⟩ := toInt32_of_toNat hfits.stride
  have hdescribed := hfits.described
  have hbound := w.format.toNat_lt
  have hbyte : ¬ a.describe.format > 255 := by
    rw [gt_iff_lt, UInt32.lt_iff_toNat_lt]
    simp only [UInt32.reduceToNat]
    omega
  have hf : a.describe.format.toUInt8 = w.format := by
    rw [← UInt8.toNat_inj, UInt32.toNat_toUInt8, hdescribed]
    exact Nat.mod_eq_of_lt (by omega)
  obtain ⟨bytes, hlayout⟩ := layout_of_acceptable hfits.layout
  obtain ⟨c, hc, hcw, hch, hcs, hcf⟩ : ∃ c, a.describeHardware buf
      (started id width stride height format typeAHardwareBuffer buf fd 0 takeFd) = some c ∧
        c.width = w.width ∧ c.height = w.height ∧ c.stride = w.stride ∧ c.format = w.format :=
    ⟨_, describeHardware_iff.2 ⟨⟨hbuf, hfits.layers, hwidth, hheight, hstride, hbyte⟩, rfl⟩, hw, hh, hs, hf⟩
  rw [hfits.offset] at hlayout
  refine ⟨c, allocate_iff.2 ⟨rfl, hbuffer, c, bytes, (if_pos rfl).trans hc, hcf ▸ hfits.format, ?_, ?_⟩, hcw, hch, hcs, hcf⟩
  · rw [hcw, hch, hcs]
    exact hlayout
  · unfold Layout.Answers.attach
    rw [if_neg (by decide), if_neg (by decide), if_pos rfl]

end Fits

/-! ## Receiving -/

section Received

variable {header : Nat} {r : Layout.Answers} {id : UInt64} {s : Arrival header} {out : Outcome} {b : SharedBuffer}

/-- **A buffer is received only as its record describes it.** -/
theorem recvHandle_describes (h : recvHandle r id s = some out) (hb : out.buffer = some b) :
    ∃ bytes, lorieReadFully wireSize s.record = some (some bytes) ∧ Describes r (.ofBytes bytes) := by
  obtain ⟨record, hrecord, h⟩ := Option.bind_eq_some_iff.1 h
  cases record with
  | none =>
    cases h
    cases hb
  | some bytes =>
    refine ⟨bytes, hrecord, ?_⟩
    dsimp only at h
    generalize LorieBufferWire.ofBytes bytes = wire at h ⊢
    split at h
    · cases h
      cases hb
    · rename_i hgood
      obtain ⟨hreserved, hrest⟩ := not_or.1 hgood
      have hreserved := not_not.1 hreserved
      refine ⟨hreserved, ?_⟩
      split at h
      · rename_i htype
        obtain ⟨⟨fd, closed⟩, -, h⟩ := Option.map_eq_some_iff.1 h
        dsimp only at h
        cases fd with
        | none =>
          cases h
          cases hb
        | some fd =>
          dsimp only at h
          subst h
          obtain ⟨c, hc, -⟩ := Option.map_eq_some_iff.1 hb
          have hmade : r.allocate id wire.width wire.stride wire.height wire.format wire.type none (some fd)
              wire.offset.toInt64 true = (some c, _) := Prod.ext hc rfl
          have hnothing := (allocate_iff.1 hmade).1
          rw [htype] at hmade hnothing
          rw [hnothing] at hmade
          obtain ⟨-, -, -, hfits⟩ := allocate_file_iff.1 ⟨c, hmade⟩
          exact .inl ⟨htype, hfits.format, hfits.layout, hfits.within, hfits.room⟩
      · split at h
        · rename_i htype
          cases h
          unfold recvHardware at hb
          cases hh : s.hardware with
          | none =>
            rw [hh] at hb
            cases hb
          | some hardware =>
            rw [hh] at hb
            dsimp only at hb
            cases hc : (r.wrapAHardwareBuffer id hardware).1 with
            | none =>
              rw [hc] at hb
              cases hb
            | some c =>
              rw [hc] at hb
              dsimp only at hb
              split at hb
              · cases hb
              · rename_i hsame
                simp only [not_or, not_not, ne_eq] at hsame
                obtain ⟨hw, hht, hs, hf⟩ := hsame
                have hfits := allocate_hardware_fits (c := c) (show r.wrapAHardwareBuffer id hardware = (some c, _) from
                  Prod.ext hc rfl)
                refine .inr ⟨htype.1, hf ▸ hfits.format, ?_, htype.2, hfits.layers, hw ▸ hfits.width, hht ▸ hfits.height,
                  hs ▸ hfits.stride, hf ▸ hfits.described⟩
                have hlayout := hfits.layout
                rw [hfits.offset] at hlayout
                rw [htype.2, ← hw, ← hht, ← hs]
                exact hlayout
        · cases h
          cases hb

/-- A buffer that was received as it was sent -/
structure Restored (b c : SharedBuffer) : Prop where
  new : New c
  id : c.id = b.id
  width : c.width = b.width
  height : c.height = b.height
  stride : c.stride = b.stride
  format : c.format = b.format
  type : c.type = b.type
  offset : c.offset = b.offset

/-- The descriptor or the hardware buffer of a buffer arrives, as `n`. -/
structure Carries (s : Arrival header) (b : SharedBuffer) (n : Nat) : Prop where
  file : b.type = typeFd → ∃ interruptions a rest, s.ancillary = interruptions ++ a :: rest ∧
    (∀ x ∈ interruptions, x.Interrupted) ∧ a.IsDescriptor n
  hardware : b.type = typeAHardwareBuffer → s.hardware = some (some n)

/-- One descriptor behind interruptions is taken. -/
theorem ancilRecvFd_descriptor {n : Nat} (interruptions : List (Answer header)) {a : Answer header}
    {rest : List (Answer header)} (h : ∀ x ∈ interruptions, x.Interrupted) (ha : a.IsDescriptor n) :
    ancilRecvFd (interruptions ++ a :: rest) = some (some n, []) := by
  induction interruptions with
  | nil =>
    cases a with
    | failed errno set => exact ha.elim
    | message k first trunc ctrunc control =>
      obtain ⟨rfl, rfl, rfl, hrights⟩ := ha
      rw [List.nil_append, Resources.Ancillary.ancilRecvFd_message, hrights]
      rfl
  | cons x interruptions ih =>
    obtain ⟨set, rfl⟩ := h x List.mem_cons_self
    exact ih fun y hy => h y (List.mem_cons_of_mem _ hy)

theorem recvFile_some {wire : LorieBufferWire} {ancillary : List (Answer header)} {n : Nat} {c : SharedBuffer}
    (ha : ancilRecvFd ancillary = some (some n, []))
    (hc : r.allocate id wire.width wire.stride wire.height wire.format wire.type none (some n) wire.offset.toInt64 true =
      (some c, [])) :
    recvFile r id wire ancillary = some ⟨some { c with id := wire.id }, (arrived ancillary).map .close, []⟩ := by
  unfold recvFile
  rw [ha, Option.map_some]
  dsimp only
  rw [hc]
  rfl

theorem recvHardware_some {wire : LorieBufferWire} {n : Nat} {c : SharedBuffer}
    (hc : r.wrapAHardwareBuffer id (some n) = (some c, []))
    (hsame : c.width = wire.width ∧ c.height = wire.height ∧ c.stride = wire.stride ∧ c.format = wire.format) :
    recvHardware r id wire (some (some n)) = ⟨some { c with id := wire.id }, [.hardware n], []⟩ := by
  unfold recvHardware
  dsimp only
  rw [hc]
  dsimp only
  rw [if_neg (by simp [hsame])]
  rfl

/-- **A buffer crosses the socket exactly when its record describes what is received**, in any pieces. -/
theorem recvHandle_iff {answers : List Send} {written : List UInt8} {n : Nat}
    (hsend : sendHandle b answers true = some (true, written)) (hrecord : Fragments s.record written)
    (hcarries : Carries s b n) (hcalls : Succeeds r) (hstat : b.type = typeFd → r.fstat.isSome = true) :
    (∃ out c, recvHandle r id s = some out ∧ out.buffer = some c ∧ Restored b c) ↔ Describes r (wireOf b) := by
  have hwritten : written = (wireOf b).bytes := by
    unfold sendHandle at hsend
    split at hsend
    · cases hsend
    · obtain ⟨⟨ok, bytes⟩, hw, hsend⟩ := Option.map_eq_some_iff.1 hsend
      cases ok with
      | false => cases hsend
      | true =>
        cases hsend
        exact writeFully_written hw
  subst hwritten
  have hread : lorieReadFully wireSize s.record = some (some (wireOf b).bytes) := by
    rw [← (wireOf b).bytes_length]
    exact readFully_fragments hrecord
  constructor
  · rintro ⟨out, c, hout, hc, -⟩
    obtain ⟨bytes, hbytes, hdescribes⟩ := recvHandle_describes hout hc
    rw [hread] at hbytes
    cases hbytes
    rwa [LorieBufferWire.ofBytes_bytes] at hdescribes
  · rintro ⟨-, hfits⟩
    have hlayout : Acceptable r.sizeMax (wireOf b).width (wireOf b).stride (wireOf b).height (wireOf b).offset := by
      rcases hfits with ⟨-, h⟩ | ⟨-, h⟩
      · exact h.layout
      · exact h.layout
    obtain ⟨bytes, hbytes⟩ := layout_of_acceptable hlayout
    unfold recvHandle
    rw [hread, Option.bind_some]
    dsimp only
    rw [LorieBufferWire.ofBytes_bytes, hbytes, if_neg (by rintro (h | h | h) <;> [exact h rfl; cases h; exact h rfl])]
    rcases hfits with ⟨htype, hfits⟩ | ⟨htype, hfits⟩
    · rw [if_pos htype]
      obtain ⟨interruptions, a, rest, hancillary, hall, ha⟩ := hcarries.file htype
      obtain ⟨c, hc⟩ : ∃ c, r.allocate id (wireOf b).width (wireOf b).stride (wireOf b).height (wireOf b).format
          (wireOf b).type none (some n) (wireOf b).offset.toInt64 true = (some c, []) := by
        rw [htype]
        exact allocate_file_iff.2 ⟨rfl, hstat htype, hcalls, ⟨hfits.format, hfits.layout, hfits.within, hfits.room⟩⟩
      obtain ⟨hnew, -, hctype, hoffset, -, hshape⟩ := allocate_new hc
      obtain ⟨hw, hh, hs, hf⟩ := hshape (by rw [htype]; decide)
      refine ⟨_, _, recvFile_some ?_ hc, rfl, ⟨hnew.refcount, hnew.locked, hnew.lockedData, hnew.graphicsImage⟩, rfl, hw, hh, hs,
        hf, hctype, hoffset⟩
      rw [hancillary]
      exact ancilRecvFd_descriptor interruptions hall ha
    · rw [if_neg (by rw [htype]; decide), if_pos ⟨htype, hfits.offset⟩, hcarries.hardware htype]
      obtain ⟨c, hc, hw, hh, hs, hf⟩ : ∃ c, r.wrapAHardwareBuffer id (some n) = (some c, []) ∧ c.width = (wireOf b).width ∧
          c.height = (wireOf b).height ∧ c.stride = (wireOf b).stride ∧ c.format = (wireOf b).format :=
        allocate_hardware_some hfits rfl hcalls.buffer
      obtain ⟨hnew, -, hctype, hoffset, -, -⟩ := allocate_new hc
      refine ⟨_, _, congrArg some (recvHardware_some hc ⟨hw, hh, hs, hf⟩), rfl,
        ⟨hnew.refcount, hnew.locked, hnew.lockedData, hnew.graphicsImage⟩, rfl, hw, hh, hs, hf, hctype.trans htype.symm,
        hoffset.trans ?_⟩
      have hzero : b.offset.toUInt64.toInt64 = (0 : UInt64).toInt64 := congrArg UInt64.toInt64 hfits.offset
      exact hzero.symm

/-- **A record that ends too early gives no buffer**, and takes nothing out of the socket. -/
theorem recvHandle_truncated (h : Truncated s.record wireSize) : recvHandle r id s = some ⟨none, [], []⟩ := by
  unfold recvHandle
  rw [(readFully_truncated h).2]
  rfl

/-- **A record that does not describe what is received gives no buffer**, and everything that was received is given back. -/
theorem recvHandle_rejects {bytes : List UInt8} (hrecord : Fragments s.record bytes) (hlength : bytes.length = wireSize)
    (hanswers : ancilRecvFd s.ancillary ≠ none) (h : ¬ Describes r (.ofBytes bytes)) :
    ∃ out, recvHandle r id s = some out ∧ out.buffer = none ∧ (out.released.filter isHandle).Perm out.received := by
  have hread : lorieReadFully wireSize s.record = some (some bytes) := hlength ▸ readFully_fragments hrecord
  obtain ⟨out, hout⟩ : ∃ out, recvHandle r id s = some out := by
    unfold recvHandle
    rw [hread, Option.bind_some]
    dsimp only
    split
    · exact ⟨_, rfl⟩
    · split
      · obtain ⟨answer, hanswer⟩ := Option.ne_none_iff_exists'.1 hanswers
        unfold recvFile
        rw [hanswer, Option.map_some]
        exact ⟨_, rfl⟩
      · split <;> exact ⟨_, rfl⟩
  have hnone : out.buffer = none := by
    refine Option.eq_none_iff_forall_not_mem.2 fun c hc => h ?_
    obtain ⟨bytes', hbytes', hdescribes⟩ := recvHandle_describes hout hc
    rw [hread] at hbytes'
    cases hbytes'
    exact hdescribes
  have haccounts := recvHandle_accounts hout
  unfold Outcome.Accounted at haccounts
  rw [hnone] at haccounts
  exact ⟨out, hout, hnone, haccounts⟩

end Received

end Lorie.Buffer.Wire
