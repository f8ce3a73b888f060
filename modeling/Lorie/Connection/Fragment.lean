import Lorie.Connection.Receive

/-!
# Fragmentation does not matter

Whatever pieces `recv` gives, the host makes the callbacks of the events that were sent, in order.

- `Sent.callbacks`: what the host is to be told of an event;
- `Synced`: the connection stands between two events, in a header or in the payload of the first event that is not
  handled (`Synced.receive`, `run_synced`);
- `fragmented_calls`: the callbacks are those of the unfragmented stream, no header is read from a payload, the
  connection stays, and no buffer overflows.
-/

namespace Lorie.Connection

open Lorie.Lib

/-! ## What the host is to be told -/

/-- A call that is made when the host gave the callback. -/
def given (g : Bool) (f : Callback) : List Callback := if g then [f] else []

/-- The callback of a window. -/
def windowCallback (event : Bytes) (icon : Option Bytes) : Callback :=
  let h := Conn.endTexts event
  .window (h.u32 4) (if h.u8 1 ≠ 0 then none else some ⟨h, icon⟩)

namespace Sent

/-- The callbacks for an event. -/
def callbacks (cb : Callbacks) : Sent → List Callback
  | outputFrame event =>
    match event.type with
    | .outputFrame =>
      [.setOutputFrame event,
        .frame (event.u32 4) (event.u32 8) (event.u32 12) (event.u32 16) (event.u64 24 ≠ 0)]
    | .outputLayer => [.setOutputFrame event]
    | .outputWindowsDone => [.windowsCommitted]
    | .windowGesture => given cb.windowGesture (.windowGesture (event.u32 4) (event.u32 8))
    | .shellState => given cb.shellState (.shellState (event.u32 4) (event.u8 13 ≠ 0))
    | .inspectionNode =>
      let h : Bytes := event.set 239 0
      [.inspectionNode (h.u32 4) (h.slice 8 232)]
    | .inspectionDone => [.inspectionDone (event.u32 4) (event.slice 8 28)]
    | .outputWindow => [windowCallback event none]
    | _ => []
  | windowInfo event icon => [windowCallback event (if event.hasIcon then some icon else none)]
  | shellInfo event info => given cb.shell (.shell (event.u32 4) (event.u32 8) info)
  | familyGeometry output info => given cb.family (.family ((familyGeometry output info).header.u32 4) info)
  | cursor event pixels =>
    given cb.cursor (.cursor (event.u32 4) (event.u32 8) (event.slice 12 20)
      (if event.cursorSize ≠ 0 then some (pixels.take event.cursorSize) else none))
  | dataEvent data descriptor => [.data (dataEvent data descriptor).header descriptor]
  | sharedServerState memfd => [.setSharedState memfd]
  | registerBuffer buffer => [.addBuffer buffer]
  | unregisterBuffer id => [.removeBuffer ((unregisterBuffer id).header.u64 8)]
  | syncReply _ | focusChanged => []

end Sent

/-! ## Payloads -/

/-- The buffers for payloads. -/
inductive Slot where
  | window
  | cursor
  | shell
  | family
  deriving DecidableEq, Repr

/-- The memory of a slot, where it is fixed. -/
def Slot.size : Slot → Option Nat
  | .window => some iconSize
  | .cursor => none
  | .shell => some shellSize
  | .family => some familySize

namespace Conn

def buffer (c : Conn) : Slot → Buffer UInt8
  | .window => c.windowIcon
  | .cursor => c.cursorPixels
  | .shell => c.shellInfo
  | .family => c.familyInfo

def pending (c : Conn) : Slot → Bool
  | .window => c.windowPending
  | .cursor => c.cursorPending
  | .shell => c.shellPending
  | .family => c.familyPending

/-- The function that reads a payload. -/
def receivePayload (cb : Callbacks) (c : Conn) (r : Read) : Slot → Conn
  | .window => c.receiveWindow r
  | .cursor => c.receiveCursor cb r
  | .shell => c.receiveShell cb r
  | .family => c.receiveFamily cb r

end Conn

/-- The payload of an event and where it is read to. -/
def Sent.payload : Sent → Option (Slot × Bytes)
  | windowInfo event icon => if event.hasIcon then some (.window, icon) else none
  | cursor event pixels => if event.cursorSize ≠ 0 then some (.cursor, pixels.take event.cursorSize) else none
  | shellInfo _ info => info.map (.shell, ·)
  | familyGeometry _ info => some (.family, info)
  | _ => none

/-- The events with a payload. -/
theorem Sent.payload_cases {e : Sent} {slot : Slot} {bytes : Bytes} (h : e.payload = some (slot, bytes)) :
    (∃ event, e = windowInfo event bytes ∧ slot = .window ∧ event.hasIcon = true) ∨
    (∃ event pixels, e = cursor event pixels ∧ slot = .cursor ∧ event.cursorSize ≠ 0 ∧
      bytes = pixels.take event.cursorSize) ∨
    (∃ event, e = shellInfo event (some bytes) ∧ slot = .shell) ∨
    (∃ output, e = familyGeometry output bytes ∧ slot = .family) := by
  cases e with
  | windowInfo event icon =>
    simp only [Sent.payload] at h
    split at h
    · rename_i hi
      cases h
      exact .inl ⟨event, rfl, rfl, hi⟩
    · cases h
  | cursor event pixels =>
    simp only [Sent.payload] at h
    split at h
    · rename_i hsize
      cases h
      exact .inr (.inl ⟨event, pixels, rfl, rfl, hsize, rfl⟩)
    · cases h
  | shellInfo event info =>
    cases info with
    | none => cases h
    | some i =>
      cases h
      exact .inr (.inr (.inl ⟨event, rfl, rfl⟩))
  | familyGeometry output info =>
    cases h
    exact .inr (.inr (.inr ⟨output, rfl, rfl⟩))
  | _ => cases h

/-- A payload is what is written behind the header. -/
theorem Sent.body_payload {e : Sent} {slot : Slot} {bytes : Bytes} (h : e.payload = some (slot, bytes)) :
    e.body = bytes.map .data := by
  rcases e.payload_cases h with ⟨event, rfl, -, hi⟩ | ⟨event, pixels, rfl, -, -, rfl⟩ | ⟨event, rfl, -⟩ | ⟨output, rfl, -⟩
  · exact if_pos hi
  · rfl
  · rfl
  · rfl

section Sync

variable (cb : Callbacks)

/-- The memory of the header and of the slots of fixed size. -/
structure Conn.Sized (c : Conn) : Prop where
  header : c.header.memory.length = eventSize
  slots : ∀ slot n, slot.size = some n → (c.buffer slot).memory.length = n

/-- No payload is read into the slot. -/
def Conn.Quiet (c : Conn) (slot : Slot) : Prop := c.pending slot = false ∧ (c.buffer slot).filled = 0

/-- The events `done` are handled, and the stream goes on with `es`. -/
structure Between (c : Conn) (done es : List Sent) : Prop where
  connected : c.connected = true
  sized : c.Sized
  quiet : ∀ slot, c.Quiet slot
  filled : c.header.filled = 0
  stream : c.stream = encode es
  calls : c.calls = done.flatMap (Sent.callbacks cb)
  headers : c.headers = done.map Sent.header

/-- The header of `e` is being read. -/
structure InHeader (c : Conn) (done : List Sent) (e : Sent) (es : List Sent) : Prop where
  connected : c.connected = true
  sized : c.Sized
  quiet : ∀ slot, c.Quiet slot
  filling : Filling c.header e.header (e.body ++ encode es) c.stream
  calls : c.calls = done.flatMap (Sent.callbacks cb)
  headers : c.headers = done.map Sent.header

/-- The payload of `e` is being read. -/
structure InPayload (c : Conn) (done : List Sent) (e : Sent) (es : List Sent) (slot : Slot) (bytes : Bytes) : Prop where
  connected : c.connected = true
  sized : c.Sized
  header : c.header = ⟨e.header, 0⟩
  payload : e.payload = some (slot, bytes)
  pending : c.pending slot = true
  quiet : ∀ other, other ≠ slot → c.Quiet other
  filling : Filling (c.buffer slot) bytes (encode es) c.stream
  calls : c.calls = done.flatMap (Sent.callbacks cb)
  headers : c.headers = (done ++ [e]).map Sent.header

/-- Where the connection stands in the stream. -/
inductive Synced (c : Conn) : List Sent → List Sent → Prop
  | atEnd {done : List Sent} : Between cb c done [] → Synced c done []
  | inHeader {done es : List Sent} {e : Sent} : InHeader cb c done e es → Synced c done (e :: es)
  | inPayload {done es : List Sent} {e : Sent} {slot : Slot} {bytes : Bytes} : InPayload cb c done e es slot bytes →
    Synced c done (e :: es)

variable {cb}

/-- Between two events the next header begins. -/
theorem Between.synced {c : Conn} {done es : List Sent} (h : Between cb c done es) (hes : ∀ e ∈ es, e.Valid) :
    Synced cb c done es := by
  cases es with
  | nil => exact .atEnd h
  | cons e es =>
    have hlen := Sent.header_length (hes e List.mem_cons_self)
    refine .inHeader ⟨h.connected, h.sized, h.quiet, ?_, h.calls, h.headers⟩
    refine .start ?_ ?_ h.filled ?_
    · exact Nat.le_of_eq (hlen.trans h.sized.header.symm)
    · rw [hlen]
      decide
    · rw [h.stream, encode, List.flatMap_cons, Sent.items, List.append_assoc]
      rfl

/-- A `recv` into a buffer that is being filled. -/
theorem Conn.recv_filling {c : Conn} {b : Buffer UInt8} {size : Nat} {r : Read} {bytes : Bytes}
    {rest : List (Item UInt8 Mark)} (h : Filling b bytes rest c.stream) (hsize : bytes.length = size) (hr : r ≠ .closed)
    (store : Conn → Buffer UInt8 → Conn) (done : Conn → Conn) :
    (∃ b' s', c.recv b size r store done = store { c with stream := s' } b' ∧ Filling b' bytes rest s' ∧
      b'.memory.length = b.memory.length ∧ s'.length ≤ c.stream.length ∧
      ((∃ k, r = .bytes k) → s'.length < c.stream.length)) ∨
    (∃ b', c.recv b size r store done = done (store { c with stream := rest } b') ∧ b'.memory.take size = bytes ∧
      b'.memory.length = b.memory.length ∧ rest.length < c.stream.length) := by
  subst hsize
  unfold Conn.recv
  rcases h.read hr with ⟨b', s', hread, hfill, hlen, hle, hlt⟩ | ⟨b', s', hread, htake, hlen, rfl, hlt⟩
  · exact .inl ⟨b', s', by rw [hread], hfill, hlen, hle, hlt⟩
  · exact .inr ⟨b', by rw [hread], htake, hlen, hlt⟩

/-! ## Reading a payload -/

/-- The buffer of a slot is replaced. -/
def Conn.store (slot : Slot) (c : Conn) (b : Buffer UInt8) : Conn :=
  match slot with
  | .window => { c with windowIcon := b }
  | .cursor => { c with cursorPixels := b }
  | .shell => { c with shellInfo := b }
  | .family => { c with familyInfo := b }

section Store

variable (slot : Slot) (c : Conn) (b : Buffer UInt8)

@[simp] theorem Conn.store_connected : (c.store slot b).connected = c.connected := by cases slot <;> rfl

@[simp] theorem Conn.store_header : (c.store slot b).header = c.header := by cases slot <;> rfl

@[simp] theorem Conn.store_stream : (c.store slot b).stream = c.stream := by cases slot <;> rfl

@[simp] theorem Conn.store_calls : (c.store slot b).calls = c.calls := by cases slot <;> rfl

@[simp] theorem Conn.store_headers : (c.store slot b).headers = c.headers := by cases slot <;> rfl

@[simp] theorem Conn.store_pending (other : Slot) : (c.store slot b).pending other = c.pending other := by
  cases slot <;> rfl

@[simp] theorem Conn.store_buffer_self : (c.store slot b).buffer slot = b := by cases slot <;> rfl

theorem Conn.store_buffer_ne {other : Slot} (h : other ≠ slot) : (c.store slot b).buffer other = c.buffer other := by
  cases slot <;> cases other <;> first | rfl | exact absurd rfl h

end Store

/-- A buffer of the same size in a slot. -/
theorem Conn.Sized.store {c : Conn} (h : c.Sized) {slot : Slot} {b : Buffer UInt8}
    (hlen : b.memory.length = (c.buffer slot).memory.length) : (c.store slot b).Sized := by
  refine ⟨by rw [Conn.store_header]; exact h.header, ?_⟩
  intro other n hn
  by_cases ho : other = slot
  · subst ho
    rw [Conn.store_buffer_self, hlen]
    exact h.slots other n hn
  · rw [Conn.store_buffer_ne slot c b ho]
    exact h.slots other n hn

theorem Conn.Quiet.store {c : Conn} {slot other : Slot} (h : c.Quiet other) (ho : other ≠ slot) (b : Buffer UInt8) :
    (c.store slot b).Quiet other := by
  unfold Conn.Quiet
  rw [Conn.store_pending, Conn.store_buffer_ne slot c b ho]
  exact h

/-- The payload goes on. -/
theorem InPayload.store {c : Conn} {done es : List Sent} {e : Sent} {slot : Slot} {bytes : Bytes}
    (h : InPayload cb c done e es slot bytes) {b : Buffer UInt8} {s : List (Item UInt8 Mark)}
    (hf : Filling b bytes (encode es) s) (hlen : b.memory.length = (c.buffer slot).memory.length) :
    InPayload cb (Conn.store slot { c with stream := s } b) done e es slot bytes := by
  have hsized : Conn.Sized { c with stream := s } := ⟨h.sized.header, h.sized.slots⟩
  constructor
  · simpa using h.connected
  · exact hsized.store hlen
  · simpa using h.header
  · exact h.payload
  · rw [Conn.store_pending]
    exact h.pending
  · intro other ho
    exact Conn.Quiet.store (c := { c with stream := s }) (h.quiet other ho) ho b
  · rw [Conn.store_buffer_self, Conn.store_stream]
    exact hf
  · simpa using h.calls
  · simpa using h.headers

/-- An event is handled. -/
theorem Between.snoc {c : Conn} {done es : List Sent} {e : Sent} (hconnected : c.connected = true) (hsized : c.Sized)
    (hquiet : ∀ slot, c.Quiet slot) (hfilled : c.header.filled = 0) (hstream : c.stream = encode es)
    (hcalls : c.calls = done.flatMap (Sent.callbacks cb) ++ e.callbacks cb)
    (hheaders : c.headers = (done ++ [e]).map Sent.header) : Between cb c (done ++ [e]) es := by
  refine ⟨hconnected, hsized, hquiet, hfilled, hstream, ?_, hheaders⟩
  rw [hcalls, List.flatMap_append, List.flatMap_singleton]

/-- A buffer that holds the payload and is no longer than it. -/
theorem memory_eq {b : Buffer UInt8} {bytes : Bytes} {n : Nat} (htake : b.memory.take n = bytes)
    (hlen : b.memory.length = n) : b.memory = bytes := by
  rw [← htake, ← hlen, List.take_length]

theorem Conn.call_eq (c : Conn) (g : Bool) (f : Callback) : c.call g f = { c with calls := c.calls ++ given g f } := by
  unfold Conn.call given
  cases g with
  | true => rfl
  | false =>
    simp only [Bool.false_eq_true, if_false, List.append_nil]

@[simp] theorem Conn.call_calls (c : Conn) (g : Bool) (f : Callback) : (c.call g f).calls = c.calls ++ given g f := by
  rw [Conn.call_eq]

/-- Setting the last bytes of the texts keeps the size. -/
theorem endTexts_length (h : Bytes) : (Conn.endTexts h).length = h.length := by
  simp [Conn.endTexts]

theorem endTexts_hasIcon (h : Bytes) : (Conn.endTexts h).hasIcon = h.hasIcon := by
  have hget : (Conn.endTexts h).u8 3 = h.u8 3 := by
    simp only [Conn.endTexts, Bytes.u8, List.getD_eq_getElem?_getD]
    rw [List.getElem?_set_ne (by decide), List.getElem?_set_ne (by decide), List.getElem?_set_ne (by decide)]
  unfold Bytes.hasIcon
  rw [hget]

/-- What `finish` does besides the callback. -/
structure Conn.Settled (slot : Slot) (c c' : Conn) : Prop where
  connected : c'.connected = c.connected
  header : c'.header.memory.length = c.header.memory.length ∧ c'.header.filled = c.header.filled
  quiet : c'.Quiet slot
  memory : (c'.buffer slot).memory = (c.buffer slot).memory
  others : ∀ other, other ≠ slot → c'.pending other = c.pending other ∧ c'.buffer other = c.buffer other
  stream : c'.stream = c.stream
  headers : c'.headers = c.headers

theorem Conn.finishWindow_settled (c : Conn) : Conn.Settled .window c c.finishWindow := by
  refine ⟨rfl, ⟨endTexts_length _, rfl⟩, ⟨rfl, rfl⟩, rfl, ?_, rfl, rfl⟩
  intro other ho
  cases other
  · exact absurd rfl ho
  all_goals exact ⟨rfl, rfl⟩

theorem Conn.finishCursor_settled (c : Conn) : Conn.Settled .cursor c (c.finishCursor cb) := by
  refine ⟨rfl, ⟨rfl, rfl⟩, ⟨rfl, rfl⟩, rfl, ?_, rfl, rfl⟩
  intro other ho
  cases other
  · exact ⟨rfl, rfl⟩
  · exact absurd rfl ho
  all_goals exact ⟨rfl, rfl⟩

theorem Conn.finishShell_settled (c : Conn) : Conn.Settled .shell c (c.finishShell cb) := by
  refine ⟨rfl, ⟨rfl, rfl⟩, ⟨rfl, rfl⟩, rfl, ?_, rfl, rfl⟩
  intro other ho
  cases other
  · exact ⟨rfl, rfl⟩
  · exact ⟨rfl, rfl⟩
  · exact absurd rfl ho
  · exact ⟨rfl, rfl⟩

theorem Conn.finishFamily_settled (c : Conn) : Conn.Settled .family c (c.finishFamily cb) := by
  refine ⟨rfl, ⟨rfl, rfl⟩, ⟨rfl, rfl⟩, rfl, ?_, rfl, rfl⟩
  intro other ho
  cases other
  · exact ⟨rfl, rfl⟩
  · exact ⟨rfl, rfl⟩
  · exact ⟨rfl, rfl⟩
  · exact absurd rfl ho

/-- An event is handled when its slot is settled and its callbacks are made. -/
theorem Between.of_settled {c c' : Conn} {done es : List Sent} {e : Sent} {slot : Slot} (h : Conn.Settled slot c c')
    (hconnected : c.connected = true) (hsized : c.Sized) (hquiet : ∀ other, other ≠ slot → c.Quiet other)
    (hfilled : c.header.filled = 0) (hstream : c.stream = encode es)
    (hcalls : c'.calls = done.flatMap (Sent.callbacks cb) ++ e.callbacks cb)
    (hheaders : c.headers = (done ++ [e]).map Sent.header) : Between cb c' (done ++ [e]) es := by
  refine Between.snoc (h.connected.trans hconnected) ⟨h.header.1.trans hsized.header, ?_⟩ ?_ (h.header.2.trans hfilled)
    (h.stream.trans hstream) hcalls (h.headers.trans hheaders)
  · intro other n hn
    by_cases ho : other = slot
    · subst ho
      rw [h.memory]
      exact hsized.slots other n hn
    · rw [(h.others other ho).2]
      exact hsized.slots other n hn
  · intro other
    by_cases ho : other = slot
    · subst ho
      exact h.quiet
    · unfold Conn.Quiet
      rw [(h.others other ho).1, (h.others other ho).2]
      exact hquiet other ho

/-- The end of the function that reads a payload. -/
def Conn.finish (cb : Callbacks) (c : Conn) : Slot → Conn
  | .window => c.finishWindow
  | .cursor => c.finishCursor cb
  | .shell => if shellInputLimit < Bytes.inputCount c.shellInfo.memory then c.disconnect else c.finishShell cb
  | .family => if shellInputLimit < Bytes.inputCount c.familyInfo.memory then c.disconnect else c.finishFamily cb

/-- What is in the slot when the payload is complete. -/
theorem InPayload.finish {c : Conn} {done es : List Sent} {e : Sent} {slot : Slot} {bytes : Bytes} {b : Buffer UInt8}
    (h : InPayload cb c done e es slot bytes) (he : e.Valid) (htake : b.memory.take bytes.length = bytes)
    (hlen : b.memory.length = (c.buffer slot).memory.length) :
    Between cb (Conn.finish cb (Conn.store slot { c with stream := encode es } b) slot) (done ++ [e]) es := by
  have hsized : (Conn.store slot { c with stream := encode es } b).Sized :=
    Conn.Sized.store (c := { c with stream := encode es }) ⟨h.sized.header, h.sized.slots⟩ hlen
  have hquiet : ∀ other, other ≠ slot → (Conn.store slot { c with stream := encode es } b).Quiet other :=
    fun other ho => Conn.Quiet.store (c := { c with stream := encode es }) (h.quiet other ho) ho b
  have hconnected : (Conn.store slot { c with stream := encode es } b).connected = true := by
    rw [Conn.store_connected]
    exact h.connected
  have hfilled : (Conn.store slot { c with stream := encode es } b).header.filled = 0 := by
    rw [Conn.store_header, h.header]
  have hheaders : (Conn.store slot { c with stream := encode es } b).headers = (done ++ [e]).map Sent.header := by
    rw [Conn.store_headers]
    exact h.headers
  have hhead := h.header
  have hcalls := h.calls
  have hslots := h.sized.slots
  rcases e.payload_cases h.payload with ⟨event, rfl, rfl, hi⟩ | ⟨event, pixels, rfl, rfl, hsize, rfl⟩ | ⟨event, rfl, rfl⟩ |
    ⟨output, rfl, rfl⟩
  · have hmem : b.memory = bytes := memory_eq htake (hlen.trans ((hslots .window _ rfl).trans he.2.2.symm))
    refine .of_settled (Conn.finishWindow_settled _) hconnected hsized hquiet hfilled rfl ?_ hheaders
    simp only [Conn.store, Conn.finish, Conn.finishWindow, Conn.call_calls, hhead, hcalls, Sent.callbacks, hi,
      endTexts_hasIcon, hmem, if_true, Sent.header]
    rfl
  · refine .of_settled (Conn.finishCursor_settled _) hconnected hsized hquiet hfilled rfl ?_ hheaders
    have hsz : (pixels.take event.cursorSize).length = event.cursorSize := by
      rw [List.length_take]
      exact Nat.min_eq_left he.2.2.2.2
    rw [hsz] at htake
    simp only [Conn.store, Conn.finish, Conn.finishCursor, Conn.call_calls, hhead, hcalls, Sent.callbacks, Sent.header,
      htake]
  · obtain ⟨-, -, hrem, hinfo⟩ := he
    obtain ⟨hsz, hcount⟩ := hinfo bytes rfl
    have hmem : b.memory = bytes := memory_eq htake (hlen.trans ((hslots .shell _ rfl).trans hsz.symm))
    have hle : ¬shellInputLimit < Bytes.inputCount b.memory := by
      rw [hmem]
      exact Nat.not_lt.2 hcount
    have hfin : Conn.finish cb (Conn.store .shell { c with stream := encode es } b) .shell =
        (Conn.store .shell { c with stream := encode es } b).finishShell cb := if_neg hle
    rw [hfin]
    refine .of_settled (Conn.finishShell_settled _) hconnected hsized hquiet hfilled rfl ?_ hheaders
    simp only [Conn.store, Conn.finishShell, Conn.call_calls, hhead, hcalls, Sent.callbacks, Sent.header, hrem, hmem]
    rfl
  · obtain ⟨hsz, hcount⟩ := he
    have hmem : b.memory = bytes := memory_eq htake (hlen.trans ((hslots .family _ rfl).trans hsz.symm))
    have hle : ¬shellInputLimit < Bytes.inputCount b.memory := by
      rw [hmem]
      exact Nat.not_lt.2 hcount
    have hfin : Conn.finish cb (Conn.store .family { c with stream := encode es } b) .family =
        (Conn.store .family { c with stream := encode es } b).finishFamily cb := if_neg hle
    rw [hfin]
    refine .of_settled (Conn.finishFamily_settled _) hconnected hsized hquiet hfilled rfl ?_ hheaders
    simp only [Conn.store, Conn.finishFamily, Conn.call_calls, hhead, hcalls, Sent.callbacks, hmem]

/-- The function for the slot reads on. -/
theorem InPayload.receivePayload_eq {c : Conn} {done es : List Sent} {e : Sent} {slot : Slot} {bytes : Bytes}
    (h : InPayload cb c done e es slot bytes) (he : e.Valid) (r : Read) : c.receivePayload cb r slot =
      c.recv (c.buffer slot) bytes.length r (Conn.store slot) (fun c => c.finish cb slot) := by
  have hhead := h.header
  have hlt := h.filling.lt
  rcases e.payload_cases h.payload with ⟨event, rfl, rfl, hi⟩ | ⟨event, pixels, rfl, rfl, hsize, rfl⟩ | ⟨event, rfl, rfl⟩ |
    ⟨output, rfl, rfl⟩
  · have hicon : Bytes.hasIcon c.header.memory = true := by
      rw [hhead]
      exact hi
    rw [he.2.2]
    exact if_pos hicon
  · have hsz : (pixels.take event.cursorSize).length = event.cursorSize := by
      rw [List.length_take]
      exact Nat.min_eq_left he.2.2.2.2
    rw [hsz] at hlt ⊢
    have hmem : Bytes.cursorSize c.header.memory = event.cursorSize := by rw [hhead]; rfl
    have hlt' : c.cursorPixels.filled < Bytes.cursorSize c.header.memory := by
      rw [hmem]
      exact hlt
    rw [← hmem]
    exact if_pos hlt'
  · have hrem : Bytes.removed c.header.memory = false := by
      rw [hhead]
      exact he.2.2.1
    have hno : ¬Bytes.removed c.header.memory = true := by
      rw [hrem]
      exact Bool.false_ne_true
    rw [(he.2.2.2 bytes rfl).1]
    exact if_neg hno
  · rw [he.1]
    rfl

/-- What a call leaves, that started with the stream `s`. -/
structure After (cb : Callbacks) (c : Conn) (done : List Sent) (e : Sent) (es : List Sent)
    (s : List (Item UInt8 Mark)) (r : Read) : Prop where
  synced : Between cb c (done ++ [e]) es ∨ ∃ slot bytes, InPayload cb c done e es slot bytes
  le : c.stream.length ≤ s.length
  lt : (∃ k, r = .bytes k) → c.stream.length < s.length

/-- A call in a payload. -/
theorem InPayload.after {c : Conn} {done es : List Sent} {e : Sent} {slot : Slot} {bytes : Bytes}
    (h : InPayload cb c done e es slot bytes) (he : e.Valid) {r : Read} (hr : r ≠ .closed) :
    After cb (c.receivePayload cb r slot) done e es c.stream r := by
  rw [h.receivePayload_eq he r]
  rcases Conn.recv_filling h.filling rfl hr (Conn.store slot) (fun c => c.finish cb slot) with
    ⟨b, s, heq, hf, hlen, hle, hlt⟩ | ⟨b, heq, htake, hlen, hlt⟩
  · rw [heq]
    refine ⟨.inr ⟨slot, bytes, h.store hf hlen⟩, ?_, ?_⟩
    · rw [Conn.store_stream]
      exact hle
    · rw [Conn.store_stream]
      exact hlt
  · rw [heq]
    have hbetween := h.finish he htake hlen
    refine ⟨.inl hbetween, ?_, fun _ => ?_⟩
    · rw [hbetween.stream]
      exact Nat.le_of_lt hlt
    · rw [hbetween.stream]
      exact hlt

/-! ## A complete header -/

/-- The header of `e` was just read. -/
structure Complete (cb : Callbacks) (c : Conn) (done : List Sent) (e : Sent) (es : List Sent) : Prop where
  connected : c.connected = true
  sized : c.Sized
  quiet : ∀ slot, c.Quiet slot
  header : c.header = ⟨e.header, 0⟩
  stream : c.stream = e.body ++ encode es
  calls : c.calls = done.flatMap (Sent.callbacks cb)
  headers : c.headers = (done ++ [e]).map Sent.header

/-- What an event without payload leaves. -/
def Conn.handled (c : Conn) (fs : List Callback) (s : List (Item UInt8 Mark)) (h : Bytes) : Conn :=
  { c with calls := c.calls ++ fs, stream := s, header := { c.header with memory := h } }

theorem Complete.handled {c : Conn} {done es : List Sent} {e : Sent} (h : Complete cb c done e es) {m : Bytes}
    (hm : m.length = eventSize) : Between cb (c.handled (e.callbacks cb) (encode es) m) (done ++ [e]) es := by
  refine Between.snoc h.connected ⟨hm, h.sized.slots⟩ h.quiet ?_ rfl ?_ h.headers
  · show c.header.filled = 0
    rw [h.header]
  · show c.calls ++ _ = _
    rw [h.calls]

/-- Only callbacks are made. -/
theorem Complete.called {c : Conn} {done es : List Sent} {e : Sent} (h : Complete cb c done e es) (he : e.Valid)
    (hbody : e.body = []) : Between cb { c with calls := c.calls ++ e.callbacks cb } (done ++ [e]) es := by
  have hm := h.handled (Sent.header_length he)
  have heq : c.handled (e.callbacks cb) (encode es) e.header = { c with calls := c.calls ++ e.callbacks cb } := by
    have hs : c.stream = encode es := by
      rw [h.stream, hbody]
      rfl
    have hh : c.header.memory = e.header := by rw [h.header]
    rw [← hs, ← hh]
    rfl
  rwa [heq] at hm

/-- The payload of a slot is expected. -/
def Conn.expect (slot : Slot) (c : Conn) : Conn :=
  match slot with
  | .window => { c with windowPending := true }
  | .cursor => { c with cursorPending := true }
  | .shell => { c with shellPending := true }
  | .family => { c with familyPending := true }

/-- Expecting a payload only sets its flag. -/
theorem Conn.expect_eq (slot : Slot) (c : Conn) : (c.expect slot).connected = c.connected ∧
    (c.expect slot).header = c.header ∧ (c.expect slot).buffer = c.buffer ∧ (c.expect slot).stream = c.stream ∧
    (c.expect slot).calls = c.calls ∧ (c.expect slot).headers = c.headers ∧ (c.expect slot).pending slot = true := by
  cases slot <;> exact ⟨rfl, rfl, rfl, rfl, rfl, rfl, rfl⟩

theorem Conn.expect_pending_ne {slot other : Slot} (c : Conn) (h : other ≠ slot) :
    (c.expect slot).pending other = c.pending other := by
  cases slot <;> cases other <;> first | rfl | exact absurd rfl h

/-- An event whose slot is settled without a payload. -/
theorem Complete.settled {c c' : Conn} {done es : List Sent} {e : Sent} {slot : Slot} (h : Complete cb c done e es)
    (hset : Conn.Settled slot (c.expect slot) c') (hbody : e.body = []) (hcalls : c'.calls = c.calls ++ e.callbacks cb) :
    Between cb c' (done ++ [e]) es := by
  obtain ⟨hconnected, hheader, hbuffer, hs, -, hheaders, -⟩ := c.expect_eq slot
  refine .of_settled hset (hconnected.trans h.connected) ⟨hheader ▸ h.sized.header, hbuffer ▸ h.sized.slots⟩ ?_ ?_ ?_ ?_
    (hheaders.trans h.headers)
  · intro other ho
    unfold Conn.Quiet
    rw [c.expect_pending_ne ho, hbuffer]
    exact h.quiet other
  · rw [hheader, h.header]
  · rw [hs, h.stream, hbody]
    rfl
  · rw [hcalls, h.calls]

/-- A window without an icon. -/
theorem Complete.finishWindow {c : Conn} {done es : List Sent} {e : Sent} (h : Complete cb c done e es)
    (hicon : e.header.hasIcon = false) (hbody : e.body = []) (hcalls : e.callbacks cb = [windowCallback e.header none]) :
    Between cb (Conn.finishWindow (c.expect .window)) (done ++ [e]) es := by
  refine h.settled (Conn.finishWindow_settled _) hbody ?_
  simp only [Conn.expect, Conn.finishWindow, Conn.call_calls, h.header, hcalls, endTexts_hasIcon, hicon, windowCallback]
  rfl

/-- The headers that are sent alone. -/
theorem Complete.dispatch_outputFrame {c : Conn} {done es : List Sent} {event : Bytes}
    (h : Complete cb c done (.outputFrame event) es) (he : (Sent.outputFrame event).Valid) (r : Read) :
    Between cb (c.dispatch cb r) (done ++ [Sent.outputFrame event]) es := by
  have hh : c.header.memory = event := by rw [h.header]; rfl
  have hcalled := h.called he rfl
  have halone := he.2
  -- the cases of the `switch` that only make callbacks
  have key (fs : List Callback) (hfs : (Sent.outputFrame event).callbacks cb = fs)
      (heq : c.dispatch cb r = { c with calls := c.calls ++ fs }) :
      Between cb (c.dispatch cb r) (done ++ [Sent.outputFrame event]) es := by
    rw [heq, ← hfs]
    exact hcalled
  unfold Sent.alone at halone
  cases ht : event.type with
  | outputFrame =>
    refine key _ (by simp only [Sent.callbacks, ht]; rfl) ?_
    simp only [Conn.dispatch, hh, ht, Conn.call_eq, given, if_true, List.append_assoc]
    rfl
  | outputLayer =>
    refine key [.setOutputFrame event] (by simp only [Sent.callbacks, ht]) ?_
    simp only [Conn.dispatch, hh, ht, Conn.call_eq, given, if_true]
  | outputWindowsDone =>
    refine key [.windowsCommitted] (by simp only [Sent.callbacks, ht]) ?_
    simp only [Conn.dispatch, hh, ht, Conn.call_eq, given, if_true]
  | windowGesture =>
    refine key _ (by simp only [Sent.callbacks, ht]; rfl) ?_
    simp only [Conn.dispatch, hh, ht, Conn.call_eq]
  | shellState =>
    refine key _ (by simp only [Sent.callbacks, ht]; rfl) ?_
    simp only [Conn.dispatch, hh, ht, Conn.call_eq]
  | inspectionDone =>
    refine key _ (by simp only [Sent.callbacks, ht]; rfl) ?_
    simp only [Conn.dispatch, hh, ht, Conn.call_eq, given, if_true]
  | inspectionNode =>
    have hm : (event.set 239 0).length = eventSize := by
      rw [List.length_set]
      exact he.1
    have hnode := h.handled hm
    have hs : c.stream = encode es := h.stream
    have heq : c.dispatch cb r =
        c.handled ((Sent.outputFrame event).callbacks cb) (encode es) (event.set 239 0) := by
      simp only [Conn.dispatch, hh, ht, Conn.call_eq, given, if_true, Conn.handled, Sent.callbacks, hs]
    rw [heq]
    exact hnode
  | outputWindow =>
    have hicon : event.hasIcon = false := by
      simp only [ht, Bool.not_eq_true'] at halone
      exact halone
    have heq : c.dispatch cb r = Conn.finishWindow (c.expect .window) := by
      simp only [Conn.dispatch, hh, ht, Conn.receiveWindow, hicon, Bool.false_eq_true, if_false, Conn.expect]
    rw [heq]
    exact h.finishWindow hicon rfl (by simp only [Sent.callbacks, ht]; rfl)
  | _ => simp only [ht, Bool.false_eq_true] at halone

/-- The payload begins. -/
theorem Complete.expect {c : Conn} {done es : List Sent} {e : Sent} (h : Complete cb c done e es) {slot : Slot}
    {bytes : Bytes} (hp : e.payload = some (slot, bytes)) (hroom : bytes.length ≤ (c.buffer slot).memory.length)
    (hpos : 0 < bytes.length) : InPayload cb (c.expect slot) done e es slot bytes := by
  obtain ⟨hconnected, hheader, hbuffer, hs, hcalls, hheaders, hpending⟩ := c.expect_eq slot
  constructor
  · exact hconnected.trans h.connected
  · exact ⟨hheader ▸ h.sized.header, hbuffer ▸ h.sized.slots⟩
  · exact hheader.trans h.header
  · exact hp
  · exact hpending
  · intro other ho
    unfold Conn.Quiet
    rw [c.expect_pending_ne ho, hbuffer]
    exact h.quiet other
  · rw [hbuffer, hs]
    refine .start hroom hpos (h.quiet slot).2 ?_
    rw [h.stream, e.body_payload hp]
  · exact hcalls.trans h.calls
  · exact hheaders.trans h.headers

/-- The memory for the cursor grows. -/
theorem Complete.growCursor {c : Conn} {done es : List Sent} {e : Sent} (h : Complete cb c done e es) (size : Nat) :
    Complete cb (c.growCursor size) done e es ∧ size ≤ (c.growCursor size).cursorPixels.memory.length := by
  unfold Conn.growCursor
  split
  · constructor
    · refine ⟨h.connected, ⟨h.sized.header, ?_⟩, ?_, h.header, h.stream, h.calls, h.headers⟩
      · intro slot n hn
        cases slot
        · exact h.sized.slots .window n hn
        · cases hn
        · exact h.sized.slots .shell n hn
        · exact h.sized.slots .family n hn
      · intro slot
        cases slot
        · exact h.quiet .window
        · exact h.quiet .cursor
        · exact h.quiet .shell
        · exact h.quiet .family
    · rw [List.length_append, List.length_replicate]
      omega
  · rename_i hle
    exact ⟨h, Nat.not_lt.1 hle⟩

/-- What the `switch` leaves: the event is handled, or its payload is being read. -/
structure Dispatched (cb : Callbacks) (c : Conn) (done : List Sent) (e : Sent) (es : List Sent)
    (s : List (Item UInt8 Mark)) : Prop where
  synced : Between cb c (done ++ [e]) es ∨ ∃ slot bytes, InPayload cb c done e es slot bytes
  le : c.stream.length ≤ s.length

/-- The event is handled at once. -/
theorem Complete.dispatched {c c' : Conn} {done es : List Sent} {e : Sent} (h : Complete cb c done e es)
    (hb : Between cb c' (done ++ [e]) es) : Dispatched cb c' done e es c.stream := by
  refine ⟨.inl hb, ?_⟩
  rw [hb.stream, h.stream, List.length_append]
  omega

/-- The `switch` goes on with the payload. -/
theorem Complete.dispatch_payload {c c' : Conn} {done es : List Sent} {e : Sent} (h : Complete cb c' done e es)
    (he : e.Valid) {slot : Slot} {bytes : Bytes} (hp : e.payload = some (slot, bytes))
    (hroom : bytes.length ≤ (c'.buffer slot).memory.length) (hpos : 0 < bytes.length) {r : Read} (hr : r ≠ .closed)
    (heq : c.dispatch cb r = (c'.expect slot).receivePayload cb r slot) (hs : c'.stream = c.stream) :
    Dispatched cb (c.dispatch cb r) done e es c.stream := by
  have hafter := (h.expect hp hroom hpos).after he hr
  have hstream : (c'.expect slot).stream = c.stream := (c'.expect_eq slot).2.2.2.1.trans hs
  rw [hstream] at hafter
  rw [heq]
  exact ⟨hafter.synced, hafter.le⟩

section Dispatch

variable {c : Conn} {done es : List Sent} {r : Read}

theorem Complete.dispatch_windowInfo {event icon : Bytes} (h : Complete cb c done (.windowInfo event icon) es)
    (he : (Sent.windowInfo event icon).Valid) (hr : r ≠ .closed) :
    Dispatched cb (c.dispatch cb r) done (.windowInfo event icon) es c.stream := by
  have ht : event.type = .outputWindow := he.2.1
  have hh : c.header.memory = event := by rw [h.header]; rfl
  by_cases hicon : event.hasIcon = true
  · have hlen : (c.buffer .window).memory.length = icon.length := (h.sized.slots .window _ rfl).trans he.2.2.symm
    refine h.dispatch_payload he (if_pos hicon) (Nat.le_of_eq hlen.symm) ?_ hr ?_ rfl
    · rw [he.2.2]
      decide
    · simp only [Conn.dispatch, hh, ht]
      rfl
  · have hno : event.hasIcon = false := Bool.eq_false_iff.2 hicon
    have heq : c.dispatch cb r = Conn.finishWindow (c.expect .window) := by
      simp only [Conn.dispatch, hh, ht, Conn.receiveWindow, hno, Bool.false_eq_true, if_false, Conn.expect]
    have hcalls : (Sent.windowInfo event icon).callbacks cb = [windowCallback event none] := by
      simp only [Sent.callbacks, hno, Bool.false_eq_true, if_false]
    rw [heq]
    exact h.dispatched (h.finishWindow hno (if_neg hicon) hcalls)

theorem Complete.dispatch_shellInfo {event : Bytes} {info : Option Bytes} (h : Complete cb c done (.shellInfo event info) es)
    (he : (Sent.shellInfo event info).Valid) (hr : r ≠ .closed) :
    Dispatched cb (c.dispatch cb r) done (.shellInfo event info) es c.stream := by
  have ht : event.type = .outputShell := he.2.1
  have hh : c.header.memory = event := by rw [h.header]; rfl
  cases info with
  | some info =>
    have hsize := (he.2.2.2 info rfl).1
    have hlen : (c.buffer .shell).memory.length = info.length := (h.sized.slots .shell _ rfl).trans hsize.symm
    refine h.dispatch_payload he rfl (Nat.le_of_eq hlen.symm) ?_ hr ?_ rfl
    · rw [hsize]
      decide
    · simp only [Conn.dispatch, hh, ht]
      rfl
  | none =>
    have hremoved : event.removed = true := he.2.2.1
    have heq : c.dispatch cb r = Conn.finishShell cb (c.expect .shell) := by
      simp only [Conn.dispatch, hh, ht, Conn.receiveShell, hremoved, if_true, Conn.expect]
    rw [heq]
    refine h.dispatched (h.settled (Conn.finishShell_settled _) rfl ?_)
    simp only [Conn.expect, Conn.finishShell, Conn.call_calls, hh, hremoved, if_true, Sent.callbacks]

/-- A cursor without pixels. -/
theorem Complete.finishCursor {event pixels : Bytes} (h : Complete cb c done (.cursor event pixels) es)
    (hsize : event.cursorSize = 0) :
    Between cb ((c.expect .cursor).receivePayload cb r .cursor) (done ++ [Sent.cursor event pixels]) es := by
  have hh : c.header.memory = event := by rw [h.header]; rfl
  have hnone : ¬event.cursorSize ≠ 0 := fun hne => hne hsize
  have heq : (c.expect .cursor).receivePayload cb r .cursor = Conn.finishCursor cb (c.expect .cursor) := by
    refine if_neg ?_
    show ¬c.cursorPixels.filled < Bytes.cursorSize c.header.memory
    rw [hh, hsize]
    exact Nat.not_lt_zero _
  rw [heq]
  refine h.settled (Conn.finishCursor_settled _) ?_ ?_
  · simp only [Sent.body, hsize, List.take_zero, List.map_nil]
  · simp only [Conn.expect, Conn.finishCursor, Conn.call_calls, hh, Sent.callbacks, if_neg hnone]

theorem Complete.dispatch_cursor {event pixels : Bytes} (h : Complete cb c done (.cursor event pixels) es)
    (he : (Sent.cursor event pixels).Valid) (hr : r ≠ .closed) :
    Dispatched cb (c.dispatch cb r) done (.cursor event pixels) es c.stream := by
  have ht : event.type = .outputCursor := he.2.1
  have hh : c.header.memory = event := by rw [h.header]; rfl
  have hok : ¬(event.u32 4 = 0 ∨ event.cursorValid = false) := by
    rintro (hout | hvalid)
    · exact he.2.2.1 hout
    · rw [he.2.2.2.1] at hvalid
      cases hvalid
  obtain ⟨hgrow, hroom⟩ := h.growCursor event.cursorSize
  have hs : (c.growCursor event.cursorSize).stream = c.stream := by
    unfold Conn.growCursor
    split <;> rfl
  have heq : c.dispatch cb r = ((c.growCursor event.cursorSize).expect .cursor).receivePayload cb r .cursor := by
    simp only [Conn.dispatch, hh, ht, hok, if_false]
    rfl
  by_cases hsize : event.cursorSize = 0
  · have hb := hgrow.finishCursor (r := r) hsize
    rw [heq]
    exact h.dispatched hb
  · have hlen : (pixels.take event.cursorSize).length = event.cursorSize := by
      rw [List.length_take]
      exact Nat.min_eq_left he.2.2.2.2
    refine hgrow.dispatch_payload he (if_pos hsize) (by rw [hlen]; exact hroom) ?_ hr heq hs
    rw [hlen]
    omega

theorem Complete.dispatch_familyGeometry {output : Nat} {info : Bytes}
    (h : Complete cb c done (.familyGeometry output info) es) (he : (Sent.familyGeometry output info).Valid)
    (hr : r ≠ .closed) : Dispatched cb (c.dispatch cb r) done (.familyGeometry output info) es c.stream := by
  have hlen : (c.buffer .family).memory.length = info.length := (h.sized.slots .family _ rfl).trans he.1.symm
  have ht : Bytes.type c.header.memory = .outputFamily := by
    rw [h.header]
    rfl
  refine h.dispatch_payload he rfl (Nat.le_of_eq hlen.symm) ?_ hr ?_ rfl
  · rw [he.1]
    decide
  · simp only [Conn.dispatch, ht]
    rfl

theorem Complete.dispatch_dataEvent {data : DataEvent} {descriptor : Option Nat}
    (h : Complete cb c done (.dataEvent data descriptor) es) (he : (Sent.dataEvent data descriptor).Valid) (r : Read) :
    Between cb (c.dispatch cb r) (done ++ [Sent.dataEvent data descriptor]) es := by
  have hh : c.header.memory = (Sent.dataEvent data descriptor).header := by rw [h.header]
  have ht : Bytes.type c.header.memory = .data := by
    rw [hh]
    rfl
  have hmime : Bytes.mimeEnds c.header.memory = true := by
    rw [hh]
    unfold Bytes.mimeEnds
    rw [Sent.mime_slice he]
    exact he.2.2
  cases descriptor with
  | none =>
    have hfd : Bytes.hasFd c.header.memory = false := by
      rw [hh]
      rfl
    have heq : c.dispatch cb r = { c with calls := c.calls ++ (Sent.dataEvent data none).callbacks cb } := by
      simp only [Conn.dispatch, ht, Conn.receiveData, hfd, hmime, Bool.false_eq_true, if_false, if_true, Conn.call_eq,
        given, Sent.callbacks, ← hh]
    rw [heq]
    exact h.called he rfl
  | some d =>
    have hfd : Bytes.hasFd c.header.memory = true := by
      rw [hh]
      rfl
    have hs : c.stream = .mark (.descriptor d) :: encode es := h.stream
    have heq : c.dispatch cb r = c.handled ((Sent.dataEvent data (some d)).callbacks cb) (encode es) c.header.memory := by
      simp only [Conn.dispatch, ht, Conn.receiveData, hfd, if_true, Conn.recvFd, hs, hmime, Conn.call_eq, given,
        Conn.handled, Sent.callbacks, ← hh]
    rw [heq]
    exact h.handled h.sized.header

/-- **The `switch` on a complete header** handles the event, or goes on with its payload. -/
theorem Complete.dispatch {e : Sent} (h : Complete cb c done e es) (he : e.Valid) (hr : r ≠ .closed) :
    Dispatched cb (c.dispatch cb r) done e es c.stream := by
  have hh : c.header.memory = e.header := by rw [h.header]
  cases e with
  | outputFrame event => exact h.dispatched (h.dispatch_outputFrame he r)
  | windowInfo event icon => exact h.dispatch_windowInfo he hr
  | shellInfo event info => exact h.dispatch_shellInfo he hr
  | familyGeometry output info => exact h.dispatch_familyGeometry he hr
  | cursor event pixels => exact h.dispatch_cursor he hr
  | dataEvent data descriptor => exact h.dispatched (h.dispatch_dataEvent he r)
  | sharedServerState memfd =>
    have ht : Bytes.type c.header.memory = .sharedServerState := by
      rw [hh]
      rfl
    have hs : c.stream = .mark (.descriptor memfd) :: encode es := h.stream
    have heq : c.dispatch cb r = c.handled ((Sent.sharedServerState memfd).callbacks cb) (encode es) c.header.memory := by
      simp only [Conn.dispatch, ht, Conn.recvFd, hs, Conn.call_eq, given, if_true, Conn.handled, Sent.callbacks]
    rw [heq]
    exact h.dispatched (h.handled h.sized.header)
  | registerBuffer buffer =>
    have ht : Bytes.type c.header.memory = .addBuffer := by
      rw [hh]
      rfl
    have hs : c.stream = .mark (.handle buffer) :: encode es := h.stream
    have heq : c.dispatch cb r = c.handled ((Sent.registerBuffer buffer).callbacks cb) (encode es) c.header.memory := by
      simp only [Conn.dispatch, ht, Conn.recvHandle, hs, Conn.call_eq, given, if_true, Conn.handled, Sent.callbacks]
    rw [heq]
    exact h.dispatched (h.handled h.sized.header)
  | unregisterBuffer id =>
    have ht : Bytes.type c.header.memory = .removeBuffer := by
      rw [hh]
      rfl
    have heq : c.dispatch cb r = { c with calls := c.calls ++ (Sent.unregisterBuffer id).callbacks cb } := by
      simp only [Conn.dispatch, ht, Conn.call_eq, given, if_true, Sent.callbacks, ← hh]
    rw [heq]
    exact h.dispatched (h.called he rfl)
  | syncReply serial =>
    have ht : Bytes.type c.header.memory = .syncReply := by
      rw [hh]
      rfl
    have heq : c.dispatch cb r = { c with calls := c.calls ++ (Sent.syncReply serial).callbacks cb } := by
      simp only [Conn.dispatch, ht, Sent.callbacks, List.append_nil]
    rw [heq]
    exact h.dispatched (h.called he rfl)
  | focusChanged =>
    have ht : Bytes.type c.header.memory = .windowFocusChanged := by
      rw [hh]
      rfl
    have heq : c.dispatch cb r = { c with calls := c.calls ++ Sent.focusChanged.callbacks cb } := by
      simp only [Conn.dispatch, ht, Sent.callbacks, List.append_nil]
    rw [heq]
    exact h.dispatched (h.called he rfl)

end Dispatch

/-! ## Calls -/

/-- The peer is there, the commands are flushed, and `recv` gives data or nothing now. -/
def Call.Healthy (k : Call) : Prop :=
  k.error = false ∧ (k.output = true → k.flushed = true) ∧ k.first ≠ .closed ∧ k.second ≠ .closed

/-- The call reads: there is input, and the first `recv` gives data. -/
def Call.reads (k : Call) : Bool :=
  k.input && match k.first with
    | .bytes _ => true
    | _ => false

theorem Call.reads_iff {k : Call} (h : k.reads = true) : k.input = true ∧ ∃ n, k.first = .bytes n := by
  unfold Call.reads at h
  obtain ⟨hi, hf⟩ := Bool.and_eq_true_iff.1 h
  refine ⟨hi, ?_⟩
  cases hk : k.first with
  | bytes n => exact ⟨n, rfl⟩
  | again => simp only [hk, Bool.false_eq_true] at hf
  | closed => simp only [hk, Bool.false_eq_true] at hf

/-- A healthy call of a connection goes to its pending payload or to the header. -/
theorem Conn.receive_healthy {c : Conn} {k : Call} (hc : c.connected = true) (hk : k.Healthy) (hi : k.input = true) :
    c.receive cb k =
      if c.windowPending then c.receiveWindow k.first
      else if c.cursorPending then c.receiveCursor cb k.first
      else if c.shellPending then c.receiveShell cb k.first
      else if c.familyPending then c.receiveFamily cb k.first
      else
        c.recv c.header eventSize k.first (fun c b => { c with header := b }) fun c =>
          dispatch cb { c with header := { c.header with filled := 0 }, headers := c.headers ++ [c.header.memory] }
            k.second := by
  obtain ⟨he, ho, -, -⟩ := hk
  have hflush : ¬(k.output = true ∧ k.flushed = false) := by
    rintro ⟨h₁, h₂⟩
    rw [ho h₁] at h₂
    cases h₂
  simp only [Conn.receive, hc, he, hflush, hi, Bool.true_eq_false, Bool.false_eq_true, if_false]

/-- A call without input reads nothing. -/
theorem Conn.receive_idle {c : Conn} {k : Call} (hk : k.Healthy) (hi : k.input = false) : c.receive cb k = c := by
  obtain ⟨he, ho, -, -⟩ := hk
  have hflush : ¬(k.output = true ∧ k.flushed = false) := by
    rintro ⟨h₁, h₂⟩
    rw [ho h₁] at h₂
    cases h₂
  simp only [Conn.receive, he, hflush, hi, Bool.false_eq_true, if_false, if_true, ite_self]

/-- Where a call leaves the connection, that started with `done`, `es` and the stream `s`. -/
structure Stepped (cb : Callbacks) (c : Conn) (done es : List Sent) (s : List (Item UInt8 Mark)) (reads : Bool) :
    Prop where
  synced : Synced cb c done es ∨ ∃ e rest, es = e :: rest ∧ Synced cb c (done ++ [e]) rest
  le : c.stream.length ≤ s.length
  lt : reads = true → s ≠ [] → c.stream.length < s.length

/-- With no payload pending, a call reads a header. -/
theorem Conn.receive_header {c : Conn} {k : Call} (hc : c.connected = true) (hq : ∀ slot, c.Quiet slot) (hk : k.Healthy)
    (hi : k.input = true) : c.receive cb k =
      c.recv c.header eventSize k.first (fun c b => { c with header := b }) fun c =>
        dispatch cb { c with header := { c.header with filled := 0 }, headers := c.headers ++ [c.header.memory] }
          k.second := by
  have hw : c.windowPending = false := (hq .window).1
  have hcu : c.cursorPending = false := (hq .cursor).1
  have hsh : c.shellPending = false := (hq .shell).1
  have hfa : c.familyPending = false := (hq .family).1
  rw [Conn.receive_healthy hc hk hi]
  simp only [hw, hcu, hsh, hfa, Bool.false_eq_true, if_false]

/-- At the end of the stream nothing is read. -/
theorem Between.receive {c : Conn} {done : List Sent} (h : Between cb c done []) {k : Call} (hk : k.Healthy)
    (hi : k.input = true) : c.receive cb k = c := by
  have hs : c.stream = [] := h.stream
  have hread : c.header.read eventSize k.first c.stream = (.wait, c.header, c.stream) := by
    rw [hs]
    cases hf : k.first with
    | again => rfl
    | closed => exact absurd hf hk.2.2.1
    | bytes n => rfl
  rw [Conn.receive_header h.connected h.quiet hk hi]
  unfold Conn.recv
  rw [hread]

/-- A call in a header. -/
theorem InHeader.receive {c : Conn} {done es : List Sent} {e : Sent} (h : InHeader cb c done e es)
    (hes : ∀ e' ∈ e :: es, e'.Valid) {k : Call} (hk : k.Healthy) (hi : k.input = true) :
    Stepped cb (c.receive cb k) done (e :: es) c.stream k.reads := by
  have he := hes e List.mem_cons_self
  have hlen := Sent.header_length he
  rw [Conn.receive_header h.connected h.quiet hk hi]
  rcases Conn.recv_filling h.filling hlen hk.2.2.1 (fun c b => { c with header := b }) fun c =>
      Conn.dispatch cb { c with header := { c.header with filled := 0 }, headers := c.headers ++ [c.header.memory] }
        k.second with ⟨b, s, heq, hf, hmem, hle, hlt⟩ | ⟨b, heq, htake, hmem, hlt⟩
  · rw [heq]
    refine ⟨.inl (.inHeader ⟨h.connected, ⟨hmem.trans h.sized.header, h.sized.slots⟩, h.quiet, hf, h.calls, h.headers⟩), hle,
      fun hr _ => hlt ?_⟩
    exact (Call.reads_iff hr).2
  · rw [heq]
    have hmemory : b.memory = e.header := memory_eq htake (hmem.trans h.sized.header)
    have hcomplete : Complete cb { c with
        stream := e.body ++ encode es, header := { b with filled := 0 }, headers := c.headers ++ [b.memory] } done e es := by
      refine ⟨h.connected, ⟨hmem.trans h.sized.header, h.sized.slots⟩, h.quiet, ?_, rfl, h.calls, ?_⟩
      · rw [hmemory]
      · rw [hmemory, h.headers, List.map_append]
        rfl
    have hd := hcomplete.dispatch (r := k.second) he hk.2.2.2
    refine ⟨?_, Nat.le_of_lt (Nat.lt_of_le_of_lt hd.le hlt), fun _ _ => Nat.lt_of_le_of_lt hd.le hlt⟩
    rcases hd.synced with hb | ⟨slot, bytes, hp⟩
    · exact .inr ⟨e, es, rfl, hb.synced fun e' he' => hes e' (List.mem_cons_of_mem e he')⟩
    · exact .inl (.inPayload hp)

/-- A call in a payload. -/
theorem InPayload.receive {c : Conn} {done es : List Sent} {e : Sent} {slot : Slot} {bytes : Bytes}
    (h : InPayload cb c done e es slot bytes) (hes : ∀ e' ∈ e :: es, e'.Valid) {k : Call} (hk : k.Healthy)
    (hi : k.input = true) : Stepped cb (c.receive cb k) done (e :: es) c.stream k.reads := by
  have he := hes e List.mem_cons_self
  have heq : c.receive cb k = c.receivePayload cb k.first slot := by
    rw [Conn.receive_healthy h.connected hk hi]
    have hp := h.pending
    have hq := fun other ho => (h.quiet other ho).1
    cases slot with
    | window => exact if_pos hp
    | cursor =>
      have hw : c.windowPending = false := hq .window nofun
      have hcu : c.cursorPending = true := hp
      simp only [hw, hcu, Bool.false_eq_true, if_false, if_true, Conn.receivePayload]
    | shell =>
      have hw : c.windowPending = false := hq .window nofun
      have hcu : c.cursorPending = false := hq .cursor nofun
      have hsh : c.shellPending = true := hp
      simp only [hw, hcu, hsh, Bool.false_eq_true, if_false, if_true, Conn.receivePayload]
    | family =>
      have hw : c.windowPending = false := hq .window nofun
      have hcu : c.cursorPending = false := hq .cursor nofun
      have hsh : c.shellPending = false := hq .shell nofun
      have hfa : c.familyPending = true := hp
      simp only [hw, hcu, hsh, hfa, Bool.false_eq_true, if_false, if_true, Conn.receivePayload]
  have ha := h.after he hk.2.2.1
  rw [heq]
  refine ⟨?_, ha.le, fun hr _ => ha.lt (Call.reads_iff hr).2⟩
  rcases ha.synced with hb | ⟨slot', bytes', hp⟩
  · exact .inr ⟨e, es, rfl, hb.synced fun e' he' => hes e' (List.mem_cons_of_mem e he')⟩
  · exact .inl (.inPayload hp)

/-- **A call keeps the connection in step with the stream.** -/
theorem Synced.receive {c : Conn} {done es : List Sent} (h : Synced cb c done es) (hes : ∀ e ∈ es, e.Valid) {k : Call}
    (hk : k.Healthy) : Stepped cb (c.receive cb k) done es c.stream k.reads := by
  by_cases hi : k.input = true
  · cases h with
    | atEnd hb =>
      rw [hb.receive hk hi]
      exact ⟨.inl (.atEnd hb), Nat.le_refl _, fun _ hne => absurd hb.stream hne⟩
    | inHeader hh => exact hh.receive hes hk hi
    | inPayload hp => exact hp.receive hes hk hi
  · have hno : k.input = false := Bool.eq_false_iff.2 hi
    rw [Conn.receive_idle hk hno]
    exact ⟨.inl h, Nat.le_refl _, fun hr => absurd (Call.reads_iff hr).1 hi⟩

/-- A run of calls keeps the connection in step with the stream, and each reading call takes some of it. -/
theorem run_synced {ks : List Call} (hks : ∀ k ∈ ks, k.Healthy) {c : Conn} {done es : List Sent}
    (h : Synced cb c done es) (hes : ∀ e ∈ es, e.Valid) : ∃ done' es', done ++ es = done' ++ es' ∧
      Synced cb (Conn.run cb ks c) done' es' ∧
      ((Conn.run cb ks c).stream ≠ [] → (Conn.run cb ks c).stream.length + ks.countP Call.reads ≤ c.stream.length) := by
  induction ks generalizing c done es with
  | nil => exact ⟨done, es, rfl, h, fun _ => by simp [Conn.run]⟩
  | cons k ks ih =>
    have hstep := h.receive hes (hks k List.mem_cons_self)
    have hks' : ∀ k' ∈ ks, k'.Healthy := fun k' hk' => hks k' (List.mem_cons_of_mem k hk')
    have hrun : Conn.run cb (k :: ks) c = Conn.run cb ks (c.receive cb k) := rfl
    -- what the calls after the first one take
    have hcount (hlen : (Conn.run cb ks (c.receive cb k)).stream ≠ [] →
          (Conn.run cb ks (c.receive cb k)).stream.length + ks.countP Call.reads ≤ (c.receive cb k).stream.length)
        (hne : (Conn.run cb ks (c.receive cb k)).stream ≠ []) :
        (Conn.run cb ks (c.receive cb k)).stream.length + (k :: ks).countP Call.reads ≤ c.stream.length := by
      have hrest := hlen hne
      have hle := hstep.le
      rw [List.countP_cons]
      split
      · rename_i hr
        have hlt := hstep.lt hr (by
          rintro hnil
          rw [hnil] at hle
          have hpos := List.length_pos_of_ne_nil hne
          simp only [List.length_nil] at hle
          omega)
        omega
      · omega
    rcases hstep.synced with hs | ⟨e, rest, rfl, hs⟩
    · obtain ⟨done', es', heq, hsync, hlen⟩ := ih hks' hs hes
      exact ⟨done', es', heq, hsync, hcount hlen⟩
    · obtain ⟨done', es', heq, hsync, hlen⟩ := ih hks' hs fun e' he' => hes e' (List.mem_cons_of_mem e he')
      refine ⟨done', es', ?_, hsync, hcount hlen⟩
      rw [← heq, List.append_assoc]
      rfl

/-! ## Any run of calls -/

theorem start_between (es : List Sent) : Between cb (Conn.start es) [] es := by
  refine ⟨rfl, ⟨List.length_replicate, ?_⟩, ?_, rfl, rfl, rfl, rfl⟩
  · intro slot n hn
    cases slot
    · cases hn
      exact List.length_replicate
    · cases hn
    · cases hn
      exact List.length_replicate
    · cases hn
      exact List.length_replicate
  · intro slot
    cases slot <;> exact ⟨rfl, rfl⟩

theorem start_synced (cb : Callbacks) {es : List Sent} (hes : ∀ e ∈ es, e.Valid) : Synced cb (Conn.start es) [] es :=
  (start_between es).synced hes

/-- No buffer holds more than its memory, and no memory was written beyond its end. -/
structure Conn.Bounded (c : Conn) : Prop where
  sized : c.Sized
  header : c.header.filled ≤ c.header.memory.length
  slots : ∀ slot, (c.buffer slot).filled ≤ (c.buffer slot).memory.length

theorem Conn.Quiet.le {c : Conn} {slot : Slot} (h : c.Quiet slot) : (c.buffer slot).filled ≤ (c.buffer slot).memory.length := by
  rw [h.2]
  exact Nat.zero_le _

theorem Synced.bounded {c : Conn} {done es : List Sent} (h : Synced cb c done es) : c.Bounded := by
  cases h with
  | atEnd hb =>
    refine ⟨hb.sized, ?_, fun slot => (hb.quiet slot).le⟩
    rw [hb.filled]
    exact Nat.zero_le _
  | inHeader hh =>
    exact ⟨hh.sized, Nat.le_trans (Nat.le_of_lt hh.filling.lt) hh.filling.room, fun slot => (hh.quiet slot).le⟩
  | @inPayload es e slot bytes hp =>
    refine ⟨hp.sized, ?_, ?_⟩
    · rw [hp.header]
      exact Nat.zero_le _
    · intro other
      by_cases ho : other = slot
      · subst ho
        exact Nat.le_trans (Nat.le_of_lt hp.filling.lt) hp.filling.room
      · exact (hp.quiet other ho).le

theorem Synced.connected {c : Conn} {done es : List Sent} (h : Synced cb c done es) : c.connected = true := by
  cases h with
  | atEnd hb => exact hb.connected
  | inHeader hh => exact hh.connected
  | inPayload hp => exact hp.connected

theorem Synced.calls {c : Conn} {done es : List Sent} (h : Synced cb c done es) :
    c.calls = done.flatMap (Sent.callbacks cb) := by
  cases h with
  | atEnd hb => exact hb.calls
  | inHeader hh => exact hh.calls
  | inPayload hp => exact hp.calls

/-- Only headers of events were interpreted as headers. -/
theorem Synced.headers {c : Conn} {done es : List Sent} (h : Synced cb c done es) :
    c.headers <+: (done ++ es).map Sent.header := by
  cases h with
  | atEnd hb =>
    rw [List.append_nil]
    exact ⟨[], (List.append_nil _).trans hb.headers⟩
  | inHeader hh =>
    rw [hh.headers, List.map_append]
    exact List.prefix_append _ _
  | @inPayload es e slot bytes hp =>
    rw [hp.headers, List.append_cons done e es]
    exact (List.prefix_append (done ++ [e]) es).map Sent.header

/-- A connection that has read the stream has handled every event. -/
theorem Synced.all {c : Conn} {done es : List Sent} (h : Synced cb c done es) (hs : c.stream = []) : es = [] := by
  cases h with
  | atEnd => rfl
  | inHeader hh => exact absurd hs hh.filling.ne_nil
  | inPayload hp => exact absurd hs hp.filling.ne_nil

/-- A call in which `recv` gives all that it is asked for. -/
def Call.whole : Call := ⟨false, false, true, true, .bytes (2 ^ 20), .bytes (2 ^ 20)⟩

/-- The stream is not fragmented. -/
def unfragmented (cb : Callbacks) (es : List Sent) : Conn :=
  Conn.run cb (List.replicate (encode es).length .whole) (.start es)

/-- **Reading calls take the whole stream**, as many as it has bytes at most. -/
theorem run_stream {es : List Sent} (hes : ∀ e ∈ es, e.Valid) {ks : List Call} (hks : ∀ k ∈ ks, k.Healthy)
    (hreads : (encode es).length ≤ ks.countP Call.reads) : (Conn.run cb ks (.start es)).stream = [] := by
  obtain ⟨done, rest, -, -, hlen⟩ := run_synced hks (start_synced cb hes) hes
  by_contra hne
  have hle : _ ≤ (encode es).length := hlen hne
  have hpos := List.length_pos_of_ne_nil hne
  omega

/-- The callbacks of a stream that was read to its end are those of its events. -/
theorem run_calls {es : List Sent} (hes : ∀ e ∈ es, e.Valid) {ks : List Call} (hks : ∀ k ∈ ks, k.Healthy)
    (hs : (Conn.run cb ks (.start es)).stream = []) :
    (Conn.run cb ks (.start es)).calls = es.flatMap (Sent.callbacks cb) := by
  obtain ⟨done, rest, heq, hsync, -⟩ := run_synced hks (start_synced cb hes) hes
  have hnil := hsync.all hs
  subst hnil
  rw [hsync.calls]
  rw [List.nil_append, List.append_nil] at heq
  rw [heq]

/-- The unfragmented stream gives the callbacks of its events. -/
theorem unfragmented_calls {es : List Sent} (hes : ∀ e ∈ es, e.Valid) :
    (unfragmented cb es).calls = es.flatMap (Sent.callbacks cb) := by
  have hks : ∀ k ∈ List.replicate (encode es).length Call.whole, k.Healthy := by
    intro k hk
    rw [List.eq_of_mem_replicate hk]
    exact ⟨rfl, nofun, nofun, nofun⟩
  refine run_calls hes hks (run_stream hes hks ?_)
  rw [List.countP_replicate]
  exact Nat.le_refl _

end Sync

/-- **The host decodes the stream independently of fragmentation.** For every run of valid events, and whatever `recv`
gives in each call: the connection stays, no buffer overflows, only headers that were sent are interpreted as headers, and
the callbacks are, in order, those of the unfragmented stream: all of them when the stream is read, which takes no more
reading calls than it has bytes. -/
theorem fragmented_calls (cb : Callbacks) {es : List Sent} (hes : ∀ e ∈ es, e.Valid) {ks : List Call}
    (hks : ∀ k ∈ ks, k.Healthy) :
    let c := Conn.run cb ks (.start es)
    c.connected = true ∧ c.Bounded ∧ c.headers <+: es.map Sent.header ∧ c.calls <+: (unfragmented cb es).calls ∧
      (c.stream = [] → c.calls = (unfragmented cb es).calls) ∧
      ((encode es).length ≤ ks.countP Call.reads → c.stream = []) := by
  intro c
  obtain ⟨done, rest, heq, hsync, -⟩ := run_synced hks (start_synced cb hes) hes
  rw [List.nil_append] at heq
  refine ⟨hsync.connected, hsync.bounded, ?_, ?_, ?_, run_stream hes hks⟩
  · rw [heq]
    exact hsync.headers
  · rw [unfragmented_calls hes, hsync.calls, heq, List.flatMap_append]
    exact List.prefix_append _ _
  · intro hs
    rw [unfragmented_calls hes]
    exact run_calls hes hks hs

/-- A cursor of one pixel. -/
def cursorEvent : Sent :=
  .cursor (eventOf [32, 0, 0, 0, 1, 0, 0, 0, 7, 0, 0, 0, 2, 0, 0, 0, 1, 0, 0, 0, 1, 0, 0, 0]) [1, 2, 3, 255]

/-- A call in which `recv` gives one byte. -/
def Call.byte : Call := ⟨false, false, true, true, .bytes 0, .again⟩

/-- The cursor arrives byte by byte. -/
theorem fragmented_calls_cursor :
    let c := Conn.run ⟨true, true, true, true, true⟩ (List.replicate 620 .byte) (.start [cursorEvent])
    c.connected = true ∧ c.calls = (unfragmented ⟨true, true, true, true, true⟩ [cursorEvent]).calls := by
  have hvalid : ∀ e ∈ [cursorEvent], e.Valid := by
    intro e he
    rw [List.mem_singleton.1 he]
    exact ⟨eventOf_length (by decide), rfl, by decide, by decide, by decide⟩
  have hhealthy : ∀ k ∈ List.replicate 620 Call.byte, k.Healthy := by
    intro k hk
    rw [List.eq_of_mem_replicate hk]
    exact ⟨rfl, nofun, nofun, nofun⟩
  obtain ⟨hconnected, -, -, -, hall, hstream⟩ := fragmented_calls ⟨true, true, true, true, true⟩ hvalid hhealthy
  refine ⟨hconnected, hall (hstream ?_)⟩
  have hlen : (encode [cursorEvent]).length = 620 := by
    simp only [encode, List.flatMap_singleton, Sent.items, List.length_append, List.length_map]
    rw [Sent.header_length (hvalid cursorEvent List.mem_cons_self)]
    rfl
  rw [List.countP_replicate, hlen]
  exact Nat.le_refl _

end Lorie.Connection
