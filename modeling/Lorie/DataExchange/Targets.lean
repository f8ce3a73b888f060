import Lorie.Lib.Counter
import Lorie.Lib.Fill
import Lorie.Lib.Tokens
import Mathlib.Data.Vector.Defs

/-!
# The targets of an offer as a file

The targets of an offer go to the host as a file of their names, one on each line, and come back in that form. Here texts are
bytes: `publishTargets` prints the names into a buffer on the stack, and `readTargets` reads such a buffer again.

A name may have 127 bytes, and an offer 64 names. Then the last line does not fit, since `snprintf` needs the last byte for
its NUL, and the reader takes no file of that length. A name may also contain the separator.

- `writeNames_spec`: what is printed, as long as the names leave room;
- `readNames_eq_some`: the atoms that are read;
- `targets_round_trip`: when a list of targets comes back.
-/

namespace Lorie.DataExchange.Targets

open Lorie.Lib

/-- `LORIE_DATA_MAX_TARGETS` -/
abbrev maxTargets : Nat := 64

/-- The bytes of the buffers of `publishTargets` and `readTargets` -/
abbrev namesSize : Nat := maxTargets * 128

def newline : UInt8 := 10

def slash : UInt8 := 47

/-- The bytes of a text of ASCII characters -/
def ascii (s : String) : List UInt8 := s.toList.map fun c => c.toNat.toUInt8

/-! ## Atoms -/

/-- The atoms of the X server and their names, which are texts of C. An atom that does not exist yet stands for its name. -/
structure AtomTable (α : Type*) where
  /-- `NameForAtom`, when the atom is valid -/
  nameForAtom : α → Option (List UInt8)
  /-- `atom`, which makes the atom of a name -/
  makeAtom : List UInt8 → α
  noNul : ∀ {a name}, nameForAtom a = some name → 0 ∉ name
  nameForAtom_makeAtom : ∀ {name}, 0 ∉ name → nameForAtom (makeAtom name) = some name
  makeAtom_nameForAtom : ∀ {a name}, nameForAtom a = some name → makeAtom name = a

/-- `supportedName` -/
def supportedName : Option (List UInt8) → Bool
  | none => false
  | some name => name.length < 128 && (name.contains slash || name == ascii "UTF8_STRING" || name == ascii "STRING" ||
      name == ascii "TEXT")

section

variable {α : Type*} (table : AtomTable α)

/-- The name of an atom -/
def AtomTable.name (a : α) : List UInt8 := (table.nameForAtom a).getD []

/-- All of them have supported names. -/
def Supported (targets : List α) : Prop := ∀ a ∈ targets, supportedName (table.nameForAtom a) = true

instance [DecidableEq α] (targets : List α) : Decidable (Supported table targets) :=
  inferInstanceAs (Decidable (∀ a ∈ targets, supportedName (table.nameForAtom a) = true))

/-- The targets that `receive` stores of the atoms in a property -/
def storeTargets : List α → List α → List α
  | [], targets => targets
  | a :: values, targets =>
    if targets.length < maxTargets then
      storeTargets values
        (if (table.nameForAtom a).isSome && supportedName (table.nameForAtom a) then targets ++ [a] else targets)
    else targets

/-! ## Writing -/

/-- What `snprintf` puts into a room: as much of the line as there is room for, and a NUL. -/
def printed (room : Nat) (line : List UInt8) : List UInt8 := if room = 0 then [] else line.take (room - 1) ++ [0]

/-- `snprintf` of a line behind what is filled; it returns the length of the whole line. Outside the memory there is no
result. -/
def snprintf (b : Buffer UInt8) (room : Nat) (line : List UInt8) : Option (Buffer UInt8) :=
  if b.filled + (printed room line).length ≤ b.memory.length then
    some { memory := (b.write (printed room line)).memory, filled := b.filled + line.length }
  else none

/-- The loop of `publishTargets` -/
def writeNames : List α → Buffer UInt8 → Option (Buffer UInt8)
  | [], b => some b
  | a :: targets, b =>
    if supportedName (table.nameForAtom a) then
      match snprintf b (sizeSub namesSize b.filled) (table.name a ++ [newline]) with
      | none => none
      | some b => writeNames targets b
    else writeNames targets b

/-- What the kernel answers to the calls on a file. -/
structure Calls where
  memfdCreate : Bool
  pwrite : Bool
  fstat : Bool
  pread : Bool

/-- All calls succeed. -/
def Calls.succeed : Calls := ⟨true, true, true, true⟩

/-- `bytesFile`: the file, if it can be made. Outside the memory there is no result. -/
def bytesFile (calls : Calls) (b : Buffer UInt8) : Option (Option (List UInt8)) :=
  if calls.memfdCreate = false then some none
  else if b.filled = 0 then some (some [])
  else if b.memory.length < b.filled then none
  else if calls.pwrite then some (some (b.memory.take b.filled))
  else some none

/-- `publishTargets`, with what its buffer holds before: the file that goes out with the event -/
def publishTargets (calls : Calls) (names : Vector UInt8 namesSize) (targets : List α) : Option (Option (List UInt8)) :=
  match writeNames table targets { memory := names.toList, filled := 0 } with
  | none => none
  | some b => bytesFile calls b

/-! ## Reading -/

/-- The loop of `readTargets` over the tokens -/
def readNames : List (List UInt8) → List α → Option (List α)
  | [], targets => some targets
  | name :: names, targets =>
    if targets.length = maxTargets ∨ supportedName (some name) = false then none
    else readNames names (targets ++ [table.makeAtom name])

/-- `readTargets` into an offer that has `targets` -/
def readTargets (calls : Calls) (targets : List α) : Option (List UInt8) → Option (List α)
  | none => none
  | some file =>
    if calls.fstat = false ∨ namesSize ≤ file.length then none
    else if calls.pread = false then none
    else readNames table (tokens newline (file.takeWhile (· ≠ 0))) targets

end

/-! ## Supported names -/

section

variable {α : Type*} {table : AtomTable α} {targets : List α}

theorem supportedName_length {name : List UInt8} (h : supportedName (some name) = true) : name.length < 128 := by
  simp only [supportedName, Bool.and_eq_true, decide_eq_true_eq] at h
  exact h.1

theorem supportedName_ne_nil {name : List UInt8} (h : supportedName (some name) = true) : name ≠ [] := by
  rintro rfl
  revert h
  decide

/-- A supported name is the name of an atom. -/
theorem Supported.name (h : Supported table targets) {a : α} (ha : a ∈ targets) :
    table.nameForAtom a = some (table.name a) ∧ supportedName (some (table.name a)) = true := by
  have hs := h a ha
  unfold AtomTable.name
  cases hname : table.nameForAtom a with
  | none =>
    rw [hname] at hs
    cases hs
  | some name => exact ⟨rfl, hname ▸ hs⟩

theorem Supported.tail {a : α} (h : Supported table (a :: targets)) : Supported table targets :=
  fun b hb => h b (List.mem_cons_of_mem _ hb)

/-! ## What is written -/

/-- The file as it should be -/
def nameLines (table : AtomTable α) (targets : List α) : List UInt8 := lines newline (targets.map table.name)

theorem printed_length (room : Nat) (line : List UInt8) : (printed room line).length ≤ room := by
  unfold printed
  by_cases h : room = 0
  · simp [h]
  · simp only [if_neg h, List.length_append, List.length_take, List.length_singleton]
    omega

/-- A line that leaves room for the NUL -/
theorem printed_fits {room : Nat} {line : List UInt8} (h : line.length < room) : printed room line = line ++ [0] := by
  unfold printed
  rw [if_neg (by omega), List.take_of_length_le (by omega)]

theorem snprintf_eq {b : Buffer UInt8} {room : Nat} {line : List UInt8} (h : b.filled + room = b.memory.length) :
    snprintf b room line =
      some { memory := (b.write (printed room line)).memory, filled := b.filled + line.length } := by
  have := printed_length room line
  unfold snprintf
  rw [if_pos (by omega)]

/-- A line behind what is filled -/
theorem write_printed {b : Buffer UInt8} {room : Nat} {line : List UInt8} (h : b.filled + room = b.memory.length)
    (hfits : line.length < room) :
    (b.write (printed room line)).memory.take (b.filled + line.length) = b.memory.take b.filled ++ line := by
  have hlen : (b.memory.take b.filled ++ line).length = b.filled + line.length := by
    rw [List.length_append, List.length_take]
    omega
  have hsplit : (b.write (printed room line)).memory =
      b.memory.take b.filled ++ line ++ (0 :: b.memory.drop (b.filled + (printed room line).length)) := by
    unfold Buffer.write
    simp only [printed_fits hfits, List.append_assoc, List.cons_append, List.nil_append]
  rw [hsplit, ← hlen]
  exact List.take_left

/-- **What is printed.** There is always room for the names that remain; and if the whole stays below the size of the memory,
each name stands there on its line. -/
theorem writeNames_spec (h : Supported table targets) {b : Buffer UInt8} (hmem : b.memory.length = namesSize)
    (hroom : b.filled + 128 * targets.length ≤ namesSize) :
    ∃ b', writeNames table targets b = some b' ∧ b'.memory.length = namesSize ∧
      b'.filled = b.filled + (nameLines table targets).length ∧
      (b'.filled < namesSize → b'.memory.take b'.filled = b.memory.take b.filled ++ nameLines table targets) := by
  induction targets generalizing b with
  | nil => exact ⟨b, rfl, hmem, rfl, fun _ => (List.append_nil _).symm⟩
  | cons a targets ih =>
    obtain ⟨hname, hsupported⟩ := h.name List.mem_cons_self
    have hshort := supportedName_length hsupported
    have hwrap : sizeSub namesSize b.filled = namesSize - b.filled := sizeSub_eq (by omega) (by decide)
    have hline : (table.name a ++ [newline]).length = (table.name a).length + 1 := List.length_append
    rw [List.length_cons] at hroom
    have hfree : b.filled + (namesSize - b.filled) = b.memory.length := by omega
    have hmem' : (b.write (printed (namesSize - b.filled) (table.name a ++ [newline]))).memory.length = namesSize := by
      have := printed_length (namesSize - b.filled) (table.name a ++ [newline])
      rw [Buffer.write_length (by omega), hmem]
    obtain ⟨b', hwrite, hlen, hfilled, htake⟩ := ih h.tail
      (b := { memory := (b.write (printed (namesSize - b.filled) (table.name a ++ [newline]))).memory
              filled := b.filled + (table.name a ++ [newline]).length }) hmem' (by simp only; omega)
    have hlines : (nameLines table (a :: targets)).length = (table.name a ++ [newline]).length +
        (nameLines table targets).length := List.length_append
    refine ⟨b', ?_, hlen, ?_, ?_⟩
    · unfold writeNames
      rw [if_pos (h a List.mem_cons_self), hwrap, snprintf_eq hfree]
      exact hwrite
    · rw [hfilled, hlines]
      simp only
      omega
    · intro hlt
      simp only at hfilled htake
      rw [htake hlt, write_printed hfree (by omega), List.append_assoc]
      rfl

/-- The lines take at most 128 bytes each. -/
theorem nameLines_le (h : Supported table targets) : (nameLines table targets).length ≤ 128 * targets.length := by
  induction targets with
  | nil => exact Nat.le_refl _
  | cons a targets ih =>
    have hline := supportedName_length (h.name List.mem_cons_self).2
    have htail := ih h.tail
    have hlines : (nameLines table (a :: targets)).length = (table.name a ++ [newline]).length +
        (nameLines table targets).length := List.length_append
    rw [hlines, List.length_append, List.length_singleton, List.length_cons]
    omega

/-- They take as much only if all of the names are as long as they can be. -/
theorem nameLines_full (h : Supported table targets) :
    (nameLines table targets).length = 128 * targets.length ↔ ∀ a ∈ targets, (table.name a).length = 127 := by
  induction targets with
  | nil => simp [nameLines]
  | cons a targets ih =>
    have hline := supportedName_length (h.name List.mem_cons_self).2
    have htail := nameLines_le h.tail
    have hlines : (nameLines table (a :: targets)).length = (table.name a ++ [newline]).length +
        (nameLines table targets).length := List.length_append
    rw [hlines, List.length_append, List.length_singleton, List.length_cons, List.forall_mem_cons, ← ih h.tail]
    omega

/-- When the lines stay below the size of the buffer. -/
theorem nameLines_lt (h : Supported table targets) (hlen : targets.length ≤ maxTargets) :
    (nameLines table targets).length < namesSize ↔
      ¬ (targets.length = maxTargets ∧ ∀ a ∈ targets, (table.name a).length = 127) := by
  have hle := nameLines_le h
  rw [← nameLines_full h]
  show _ < 64 * 128 ↔ ¬ (_ = 64 ∧ _)
  change _ ≤ 64 at hlen
  omega

/-- `publishTargets` stays in its buffer, whatever the kernel answers. -/
theorem publishTargets_inside (h : Supported table targets) (hlen : targets.length ≤ maxTargets) (calls : Calls)
    (names : Vector UInt8 namesSize) :
    ∃ b, publishTargets table calls names targets = bytesFile calls b ∧ bytesFile calls b ≠ none ∧
      b.filled = (nameLines table targets).length ∧ b.memory.length = namesSize ∧
      (b.filled < namesSize → b.memory.take b.filled = nameLines table targets) := by
  have hroom : 0 + 128 * targets.length ≤ namesSize := by
    change targets.length ≤ 64 at hlen
    show 0 + 128 * targets.length ≤ 64 * 128
    omega
  obtain ⟨b, hwrite, hmem, hfilled, htake⟩ := writeNames_spec h (b := ⟨names.toList, 0⟩) names.length_toList hroom
  have hle := nameLines_le h
  refine ⟨b, ?_, ?_, hfilled.trans (Nat.zero_add _), hmem, htake⟩
  · unfold publishTargets
    rw [hwrite]
  · unfold bytesFile
    rw [if_neg (show ¬ b.memory.length < b.filled by simp only at hfilled; omega)]
    split_ifs <;> simp

/-! ## What is read -/

/-- The atoms of the names -/
theorem readNames_eq_some {names : List (List UInt8)} {read : List α} (h : readNames table names targets = some read) :
    read = targets ++ names.map table.makeAtom := by
  induction names generalizing targets with
  | nil =>
    cases h
    exact (List.append_nil _).symm
  | cons name names ih =>
    unfold readNames at h
    by_cases hno : targets.length = maxTargets ∨ supportedName (some name) = false
    · rw [if_pos hno] at h
      cases h
    · rw [if_neg hno] at h
      rw [ih h, List.append_assoc]
      rfl

theorem readNames_supported {names : List (List UInt8)} (h : ∀ name ∈ names, supportedName (some name) = true)
    (hlen : targets.length + names.length ≤ maxTargets) :
    readNames table names targets = some (targets ++ names.map table.makeAtom) := by
  induction names generalizing targets with
  | nil => exact congrArg some (List.append_nil _).symm
  | cons name names ih =>
    obtain ⟨hname, hnames⟩ := List.forall_mem_cons.1 h
    rw [List.length_cons] at hlen
    have hno : ¬ (targets.length = maxTargets ∨ supportedName (some name) = false) := by
      rintro (hfull | hfalse)
      · omega
      · rw [hname] at hfalse
        cases hfalse
    unfold readNames
    rw [if_neg hno, ih hnames (by rw [List.length_append, List.length_singleton]; omega), List.append_assoc]
    rfl

theorem readTargets_some (calls : Calls) (file : List UInt8) :
    readTargets table calls targets (some file) =
      if calls.fstat = false ∨ namesSize ≤ file.length then none
      else if calls.pread = false then none
      else readNames table (tokens newline (file.takeWhile (· ≠ 0))) targets := rfl

/-- A list that comes back has names without the separator. -/
theorem readTargets_newline {calls : Calls} {file : List UInt8} (h : readTargets table calls [] (some file) = some targets) :
    file.length < namesSize ∧ ∀ a ∈ targets, newline ∉ table.name a := by
  rw [readTargets_some] at h
  by_cases hstat : calls.fstat = false ∨ namesSize ≤ file.length
  · rw [if_pos hstat] at h
    cases h
  by_cases hread : calls.pread = false
  · rw [if_neg hstat, if_pos hread] at h
    cases h
  rw [if_neg hstat, if_neg hread] at h
  refine ⟨Nat.lt_of_not_le fun hle => hstat (.inr hle), ?_⟩
  intro a ha
  rw [readNames_eq_some h, List.nil_append] at ha
  obtain ⟨name, hname, rfl⟩ := List.mem_map.1 ha
  obtain ⟨hsep, hsub⟩ := mem_tokens hname
  have hnul : 0 ∉ name := fun h0 => by simpa using List.mem_takeWhile_imp (hsub h0)
  unfold AtomTable.name
  rw [table.nameForAtom_makeAtom hnul]
  exact hsep

/-- The lines are read as the targets that they came from. -/
theorem readTargets_lines (h : Supported table targets) (hlen : targets.length ≤ maxTargets)
    (hnewline : ∀ a ∈ targets, newline ∉ table.name a) (hsize : (nameLines table targets).length < namesSize) :
    readTargets table .succeed [] (some (nameLines table targets)) = some targets := by
  have hnames : ∀ name ∈ targets.map table.name, ∃ a ∈ targets, table.nameForAtom a = some name ∧
      supportedName (some name) = true := by
    intro name hname
    obtain ⟨a, ha, rfl⟩ := List.mem_map.1 hname
    exact ⟨a, ha, h.name ha⟩
  have hnul : (nameLines table targets).takeWhile (· ≠ 0) = nameLines table targets := by
    apply List.takeWhile_eq_self_iff.2
    intro c hc
    rcases mem_lines hc with rfl | ⟨name, hname, hc⟩
    · decide
    · obtain ⟨a, -, heq, -⟩ := hnames name hname
      exact decide_eq_true fun h0 => table.noNul heq (h0 ▸ hc)
  have htokens : tokens newline (nameLines table targets) = targets.map table.name := by
    apply tokens_lines
    · intro hnil
      obtain ⟨-, -, -, hsupported⟩ := hnames _ hnil
      exact supportedName_ne_nil hsupported rfl
    · intro name hname
      obtain ⟨a, ha, rfl⟩ := List.mem_map.1 hname
      exact hnewline a ha
  have hatoms : (targets.map table.name).map table.makeAtom = targets := by
    rw [List.map_map]
    have hmap : targets.map (table.makeAtom ∘ table.name) = targets.map id :=
      List.map_congr_left fun a ha => table.makeAtom_nameForAtom (h.name ha).1
    rw [hmap, List.map_id]
  have hstat : ¬ (Calls.succeed.fstat = false ∨ namesSize ≤ (nameLines table targets).length) := by
    rintro (hno | hle)
    · cases hno
    · omega
  rw [readTargets_some, if_neg hstat, if_neg (by decide), hnul, htokens, readNames_supported, hatoms]
  · rfl
  · intro name hname
    obtain ⟨-, -, -, hsupported⟩ := hnames name hname
    exact hsupported
  · rw [List.length_map]
    exact (Nat.zero_add _).trans_le hlen

/-! ## The round trip -/

/-- The file that goes out holds the lines, and is read as the targets. -/
def RoundTrips (table : AtomTable α) (names : Vector UInt8 namesSize) (targets : List α) : Prop :=
  publishTargets table .succeed names targets = some (some (nameLines table targets)) ∧
    readTargets table .succeed [] (some (nameLines table targets)) = some targets

theorem publishTargets_lines (h : Supported table targets) (hlen : targets.length ≤ maxTargets)
    (names : Vector UInt8 namesSize) (hsize : (nameLines table targets).length < namesSize) :
    publishTargets table .succeed names targets = some (some (nameLines table targets)) := by
  obtain ⟨b, hpublish, -, hfilled, hmem, htake⟩ := publishTargets_inside h hlen .succeed names
  rw [hpublish, ← htake (by omega)]
  unfold bytesFile
  by_cases hzero : b.filled = 0
  · simp [Calls.succeed, hzero]
  · rw [if_neg (by decide), if_neg hzero, if_neg (by omega)]
    rfl

/-- **When the targets of an offer come back.** The buffer is never left; and the file holds the lines and is read as the same
targets, unless a name has the separator in it, or there are as many names as there can be and all as long as they can be. -/
theorem targets_round_trip (h : Supported table targets) (hlen : targets.length ≤ maxTargets)
    (names : Vector UInt8 namesSize) :
    (∀ calls, publishTargets table calls names targets ≠ none) ∧
      (RoundTrips table names targets ↔
        (∀ a ∈ targets, newline ∉ table.name a) ∧
          ¬ (targets.length = maxTargets ∧ ∀ a ∈ targets, (table.name a).length = 127)) := by
  constructor
  · intro calls
    obtain ⟨b, hpublish, hinside, -⟩ := publishTargets_inside h hlen calls names
    rw [hpublish]
    exact hinside
  · rw [← nameLines_lt h hlen]
    constructor
    · rintro ⟨-, hread⟩
      exact (readTargets_newline hread).symm
    · rintro ⟨hnewline, hsize⟩
      exact ⟨publishTargets_lines h hlen names hsize, readTargets_lines h hlen hnewline hsize⟩

end

/-- The atoms of texts, each text its own atom -/
def texts : AtomTable (List UInt8) where
  nameForAtom name := if 0 ∈ name then none else some name
  makeAtom name := name
  noNul := by
    intro a name h
    split_ifs at h with h0
    cases h
    exact h0
  nameForAtom_makeAtom h := if_neg h
  makeAtom_nameForAtom := by
    intro a name h
    split_ifs at h
    cases h
    rfl

/-- Two content types come back. -/
theorem targets_round_trip_text :
    RoundTrips texts (Vector.replicate namesSize 0) [ascii "text/plain", ascii "UTF8_STRING"] :=
  (@targets_round_trip _ texts [ascii "text/plain", ascii "UTF8_STRING"] (by decide) (by decide)
    (Vector.replicate namesSize 0)).2.2 ⟨by decide, by decide⟩

/-- Sixty-four names of 127 bytes -/
def fullOffer : List (List UInt8) := List.replicate 64 (slash :: List.replicate 126 97)

/-- A name with a newline -/
def cutOffer : List (List UInt8) := [ascii "text/\nplain"]

/-- Neither they nor a name with a newline come back. -/
theorem targets_lost :
    (fullOffer.length ≤ maxTargets ∧ Supported texts fullOffer ∧ ∀ names, ¬ RoundTrips texts names fullOffer) ∧
      cutOffer.length ≤ maxTargets ∧ Supported texts cutOffer ∧ ∀ names, ¬ RoundTrips texts names cutOffer := by
  have hfull : Supported texts fullOffer := by
    intro a ha
    rw [List.eq_of_mem_replicate ha]
    decide +kernel
  refine ⟨⟨by decide, hfull, ?_⟩, by decide, by decide, ?_⟩
  · rintro names ⟨-, hread⟩
    have hlen := (nameLines_full hfull).2 fun a ha => by
      rw [List.eq_of_mem_replicate ha]
      decide +kernel
    have hlt := (readTargets_newline hread).1
    rw [hlen] at hlt
    exact absurd hlt (by decide)
  · rintro names ⟨-, hread⟩
    exact (readTargets_newline hread).2 _ List.mem_cons_self (by decide)

end Lorie.DataExchange.Targets
