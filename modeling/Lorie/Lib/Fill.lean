import Mathlib.Data.List.Basic

/-!
# Filling a buffer from a stream

A stream carries data and, between them, marks that are taken whole. A read takes any number of the data at its front,
up to what it asks for, and may as well give nothing now. A buffer of fixed memory is filled by such reads.

- `Buffer.read`: one read into the part of the memory that is not filled;
- `Filling b target rest s`: `b` holds the first part of `target`, and the stream continues with its other part, then
  with `rest`;
- `Filling.read`: every read keeps this, or leaves `target` in the memory and the stream at `rest`.
-/

namespace Lorie.Lib

variable {β γ : Type*}

/-- An element of a stream. -/
inductive Item (β γ : Type*) where
  | data (b : β)
  | mark (m : γ)
  deriving DecidableEq, Repr

/-- The data at the front of a stream. -/
def leading : List (Item β γ) → List β
  | .data b :: s => b :: leading s
  | _ => []

theorem leading_append (bs : List β) (s : List (Item β γ)) : leading (bs.map .data ++ s) = bs ++ leading s := by
  induction bs with
  | nil => rfl
  | cons b bs ih => simp only [List.map_cons, List.cons_append, leading, ih]

/-- What the environment answers to a read: nothing now, that there is nothing more, or at most `k + 1` data. -/
inductive Read where
  | again
  | closed
  | bytes (k : Nat)
  deriving DecidableEq, Repr

/-- A memory and how much of it is filled. -/
structure Buffer (β : Type*) where
  memory : List β
  filled : Nat
  deriving DecidableEq, Repr

/-- What a read comes to: the buffer is not full yet, there is nothing to read, or it is full. -/
inductive Outcome where
  | wait
  | failed
  | full
  deriving DecidableEq, Repr

namespace Buffer

/-- Data behind what is filled. -/
def write (b : Buffer β) (bs : List β) : Buffer β where
  memory := b.memory.take b.filled ++ bs ++ b.memory.drop (b.filled + bs.length)
  filled := b.filled + bs.length

/-- One read into a buffer of `size`. -/
def read (b : Buffer β) (size : Nat) (r : Read) (s : List (Item β γ)) : Outcome × Buffer β × List (Item β γ) :=
  match r with
  | .again => (.wait, b, s)
  | .closed => (.failed, b, s)
  | .bytes k =>
    if s.isEmpty then (.wait, b, s)
    else
      let got := (leading s).take (min (k + 1) (size - b.filled))
      if got.isEmpty then (.failed, b, s)
      else (if b.filled + got.length = size then .full else .wait, b.write got, s.drop got.length)

theorem write_length {b : Buffer β} {bs : List β} (h : b.filled + bs.length ≤ b.memory.length) :
    (b.write bs).memory.length = b.memory.length := by
  unfold write
  simp only [List.length_append, List.length_take, List.length_drop]
  omega

theorem write_take {b : Buffer β} {bs : List β} (h : b.filled + bs.length ≤ b.memory.length) :
    (b.write bs).memory.take (b.filled + bs.length) = b.memory.take b.filled ++ bs := by
  have hlen : (b.memory.take b.filled ++ bs).length = b.filled + bs.length := by
    rw [List.length_append, List.length_take]
    omega
  unfold write
  rw [← hlen]
  exact List.take_left

end Buffer

/-- The buffer holds the first part of `target`; the stream goes on with its other part, then with `rest`. -/
structure Filling (b : Buffer β) (target : List β) (rest s : List (Item β γ)) : Prop where
  room : target.length ≤ b.memory.length
  lt : b.filled < target.length
  front : b.memory.take b.filled = target.take b.filled
  stream : s = (target.drop b.filled).map .data ++ rest

namespace Filling

variable {b : Buffer β} {target : List β} {rest s : List (Item β γ)}

/-- An empty buffer, and all of the target on the stream. -/
theorem start (hroom : target.length ≤ b.memory.length) (hpos : 0 < target.length) (hb : b.filled = 0)
    (hs : s = target.map .data ++ rest) : Filling b target rest s := by
  refine ⟨hroom, hb ▸ hpos, ?_, ?_⟩
  · rw [hb]
    rfl
  · rw [hb]
    exact hs

theorem ne_nil (h : Filling b target rest s) : s ≠ [] := by
  intro hs
  have hlen := congrArg List.length h.stream
  rw [hs, List.length_append, List.length_map, List.length_drop] at hlen
  have := h.lt
  simp only [List.length_nil] at hlen
  omega

/-- The data that a read takes. -/
theorem take_leading (h : Filling b target rest s) (n : Nat) :
    (leading s).take (min n (target.length - b.filled)) = (target.drop b.filled).take n := by
  rw [h.stream, leading_append]
  have hlen : (target.drop b.filled).length = target.length - b.filled := List.length_drop
  rw [← hlen, List.take_append_of_le_length (Nat.min_le_right _ _)]
  rw [← List.take_take, List.take_length]

/-- The data taken are written, and the stream goes on behind them. -/
theorem write (h : Filling b target rest s) {n : Nat} (hn : n ≤ target.length - b.filled) :
    let got := (target.drop b.filled).take n
    (b.write got).memory.take (b.filled + n) = target.take (b.filled + n) ∧
      (b.write got).memory.length = b.memory.length ∧
      s.drop n = (target.drop (b.filled + n)).map .data ++ rest := by
  intro got
  have hgot : got.length = n := by
    simp only [got, List.length_take, List.length_drop]
    omega
  have hroom : b.filled + got.length ≤ b.memory.length := by
    have := h.room
    have := h.lt
    omega
  refine ⟨?_, Buffer.write_length hroom, ?_⟩
  · have htake := Buffer.write_take hroom
    rw [hgot] at htake
    rw [htake, h.front, List.take_add]
  · rw [h.stream, List.drop_append_of_le_length (by simp only [List.length_map, List.length_drop]; omega)]
    rw [← List.map_drop, List.drop_drop]

/-- **A read of a filling buffer**: it goes on filling, at a later place when data came; or the target is in the memory and
the stream is behind it. -/
theorem read (h : Filling b target rest s) {r : Read} (hr : r ≠ .closed) :
    (∃ b' s', b.read target.length r s = (.wait, b', s') ∧ Filling b' target rest s' ∧
      b'.memory.length = b.memory.length ∧ s'.length ≤ s.length ∧ ((∃ k, r = .bytes k) → s'.length < s.length)) ∨
    (∃ b' s', b.read target.length r s = (.full, b', s') ∧ b'.memory.take target.length = target ∧
      b'.memory.length = b.memory.length ∧ s' = rest ∧ s'.length < s.length) := by
  have hlt := h.lt
  cases r with
  | again => exact .inl ⟨b, s, rfl, h, rfl, Nat.le_refl _, nofun⟩
  | closed => exact absurd rfl hr
  | bytes k =>
    -- at least one byte is taken
    obtain ⟨n, hn⟩ : ∃ n, min (k + 1) (target.length - b.filled) = n := ⟨_, rfl⟩
    have hgot : (leading s).take n = (target.drop b.filled).take n := by
      have h' := h.take_leading n
      have hmin : min n (target.length - b.filled) = n := by omega
      rwa [hmin] at h'
    have hpos : 0 < n := by omega
    have hlen : ((target.drop b.filled).take n).length = n := by
      simp only [List.length_take, List.length_drop]
      omega
    obtain ⟨hfront, hmem, hstream⟩ := h.write (n := n) (by omega)
    have hread : b.read target.length (.bytes k) s =
        (if b.filled + n = target.length then .full else .wait, b.write ((target.drop b.filled).take n), s.drop n) := by
      have hs : s.isEmpty = false := List.isEmpty_eq_false_iff.2 h.ne_nil
      have hne : ((target.drop b.filled).take n).isEmpty = false := by
        refine List.isEmpty_eq_false_iff.2 fun hnil => ?_
        rw [hnil] at hlen
        simp only [List.length_nil] at hlen
        omega
      simp only [Buffer.read, hs, hn, hgot, hne, hlen, Bool.false_eq_true, if_false]
    have hsl : n ≤ s.length := by
      rw [h.stream, List.length_append, List.length_map, List.length_drop]
      omega
    have hless : (s.drop n).length < s.length := by
      rw [List.length_drop]
      omega
    by_cases hfull : b.filled + n = target.length
    · refine .inr ⟨_, _, by rw [hread, if_pos hfull], ?_, hmem, ?_, hless⟩
      · rw [hfull, List.take_length] at hfront
        exact hfront
      · rw [hstream, hfull, List.drop_length]
        rfl
    · refine .inl ⟨_, _, by rw [hread, if_neg hfull], ⟨?_, ?_, ?_, ?_⟩, hmem, Nat.le_of_lt hless, fun _ => hless⟩
      · rw [hmem]
        exact h.room
      · show b.filled + _ < _
        rw [hlen]
        omega
      · show List.take (b.filled + _) _ = List.take (b.filled + _) _
        rw [hlen]
        exact hfront
      · show _ = List.map _ (List.drop (b.filled + _) _) ++ _
        rw [hlen]
        exact hstream

end Filling

end Lorie.Lib
