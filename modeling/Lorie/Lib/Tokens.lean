import Mathlib.Data.List.TakeWhile

/-!
# The tokens of a text

A text is cut at a separator as `strtok_r` does it: separators at the front are passed over, so that no token is empty.

- `nextToken`: one call, with the text that is left;
- `mem_tokens`: what a token is;
- `tokens_lines`: words that end in a separator each are the tokens of their text.
-/

namespace Lorie.Lib

variable {α : Type*} {sep : α}

/-- Words, each with a separator behind it -/
def lines (sep : α) (words : List (List α)) : List α := words.flatMap (· ++ [sep])

@[simp] theorem lines_nil : lines sep [] = [] := rfl

@[simp] theorem lines_cons (word : List α) (words : List (List α)) :
    lines sep (word :: words) = word ++ [sep] ++ lines sep words := rfl

theorem mem_lines {words : List (List α)} {c : α} (h : c ∈ lines sep words) : c = sep ∨ ∃ word ∈ words, c ∈ word := by
  obtain ⟨word, hword, hc⟩ := List.mem_flatMap.1 h
  rcases List.mem_append.1 hc with hc | hc
  · exact .inr ⟨word, hword, hc⟩
  · exact .inl (List.mem_singleton.1 hc)

variable [DecidableEq α]

/-- The first token, and what stands behind the separator that ends it. -/
def nextToken (sep : α) (text : List α) : Option (List α × List α) :=
  match text.dropWhile (· = sep) with
  | [] => none
  | c :: cs => some ((c :: cs).takeWhile (· ≠ sep), ((c :: cs).dropWhile (· ≠ sep)).tail)

theorem nextToken_length {text token rest : List α} (h : nextToken sep text = some (token, rest)) :
    rest.length < text.length := by
  unfold nextToken at h
  cases hdrop : text.dropWhile (· = sep) with
  | nil =>
    rw [hdrop] at h
    cases h
  | cons c cs =>
    rw [hdrop] at h
    cases h
    have hfront : (c :: cs).length ≤ text.length := hdrop ▸ (List.dropWhile_suffix _).length_le
    have hrest : ((c :: cs).dropWhile (· ≠ sep)).length ≤ (c :: cs).length := (List.dropWhile_suffix _).length_le
    simp only [List.length_cons, List.length_tail] at hfront hrest ⊢
    omega

/-- The tokens of a text, by one call after the other. -/
def tokens (sep : α) (text : List α) : List (List α) :=
  match _h : nextToken sep text with
  | none => []
  | some (token, rest) => token :: tokens sep rest
termination_by text.length
decreasing_by exact nextToken_length _h

theorem tokens_none {text : List α} (h : nextToken sep text = none) : tokens sep text = [] := by
  unfold tokens
  split
  · rfl
  · next heq =>
    rw [h] at heq
    cases heq

theorem tokens_some {text token rest : List α} (h : nextToken sep text = some (token, rest)) :
    tokens sep text = token :: tokens sep rest := by
  rw [tokens]
  split
  · next heq =>
    rw [h] at heq
    cases heq
  · next heq =>
    rw [h] at heq
    cases heq
    rfl

/-- A token holds no separator, and nothing that is not in the text. -/
theorem mem_nextToken {text token rest : List α} (h : nextToken sep text = some (token, rest)) :
    sep ∉ token ∧ token ⊆ text ∧ rest ⊆ text := by
  unfold nextToken at h
  cases hdrop : text.dropWhile (· = sep) with
  | nil =>
    rw [hdrop] at h
    cases h
  | cons c cs =>
    rw [hdrop] at h
    cases h
    have hsub : c :: cs ⊆ text := hdrop ▸ (List.dropWhile_suffix _).subset
    refine ⟨?_, ?_, ?_⟩
    · intro hsep
      have := List.mem_takeWhile_imp hsep
      simp at this
    · exact List.Subset.trans (List.takeWhile_prefix _).subset hsub
    · exact List.Subset.trans (List.tail_suffix _).subset (List.Subset.trans (List.dropWhile_suffix _).subset hsub)

theorem mem_tokens {text token : List α} (h : token ∈ tokens sep text) : sep ∉ token ∧ token ⊆ text := by
  induction hn : text.length using Nat.strong_induction_on generalizing text with
  | _ n ih =>
    cases hnext : nextToken sep text with
    | none =>
      rw [tokens_none hnext] at h
      cases h
    | some p =>
      obtain ⟨first, rest⟩ := p
      obtain ⟨hsep, hfirst, hrest⟩ := mem_nextToken hnext
      rw [tokens_some hnext] at h
      rcases List.mem_cons.1 h with rfl | h
      · exact ⟨hsep, hfirst⟩
      · obtain ⟨hsep, hsub⟩ := ih _ (hn ▸ nextToken_length hnext) h rfl
        exact ⟨hsep, List.Subset.trans hsub hrest⟩

/-- A word at the front of a text, up to the separator -/
theorem nextToken_word {word : List α} (hne : word ≠ []) (hsep : sep ∉ word) (rest : List α) :
    nextToken sep (word ++ [sep] ++ rest) = some (word, rest) := by
  cases word with
  | nil => exact absurd rfl hne
  | cons c cs =>
    have hc : c ≠ sep := fun h => hsep (h ▸ List.mem_cons_self)
    have hword : ∀ a ∈ c :: cs, decide (a ≠ sep) = true := fun a ha => decide_eq_true fun h => hsep (h ▸ ha)
    have hfront : (c :: cs ++ [sep] ++ rest).dropWhile (· = sep) = c :: (cs ++ [sep] ++ rest) := by
      simp [hc]
    have htake : ([sep] ++ rest).takeWhile (· ≠ sep) = [] := by simp
    have hdrop : ([sep] ++ rest).dropWhile (· ≠ sep) = sep :: rest := by simp
    unfold nextToken
    rw [hfront]
    show some ((c :: cs ++ [sep] ++ rest).takeWhile (· ≠ sep), ((c :: cs ++ [sep] ++ rest).dropWhile (· ≠ sep)).tail) =
      some (c :: cs, rest)
    rw [List.append_assoc, List.takeWhile_append_of_pos hword, List.dropWhile_append_of_pos hword, htake, hdrop,
      List.append_nil, List.tail_cons]

/-- **The tokens of lines** are the words. -/
theorem tokens_lines {words : List (List α)} (hne : [] ∉ words) (hsep : ∀ word ∈ words, sep ∉ word) :
    tokens sep (lines sep words) = words := by
  induction words with
  | nil => exact tokens_none rfl
  | cons word words ih =>
    obtain ⟨hword, hwords⟩ := List.forall_mem_cons.1 hsep
    have hnext := nextToken_word (fun h => hne (h ▸ List.mem_cons_self)) hword (lines sep words)
    rw [lines_cons, tokens_some hnext, ih (fun h => hne (List.mem_cons_of_mem _ h)) hwords]

end Lorie.Lib
