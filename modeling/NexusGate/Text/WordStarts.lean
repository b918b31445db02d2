import NexusGate.Text.Words

/-! # Where words begin

The words of a text are as many as the characters at which one begins, which can be counted piece by piece. -/

namespace Text

/-- How many words begin in a piece of a text; `fresh` says whether a word would begin at its first character. -/
def wordStarts : (fresh : Bool) → List Char → Nat
  | _, [] => 0
  | fresh, c :: cs => (if fresh && !isSpace c then 1 else 0) + wordStarts (isSpace c) cs

/-- Whether a word would begin behind a piece. -/
def opensWord (fresh : Bool) (cs : List Char) : Bool := (cs.getLast?.map isSpace).getD fresh

section
variable {fresh : Bool} {c d : Char} {x y cs : List Char}

theorem length_tokens_cons_cons (hc : isSpace c = false) (hd : isSpace d = false) :
    (tokens (c :: d :: cs)).length = (tokens (d :: cs)).length := by
  rw [tokens, tokens, List.splitOnP_cons_eq_if_modifyHead, if_neg (by simp [hc]),
    List.splitOnP_cons_eq_if_modifyHead (x := d), if_neg (by simp [hd])]
  cases hsplit : cs.splitOnP isSpace with
  | nil => exact absurd hsplit (List.splitOnP_ne_nil _ _)
  | cons w ws => simp

theorem length_tokens_aux : ∀ cs : List Char, (tokens cs).length = wordStarts true cs ∧
    ∀ c, isSpace c = false → (tokens (c :: cs)).length = 1 + wordStarts false cs
  | [] => by
    refine ⟨rfl, fun c hc => ?_⟩
    rw [tokens_word (List.cons_ne_nil _ _) (List.forall_mem_singleton.mpr hc)]
    rfl
  | d :: cs => by
    obtain ⟨hopen, hclosed⟩ := length_tokens_aux cs
    cases hd : isSpace d with
    | true =>
      refine ⟨by rw [tokens_cons_space cs hd, hopen, wordStarts, hd]; simp, fun c hc => ?_⟩
      rw [← List.singleton_append, tokens_append_cons [c] cs hd, List.length_append, hopen,
        tokens_word (List.cons_ne_nil _ _) (List.forall_mem_singleton.mpr hc), wordStarts, hd]
      simp
    | false =>
      refine ⟨by rw [hclosed d hd, wordStarts, hd]; simp, fun c hc => ?_⟩
      rw [length_tokens_cons_cons hc hd, hclosed d hd, wordStarts, hd]
      simp

theorem length_tokens : (tokens cs).length = wordStarts true cs := (length_tokens_aux cs).1

theorem wordStarts_append : wordStarts fresh (x ++ y) = wordStarts fresh x + wordStarts (opensWord fresh x) y := by
  induction x generalizing fresh with
  | nil => rw [List.nil_append, wordStarts, Nat.zero_add]; rfl
  | cons c x ih =>
    have hlast : opensWord fresh (c :: x) = opensWord (isSpace c) x := by
      rw [opensWord, opensWord, List.getLast?_cons]
      cases x.getLast? <;> rfl
    rw [List.cons_append, wordStarts, wordStarts, ih, hlast, Nat.add_assoc]

theorem length_words {text : String} : (words text).length = wordStarts true text.toList := by
  rw [words_eq, List.length_map, length_tokens]

end

end Text
