import Mathlib.Data.List.Basic
import Mathlib.Data.List.DropRight

/-! # Words of a text

`str.split()`, `str.strip()` and `str.count(" ")`: which characters are white space, and the runs of others between
them. Neither stripping nor joining with a white space changes the words. -/

namespace Text

/-- `str.isspace` of one character. -/
def isSpace (c : Char) : Bool :=
  let n := c.toNat
  (9 ≤ n && n ≤ 13) || (28 ≤ n && n ≤ 32) || n == 0x85 || n == 0xA0 || n == 0x1680 ||
    (0x2000 ≤ n && n ≤ 0x200A) || n == 0x2028 || n == 0x2029 || n == 0x202F || n == 0x205F || n == 0x3000

/-- `text.split()`. -/
def words (text : String) : List String :=
  ((text.toList.splitOnP isSpace).filter fun w => !w.isEmpty).map .ofList

/-- `text.count(" ")`. -/
def spaces (text : String) : Nat := text.toList.count ' '

/-- `text.strip()`. -/
def strip (cs : List Char) : List Char := (cs.dropWhile isSpace).rdropWhile isSpace

/-- The words of a list of characters. -/
def tokens (cs : List Char) : List (List Char) := (cs.splitOnP isSpace).filter fun w => !w.isEmpty

theorem words_eq {text : String} : words text = (tokens text.toList).map .ofList := rfl

section Tokens
variable {c : Char} {w cs sp : List Char}

@[simp] theorem tokens_nil : tokens [] = [] := rfl

theorem tokens_append_cons (xs ys : List Char) (hc : isSpace c = true) : tokens (xs ++ c :: ys) = tokens xs ++ tokens ys := by
  rw [tokens, List.splitOnP_append_cons xs ys hc, List.filter_append]
  rfl

theorem tokens_cons_space (ys : List Char) (hc : isSpace c = true) : tokens (c :: ys) = tokens ys :=
  tokens_append_cons [] ys hc

theorem tokens_space_append : ∀ {sp : List Char} (ys : List Char), (∀ c ∈ sp, isSpace c = true) → tokens (sp ++ ys) = tokens ys
  | [], _, _ => rfl
  | c :: sp, ys, h => by
    rw [List.cons_append, tokens_cons_space _ (h c List.mem_cons_self),
      tokens_space_append ys fun c' hc' => h c' (List.mem_cons_of_mem _ hc')]

theorem tokens_spaces (h : ∀ c ∈ sp, isSpace c = true) : tokens sp = [] := by
  have := tokens_space_append [] h
  rwa [List.append_nil] at this

theorem tokens_append_spaces (xs : List Char) (h : ∀ c ∈ sp, isSpace c = true) : tokens (xs ++ sp) = tokens xs := by
  cases sp with
  | nil => rw [List.append_nil]
  | cons c sp =>
    rw [tokens_append_cons _ _ (h c List.mem_cons_self), tokens_spaces fun c' hc' => h c' (List.mem_cons_of_mem _ hc'),
      List.append_nil]

/-- Two parts with white space between them. -/
theorem tokens_append_space_append (xs ys : List Char) (hsp : sp ≠ []) (h : ∀ c ∈ sp, isSpace c = true) :
    tokens (xs ++ (sp ++ ys)) = tokens xs ++ tokens ys := by
  cases sp with
  | nil => exact absurd rfl hsp
  | cons c sp =>
    rw [List.cons_append, tokens_append_cons _ _ (h c List.mem_cons_self),
      tokens_space_append ys fun c' hc' => h c' (List.mem_cons_of_mem _ hc')]

theorem tokens_word (hw : w ≠ []) (h : ∀ c ∈ w, isSpace c = false) : tokens w = [w] := by
  rw [tokens, List.splitOnP_eq_singleton h]
  simp [hw]

theorem mem_takeWhile_space {cs : List Char} : ∀ c ∈ cs.takeWhile isSpace, isSpace c = true := fun _ => List.mem_takeWhile_imp

theorem tokens_dropWhile : tokens (cs.dropWhile isSpace) = tokens cs := by
  conv_rhs => rw [← List.takeWhile_append_dropWhile (p := isSpace) (l := cs)]
  exact (tokens_space_append _ mem_takeWhile_space).symm

theorem tokens_rdropWhile : tokens (cs.rdropWhile isSpace) = tokens cs := by
  conv_rhs => rw [← List.rdropWhile_append_rtakeWhile (p := isSpace) (l := cs)]
  exact (tokens_append_spaces _ fun c => List.mem_rtakeWhile_imp).symm

theorem tokens_strip : tokens (strip cs) = tokens cs := tokens_rdropWhile.trans tokens_dropWhile

theorem tokens_intercalate (hc : isSpace c = true) : ∀ xss : List (List Char), tokens ([c].intercalate xss) = xss.flatMap tokens
  | [] => rfl
  | [xs] => by rw [List.intercalate_singleton, List.flatMap_singleton]
  | xs :: ys :: xss => by
    rw [List.intercalate_cons_cons, List.append_assoc, List.singleton_append, tokens_append_cons _ _ hc,
      tokens_intercalate hc (ys :: xss)]
    rfl

/-- The parts of a list have none of the elements that it is split at. -/
theorem mem_splitOnP {α : Type} {p : α → Bool} : ∀ {xs x : List α}, x ∈ xs.splitOnP p → ∀ a ∈ x, p a = false
  | [], x, h => by
    rw [List.splitOnP_nil, List.mem_singleton] at h
    subst h
    nofun
  | b :: xs, x, h => by
    rw [List.splitOnP_cons_eq_if_modifyHead] at h
    split at h
    · rcases List.mem_cons.mp h with rfl | h
      · nofun
      · exact mem_splitOnP h
    · rename_i hb
      cases hsplit : xs.splitOnP p with
      | nil => exact absurd hsplit (List.splitOnP_ne_nil _ _)
      | cons y ys =>
        rw [hsplit, List.modifyHead_cons] at h
        rcases List.mem_cons.mp h with rfl | h
        · exact List.forall_mem_cons.mpr ⟨by simpa using hb, mem_splitOnP (by rw [hsplit]; exact List.mem_cons_self)⟩
        · exact mem_splitOnP (by rw [hsplit]; exact List.mem_cons_of_mem _ h)

/-- A word is not empty, and has no white space in it. -/
theorem mem_tokens (hw : w ∈ tokens cs) : w ≠ [] ∧ ∀ c ∈ w, isSpace c = false := by
  obtain ⟨hmem, hne⟩ := List.mem_filter.mp hw
  exact ⟨by simpa using hne, mem_splitOnP hmem⟩

end Tokens

/-! ### Texts put together -/

theorem words_intercalate {sep : String} {c : Char} (hsep : sep.toList = [c]) (hc : isSpace c = true) (texts : List String) :
    words (sep.intercalate texts) = texts.flatMap words := by
  rw [words_eq, String.toList_intercalate, hsep, tokens_intercalate hc, List.flatMap_map, List.map_flatMap]
  rfl

theorem mem_words {w text : String} (h : w ∈ words text) : w.toList ≠ [] ∧ ∀ c ∈ w.toList, isSpace c = false := by
  obtain ⟨cs, hcs, rfl⟩ := List.mem_map.mp h
  rw [String.toList_ofList]
  exact mem_tokens hcs

/-- Words that are joined again with a white space. -/
theorem words_join {sep : String} {c : Char} (hsep : sep.toList = [c]) (hc : isSpace c = true) {ws : List String}
    (h : ∀ w ∈ ws, w.toList ≠ [] ∧ ∀ c ∈ w.toList, isSpace c = false) : words (sep.intercalate ws) = ws := by
  rw [words_intercalate hsep hc]
  induction ws with
  | nil => rfl
  | cons w ws ih =>
    obtain ⟨hne, hword⟩ := h w List.mem_cons_self
    rw [List.flatMap_cons, words_eq, tokens_word hne hword, ih fun w' hw' => h w' (List.mem_cons_of_mem _ hw')]
    simp

end Text
