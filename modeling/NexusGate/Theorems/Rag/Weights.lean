import NexusGate.Theorems.Rag.Terms
import Mathlib.Algebra.Order.Field.Basic
import Mathlib.Algebra.BigOperators.Group.List.Lemmas

/-! # The weights of a document

The dictionary of counts has every id of a text once, with the number of the tokens that have it, whether or not they are the
same term. A weight `tf * (K1 + 1) / (tf + norm)` grows with the count and stays below `K1 + 1`; divided by the count it
falls, and it falls with the length of the text, which the norm grows with. -/

namespace NexusGate.Rag.Lexical

/-! ### The dictionary of counts -/

section Counts
variable {key i : Nat} {e : Nat × Nat} {keys : List Nat} {entries : List (Nat × Nat)} {tokens : List String}

/-- The entries are what the keys number, each key once. -/
structure Tallied (keys : List Nat) (entries : List (Nat × Nat)) : Prop where
  nodup : (entries.map Prod.fst).Nodup
  mem : ∀ i, i ∈ entries.map Prod.fst ↔ i ∈ keys
  count : ∀ e ∈ entries, e.2 = keys.count e.1
  total : (entries.map Prod.snd).sum = keys.length

theorem nodup_bump (h : (entries.map Prod.fst).Nodup) : ((bump key entries).map Prod.fst).Nodup := by
  induction entries with
  | nil => exact List.nodup_singleton key
  | cons entry entries ih =>
    obtain ⟨k, n⟩ := entry
    obtain ⟨hk, htail⟩ := List.nodup_cons.mp h
    rw [bump]
    split
    · exact h
    · rename_i hne
      refine List.nodup_cons.mpr ⟨fun hmem => ?_, ih htail⟩
      rcases keys_bump.mp hmem with heq | hmem
      · exact hne heq
      · exact hk hmem

/-- What a bump writes: the entry of the key anew, and no other. -/
theorem mem_bump (h : (entries.map Prod.fst).Nodup) (he : e ∈ bump key entries) :
    (e.1 ≠ key ∧ e ∈ entries) ∨ (e.1 = key ∧ (key ∉ entries.map Prod.fst ∧ e.2 = 1 ∨ ∃ n, (key, n) ∈ entries ∧ e.2 = n + 1)) := by
  induction entries with
  | nil =>
    cases List.mem_singleton.mp he
    exact .inr ⟨rfl, .inl ⟨List.not_mem_nil, rfl⟩⟩
  | cons entry entries ih =>
    obtain ⟨k, n⟩ := entry
    obtain ⟨hk, htail⟩ := List.nodup_cons.mp h
    rw [bump] at he
    split at he
    · rename_i heq
      subst heq
      rcases List.mem_cons.mp he with rfl | he
      · exact .inr ⟨rfl, .inr ⟨n, List.mem_cons_self, rfl⟩⟩
      · exact .inl ⟨fun heq => hk (heq ▸ List.mem_map.mpr ⟨e, he, rfl⟩), List.mem_cons_of_mem _ he⟩
    · rename_i hne
      rcases List.mem_cons.mp he with rfl | he
      · exact .inl ⟨hne, List.mem_cons_self⟩
      · rcases ih htail he with ⟨hkey, he⟩ | ⟨hkey, ⟨hnot, hone⟩ | ⟨m, hm, hsucc⟩⟩
        · exact .inl ⟨hkey, List.mem_cons_of_mem _ he⟩
        · refine .inr ⟨hkey, .inl ⟨fun hmem => ?_, hone⟩⟩
          rcases List.mem_cons.mp hmem with heq | hmem
          · exact hne heq.symm
          · exact hnot hmem
        · exact .inr ⟨hkey, .inr ⟨m, List.mem_cons_of_mem _ hm, hsucc⟩⟩

theorem sum_bump : ((bump key entries).map Prod.snd).sum = (entries.map Prod.snd).sum + 1 := by
  induction entries with
  | nil => rfl
  | cons entry entries ih =>
    obtain ⟨k, n⟩ := entry
    rw [bump]
    split
    · rw [List.map_cons, List.sum_cons, List.map_cons, List.sum_cons, Nat.add_right_comm]
    · rw [List.map_cons, List.sum_cons, ih, List.map_cons, List.sum_cons, Nat.add_assoc]

theorem Tallied.bump (h : Tallied keys entries) : Tallied (keys ++ [key]) (bump key entries) where
  nodup := nodup_bump h.nodup
  mem i := by rw [keys_bump, h.mem, List.mem_append, List.mem_singleton, or_comm]
  count e he := by
    rw [List.count_append]
    rcases mem_bump h.nodup he with ⟨hne, he⟩ | ⟨rfl, ⟨hnot, hone⟩ | ⟨n, hn, hsucc⟩⟩
    · rw [List.count_singleton, if_neg (by simpa using Ne.symm hne), Nat.add_zero, h.count e he]
    · rw [List.count_eq_zero_of_not_mem fun hmem => hnot ((h.mem _).mpr hmem), hone, List.count_singleton_self]
    · rw [hsucc, List.count_singleton_self]
      exact congrArg (· + 1) (h.count _ hn)
  total := by rw [sum_bump, h.total, List.length_append, List.length_singleton]

theorem Tallied.foldl (h : Tallied keys entries) :
    Tallied (keys ++ tokens.map termId) (tokens.foldl (fun counts token => Lexical.bump (termId token) counts) entries) := by
  induction tokens generalizing keys entries with
  | nil => rwa [List.map_nil, List.append_nil]
  | cons token tokens ih =>
    have hbump : Tallied (keys ++ [termId token]) _ := h.bump
    have := ih hbump
    rwa [List.append_assoc, List.singleton_append] at this

theorem counts_tallied : Tallied (tokens.map termId) (counts tokens) :=
  @Tallied.foldl [] [] tokens ⟨List.nodup_nil, fun _ => Iff.rfl, nofun, rfl⟩

end Counts

/-! ### The weight of a count -/

section Weight
variable {m n : ℚ} {tf tf' : Nat} {len len' : Nat}

theorem norm_pos {averageLength : ℚ} (h : 0 < averageLength) : 0 < norm len averageLength := by
  have hlen : 0 ≤ B * len / averageLength := by
    exact div_nonneg (mul_nonneg (by decide +kernel) (Nat.cast_nonneg len)) h.le
  exact mul_pos (by decide +kernel) (add_pos_of_pos_of_nonneg (by decide +kernel) hlen)

theorem norm_lt {averageLength : ℚ} (h : 0 < averageLength) (hlt : len < len') : norm len averageLength < norm len' averageLength := by
  refine mul_lt_mul_of_pos_left (add_lt_add_right ?_ _) (by decide +kernel)
  exact div_lt_div_of_pos_right (mul_lt_mul_of_pos_left (Nat.cast_lt.mpr hlt) (by decide +kernel)) h

theorem K1_succ_pos : (0 : ℚ) < K1 + 1 := by decide +kernel

theorem weight_pos (hn : 0 < n) (htf : 0 < tf) : 0 < weight n tf := by
  have htf' : (0 : ℚ) < tf := Nat.cast_pos.mpr htf
  exact div_pos (mul_pos htf' K1_succ_pos) (add_pos htf' hn)

/-- The part of its limit that a weight has. -/
theorem weight_eq : weight n tf = (K1 + 1) * (tf / (tf + n)) := by rw [weight, mul_comm, mul_div_assoc]

theorem weight_lt (hn : 0 < n) : weight n tf < K1 + 1 := by
  have hsum : (0 : ℚ) < tf + n := add_pos_of_nonneg_of_pos (Nat.cast_nonneg tf) hn
  rw [weight_eq]
  exact mul_lt_of_lt_one_right K1_succ_pos ((div_lt_one hsum).mpr (lt_add_of_pos_right _ hn))

theorem weight_lt_weight (hn : 0 < n) (h : tf < tf') : weight n tf < weight n tf' := by
  have hsum : ∀ k : Nat, (0 : ℚ) < k + n := fun k => add_pos_of_nonneg_of_pos (Nat.cast_nonneg k) hn
  have hlt : (tf : ℚ) < tf' := Nat.cast_lt.mpr h
  rw [weight_eq, weight_eq]
  refine mul_lt_mul_of_pos_left ((div_lt_div_iff₀ (hsum tf) (hsum tf')).mpr ?_) K1_succ_pos
  rw [mul_add, mul_add, mul_comm (tf' : ℚ) tf]
  exact add_lt_add_right (mul_lt_mul_of_pos_right hlt hn) _

theorem weight_div (htf : 0 < tf) : weight n tf / tf = (K1 + 1) / (tf + n) := by
  have htf' : (tf : ℚ) ≠ 0 := Nat.cast_ne_zero.mpr htf.ne'
  rw [weight, div_right_comm, mul_div_cancel_left₀ _ htf']

/-- A count saturates: what each token adds becomes less. -/
theorem weight_div_lt (hn : 0 < n) (htf : 0 < tf) (h : tf < tf') : weight n tf' / tf' < weight n tf / tf := by
  have hlt : (tf : ℚ) < tf' := Nat.cast_lt.mpr h
  rw [weight_div htf, weight_div (htf.trans h)]
  exact div_lt_div_of_pos_left K1_succ_pos (add_pos_of_nonneg_of_pos (Nat.cast_nonneg tf) hn) (add_lt_add_left hlt n)

theorem weight_norm_lt (hn : 0 < n) (htf : 0 < tf) (h : n < m) : weight m tf < weight n tf := by
  have htf' : (0 : ℚ) < tf := Nat.cast_pos.mpr htf
  exact div_lt_div_of_pos_left (mul_pos htf' K1_succ_pos) (add_pos htf' hn) (add_lt_add_right h _)

end Weight

/-! ### Documents -/

/-- How many tokens of a text have the id. -/
def occurrences (L : Lowering) (text : String) (i : Nat) : Nat := ((terms L text).map termId).count i

/-- The indices of a vector, each with its value. -/
def SparseTerms.entries (v : SparseTerms) : List (Nat × ℚ) := v.indices.zip v.values

/-- What BM25 asks of the weights of documents. -/
structure WeighsAsBM25 (L : Lowering) : Prop where
  distinct : ∀ text, (documentTerms L text).indices.Nodup
  weighed : ∀ text, (documentTerms L text).values.length = (documentTerms L text).indices.length
  counted : ∀ text, (counts (terms L text)).map Prod.fst = (documentTerms L text).indices ∧
    (∀ e ∈ counts (terms L text), e.2 = occurrences L text e.1) ∧
      ((counts (terms L text)).map Prod.snd).sum = (terms L text).length
  bounded : ∀ text, ∀ e ∈ (documentTerms L text).entries, 0 < e.2 ∧ e.2 < K1 + 1
  saturates : ∀ text text', (terms L text).length = (terms L text').length →
    ∀ e ∈ (documentTerms L text).entries, ∀ e' ∈ (documentTerms L text').entries,
      occurrences L text e.1 < occurrences L text' e'.1 →
        e.2 < e'.2 ∧ e'.2 / occurrences L text' e'.1 < e.2 / occurrences L text e.1
  normalises : ∀ text text', (terms L text).length < (terms L text').length →
    ∀ e ∈ (documentTerms L text).entries, ∀ e' ∈ (documentTerms L text').entries,
      occurrences L text e.1 = occurrences L text' e'.1 → e'.2 < e.2

section Documents
variable {L : Lowering} {text : String} {averageLength : ℚ}

theorem values_documentTerms : (documentTerms L text averageLength).values =
    (counts (terms L text)).map fun entry => weight (norm (terms L text).length averageLength) entry.2 := by
  rw [documentTerms]
  split
  · rename_i h
    rw [h]
    rfl
  · rfl

/-- An entry of a document is an id that occurs in it, with the weight of how often it does. -/
theorem mem_entries {e : Nat × ℚ} (he : e ∈ (documentTerms L text averageLength).entries) :
    0 < occurrences L text e.1 ∧ e.2 = weight (norm (terms L text).length averageLength) (occurrences L text e.1) := by
  rw [SparseTerms.entries, indices_documentTerms, values_documentTerms, List.zip_map'] at he
  obtain ⟨entry, hentry, rfl⟩ := List.mem_map.mp he
  have hcount : entry.2 = occurrences L text entry.1 := counts_tallied.count entry hentry
  refine ⟨List.count_pos_iff.mpr ((counts_tallied.mem entry.1).mp (List.mem_map_of_mem hentry)), ?_⟩
  show weight _ entry.2 = _
  rw [hcount]

end Documents

theorem documentTerms_bm25 (L : Lowering) : WeighsAsBM25 L := by
  have hnorm : ∀ len, 0 < norm len AVERAGE_LENGTH := fun len => norm_pos (by decide +kernel)
  constructor
  case distinct =>
    intro text
    rw [indices_documentTerms]
    exact counts_tallied.nodup
  case weighed =>
    intro text
    rw [indices_documentTerms, values_documentTerms, List.length_map, List.length_map]
  case counted =>
    intro text
    refine ⟨indices_documentTerms.symm, counts_tallied.count, ?_⟩
    rw [counts_tallied.total, List.length_map]
  case bounded =>
    intro text e he
    obtain ⟨hpos, hweight⟩ := mem_entries he
    rw [hweight]
    exact ⟨weight_pos (hnorm _) hpos, weight_lt (hnorm _)⟩
  case saturates =>
    intro text text' hlen e he e' he' hlt
    obtain ⟨hpos, hweight⟩ := mem_entries he
    obtain ⟨-, hweight'⟩ := mem_entries he'
    rw [hweight, hweight', hlen]
    exact ⟨weight_lt_weight (hnorm _) hlt, weight_div_lt (hnorm _) hpos hlt⟩
  case normalises =>
    intro text text' hlen e he e' he' heq
    obtain ⟨hpos, hweight⟩ := mem_entries he
    obtain ⟨-, hweight'⟩ := mem_entries he'
    rw [hweight, hweight', ← heq]
    exact weight_norm_lt (hnorm _) hpos (norm_lt (by decide +kernel) hlen)

end NexusGate.Rag.Lexical
