import NexusGate.Rag.Lexical

/-! # Identifiers are found

Wherever a text has an identifier that nothing around it can be part of, the identifier is a match of its own: the match
before it is closed, and its own goes on to its end. So the terms of the text have the terms of the identifier, also of its
parts written apart, and a term has the same id in a query and in a document. -/

namespace NexusGate.Rag.Lexical

/-- Parts of `[a-z0-9]+`, with a joint between two of them. -/
inductive Identifier : List Char → Prop
  | part {p : List Char} (ne : p ≠ []) (chars : ∀ c ∈ p, isPart c = true) : Identifier p
  | joined {p w : List Char} {joint : Char} (ne : p ≠ []) (chars : ∀ c ∈ p, isPart c = true) (hj : isJoint joint = true)
      (rest : Identifier w) : Identifier (p ++ joint :: w)

/-- A character outside `[a-z0-9._-]`. -/
def isOutside (c : Char) : Bool := !(isPart c || isJoint c)

/-- The text has `w` between its ends or characters that no identifier has. -/
def Delimited (w text : List Char) : Prop :=
  ∃ before after, text = before ++ w ++ after ∧ (∀ c ∈ before.getLast?, isOutside c = true) ∧
    ∀ c ∈ after.head?, isOutside c = true

/-- The separators of an identifier replaced by spaces. -/
def spaced (w : List Char) : List Char := w.map fun c => if isJoint c then ' ' else c

/-! ### The matches around a character that no term has -/

section Finditer
variable {c x : Char} {m p w as bs text : List Char}

theorem isOutside_iff : isOutside c = true ↔ isPart c = false ∧ isJoint c = false := by
  rw [isOutside, Bool.not_eq_true', Bool.or_eq_false_iff]

theorem finditer_cons_outside (hx : isOutside x = true) : finditer m (x :: bs) = close m ++ finditer [] bs := by
  obtain ⟨hp, hj⟩ := isOutside_iff.mp hx
  rw [finditer, hp, hj, if_neg (by simp)]

/-- What the match that is open sees of the text after a character is whether a part begins there. -/
theorem finditer_append_outside (hx : isOutside x = true) : ∀ {m as}, finditer m (as ++ x :: bs) = finditer m as ++ finditer [] bs
  | m, [] => finditer_cons_outside hx
  | m, a :: as => by
    have hhead : (as ++ x :: bs).head?.any isPart = as.head?.any isPart := by
      cases as with
      | nil => simp [(isOutside_iff.mp hx).1]
      | cons => rfl
    rw [List.cons_append, finditer, finditer, hhead]
    split
    · exact finditer_append_outside hx
    · rw [finditer_append_outside hx, List.append_assoc]

theorem finditer_part (hp : ∀ c ∈ p, isPart c = true) : finditer m (p ++ bs) = finditer (m ++ p) bs := by
  induction p generalizing m with
  | nil => rw [List.nil_append, List.append_nil]
  | cons c p ih =>
    obtain ⟨hc, hp⟩ := List.forall_mem_cons.mp hp
    rw [List.cons_append, finditer, hc, Bool.true_or, if_pos rfl, ih hp, List.append_assoc, List.singleton_append]

theorem finditer_joint (hm : m ≠ []) (hc : isJoint c = true) (hb : bs.head?.any isPart = true) :
    finditer m (c :: bs) = finditer (m ++ [c]) bs := by
  rw [finditer, if_pos (by simp [hm, hc, hb])]

theorem Identifier.head (h : Identifier w) : w.head?.any isPart = true := by
  cases h with
  | part ne chars | joined ne chars =>
    obtain ⟨c, p, rfl⟩ := List.exists_cons_of_ne_nil ne
    exact chars c List.mem_cons_self

/-- An identifier is matched to its end. -/
theorem Identifier.finditer (h : Identifier w) : finditer m w = [m ++ w] := by
  induction h generalizing m with
  | @part p ne chars =>
    have := @finditer_part m p [] chars
    rw [List.append_nil] at this
    rw [this, Lexical.finditer, close, if_neg (by simp [ne])]
  | @joined p w joint ne chars hj rest ih =>
    rw [finditer_part chars, finditer_joint (by simp [ne]) hj rest.head, ih]
    simp

/-- A delimited identifier is one of the matches. -/
theorem mem_finditer (hw : Identifier w) (h : Delimited w text) : w ∈ finditer [] text := by
  obtain ⟨before, after, rfl, hbefore, hafter⟩ := h
  have hright : w ∈ finditer [] (w ++ after) := by
    cases after with
    | nil => simp [hw.finditer]
    | cons x after => rw [finditer_append_outside (hafter x rfl), hw.finditer]; simp
  rcases List.eq_nil_or_concat before with rfl | ⟨before, x, rfl⟩
  · exact hright
  · rw [List.concat_eq_append] at hbefore ⊢
    have hx : isOutside x = true := hbefore x (by simp)
    rw [List.append_assoc, List.append_assoc, List.singleton_append, finditer_append_outside hx]
    exact List.mem_append_right _ hright

end Finditer

/-! ### The parts of an identifier -/

section Parts
variable {p w : List Char}

theorem isJoint_of_isPart {c : Char} (h : isPart c = true) : isJoint c = false := by
  rw [Bool.eq_false_iff]
  intro hj
  simp only [isJoint, Bool.or_eq_true, beq_iff_eq] at hj
  rcases hj with (rfl | rfl) | rfl <;> cases h

theorem parts_part (ne : p ≠ []) (chars : ∀ c ∈ p, isPart c = true) : parts p = [p] := by
  rw [parts, List.splitOnP_eq_singleton fun c hc => isJoint_of_isPart (chars c hc)]
  simp [ne]

theorem parts_joined {joint : Char} (ne : p ≠ []) (chars : ∀ c ∈ p, isPart c = true) (hj : isJoint joint = true) :
    parts (p ++ joint :: w) = p :: parts w := by
  rw [parts, List.splitOnP_append_cons p w hj, List.filter_append]
  exact congrArg (· ++ parts w) (parts_part ne chars)

theorem Identifier.parts_ne_nil (h : Identifier w) : parts w ≠ [] := by
  cases h with
  | part ne chars => rw [parts_part ne chars]; exact List.cons_ne_nil _ _
  | joined ne chars hj => rw [parts_joined ne chars hj]; exact List.cons_ne_nil _ _

theorem spaced_part (chars : ∀ c ∈ p, isPart c = true) : spaced p = p := by
  conv_rhs => rw [← List.map_id p]
  exact List.map_congr_left fun c hc => if_neg (by simp [isJoint_of_isPart (chars c hc)])

/-- Written apart, an identifier is its parts. -/
theorem Identifier.finditer_spaced (h : Identifier w) : Lexical.finditer [] (spaced w) = parts w := by
  induction h with
  | part ne chars => rw [spaced_part chars, (Identifier.part ne chars).finditer, parts_part ne chars, List.nil_append]
  | joined ne chars hj rest ih =>
    rw [parts_joined ne chars hj, ← ih, spaced, List.map_append, List.map_cons, if_pos hj]
    show Lexical.finditer [] (spaced _ ++ ' ' :: spaced _) = _
    rw [finditer_append_outside rfl, spaced_part chars, (Identifier.part ne chars).finditer, List.nil_append, List.singleton_append]

theorem Identifier.mem_parts (h : Identifier w) : ∀ p ∈ parts w, p ≠ [] ∧ ∀ c ∈ p, isPart c = true := by
  induction h with
  | part ne chars =>
    rw [parts_part ne chars]
    exact List.forall_mem_singleton.mpr ⟨ne, chars⟩
  | joined ne chars hj rest ih =>
    rw [parts_joined ne chars hj]
    exact List.forall_mem_cons.mpr ⟨⟨ne, chars⟩, ih⟩

/-- The parts of an identifier are among what it is expanded to. -/
theorem Identifier.parts_subset (h : Identifier w) : ∀ p ∈ parts w, p ∈ expand w := by
  intro p hp
  cases h with
  | part ne chars =>
    rw [parts_part ne chars] at hp
    exact List.mem_cons.mpr (.inl (List.mem_singleton.mp hp))
  | joined ne chars hj rest =>
    rw [expand, if_pos ?_]
    · exact List.mem_cons_of_mem _ hp
    · rw [parts_joined ne chars hj, List.length_cons]
      exact Nat.succ_lt_succ (List.length_pos_of_ne_nil rest.parts_ne_nil)

theorem expand_part (ne : p ≠ []) (chars : ∀ c ∈ p, isPart c = true) : expand p = [p] := by
  rw [expand, parts_part ne chars, if_neg (by simp)]

theorem Identifier.expand_parts (h : Identifier w) : (parts w).flatMap expand = parts w := by
  have hone : ∀ p ∈ parts w, expand p = [p] := fun p hp => expand_part (h.mem_parts p hp).1 (h.mem_parts p hp).2
  rw [List.flatMap_congr hone, List.flatMap_singleton']

end Parts

/-! ### Lower case -/

section Lower
variable {L : Lowering} {w : List Char}

theorem toNat_lt_of_isPart {c : Char} (h : isPart c = true) : c.toNat < 128 := by
  simp only [isPart, Bool.or_eq_true, Bool.and_eq_true, decide_eq_true_eq] at h
  omega

theorem toLower_of_isPart {c : Char} (h : isPart c = true) : c.toLower = c := by
  simp only [isPart, Bool.or_eq_true, Bool.and_eq_true, decide_eq_true_eq] at h
  refine dif_neg fun hupper => ?_
  have hle : c.toNat ≤ 90 := hupper.2
  have hge : 65 ≤ c.toNat := hupper.1
  omega

theorem Identifier.mem (h : Identifier w) : ∀ c ∈ w, isPart c = true ∨ isJoint c = true := by
  induction h with
  | part ne chars => exact fun c hc => .inl (chars c hc)
  | joined ne chars hj rest ih =>
    intro c hc
    rcases List.mem_append.mp hc with hc | hc
    · exact .inl (chars c hc)
    · rcases List.mem_cons.mp hc with rfl | hc
      · exact .inr hj
      · exact ih c hc

theorem lower_eq (h : ∀ c ∈ w, isPart c = true ∨ isJoint c = true ∨ c = ' ') : L.lower w = w := by
  have hkept : ∀ c ∈ w, c.toNat < 128 ∧ c.toLower = c := by
    intro c hc
    rcases h c hc with hp | hj | rfl
    · exact ⟨toNat_lt_of_isPart hp, toLower_of_isPart hp⟩
    · simp only [isJoint, Bool.or_eq_true, beq_iff_eq] at hj
      rcases hj with (rfl | rfl) | rfl <;> exact ⟨by decide, by decide⟩
    · exact ⟨by decide, by decide⟩
  rw [L.lower_ascii fun c hc => (hkept c hc).1]
  conv_rhs => rw [← List.map_id w]
  exact List.map_congr_left fun c hc => (hkept c hc).2

theorem Identifier.lower (h : Identifier w) : L.lower w = w :=
  lower_eq fun c hc => (h.mem c hc).imp_right .inl

theorem Identifier.lower_spaced (h : Identifier w) : L.lower (spaced w) = spaced w := by
  refine lower_eq fun c hc => ?_
  obtain ⟨d, hd, rfl⟩ := List.mem_map.mp hc
  split
  · exact .inr (.inr rfl)
  · exact (h.mem d hd).imp_right .inl

theorem Identifier.terms (h : Identifier w) : terms L (.ofList w) = (expand w).map .ofList := by
  rw [Lexical.terms, String.toList_ofList, h.lower, h.finditer, List.nil_append, List.flatMap_singleton]

theorem Identifier.terms_spaced (h : Identifier w) : Lexical.terms L (.ofList (spaced w)) = (parts w).map .ofList := by
  rw [Lexical.terms, String.toList_ofList, h.lower_spaced, h.finditer_spaced, h.expand_parts]

end Lower

/-! ### Ids -/

section Ids
variable {L : Lowering} {text : String} {key i : Nat} {tokens : List String}

theorem keys_bump {entries : List (Nat × Nat)} : i ∈ (bump key entries).map Prod.fst ↔ i = key ∨ i ∈ entries.map Prod.fst := by
  induction entries with
  | nil => simp [bump]
  | cons entry entries ih =>
    obtain ⟨k, n⟩ := entry
    rw [bump]
    split
    · rename_i hk
      simp [hk]
    · rw [List.map_cons, List.mem_cons, ih, List.map_cons, List.mem_cons, or_left_comm]

theorem keys_foldl {entries : List (Nat × Nat)} :
    i ∈ (tokens.foldl (fun counts token => bump (termId token) counts) entries).map Prod.fst ↔
      i ∈ tokens.map termId ∨ i ∈ entries.map Prod.fst := by
  induction tokens generalizing entries with
  | nil => simp
  | cons token tokens ih => rw [List.foldl_cons, ih, keys_bump, List.map_cons, List.mem_cons, or_left_comm, or_assoc]

theorem mem_counts : i ∈ (counts tokens).map Prod.fst ↔ i ∈ tokens.map termId := by
  rw [counts, keys_foldl]
  simp

theorem indices_documentTerms {averageLength : ℚ} :
    (documentTerms L text averageLength).indices = (counts (terms L text)).map Prod.fst := by
  rw [documentTerms]
  split
  · rename_i h
    rw [h]
    rfl
  · rfl

theorem mem_documentTerms : i ∈ (documentTerms L text).indices ↔ i ∈ (terms L text).map termId := by
  rw [indices_documentTerms, mem_counts]

theorem mem_queryTerms : i ∈ (queryTerms L text).indices ↔ i ∈ (terms L text).map termId := List.mem_eraseDups

end Ids

/-- Every index that a query for an identifier has, written whole or apart, is an index of a document with the identifier. -/
theorem identifier_found (L : Lowering) {w : List Char} {d : String} (hw : Identifier w) (hd : Delimited w (L.lower d.toList)) :
    (∀ i ∈ (queryTerms L (.ofList w)).indices, i ∈ (documentTerms L d).indices) ∧
      ∀ i ∈ (queryTerms L (.ofList (spaced w))).indices, i ∈ (documentTerms L d).indices := by
  have hwhole : ∀ t ∈ expand w, String.ofList t ∈ terms L d := fun t ht =>
    List.mem_map_of_mem (List.mem_flatMap.mpr ⟨w, mem_finditer hw hd, ht⟩)
  refine ⟨fun i hi => ?_, fun i hi => ?_⟩
  · rw [mem_queryTerms, hw.terms, List.map_map] at hi
    obtain ⟨t, ht, rfl⟩ := List.mem_map.mp hi
    exact mem_documentTerms.mpr (List.mem_map_of_mem (hwhole t ht))
  · rw [mem_queryTerms, hw.terms_spaced, List.map_map] at hi
    obtain ⟨t, ht, rfl⟩ := List.mem_map.mp hi
    exact mem_documentTerms.mpr (List.mem_map_of_mem (hwhole t (hw.parts_subset t ht)))

/-- `ng-1017` in a sentence. -/
theorem identifier_found_ng :
    (∀ i ∈ (queryTerms .ascii (.ofList "ng-1017".toList)).indices, i ∈ (documentTerms .ascii "See NG-1017 (draft)").indices) ∧
      ∀ i ∈ (queryTerms .ascii (.ofList (spaced "ng-1017".toList))).indices,
        i ∈ (documentTerms .ascii "See NG-1017 (draft)").indices :=
  identifier_found .ascii (w := "ng-1017".toList)
    (@Identifier.joined ['n', 'g'] _ '-' (by decide) (by simp [isPart]) rfl
      (@Identifier.part ['1', '0', '1', '7'] (by decide) (by simp [isPart])))
    ⟨"see ".toList, " (draft)".toList, by decide, by simp [isOutside, isPart, isJoint], by simp [isOutside, isPart, isJoint]⟩

end NexusGate.Rag.Lexical
