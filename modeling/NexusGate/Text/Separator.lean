import Mathlib.Data.List.Basic
import Mathlib.Data.List.Infix

/-! # Texts joined by a separator

Reading back the parts of a text that was put together from parts and a separator character: the split is
unique at the first separator when the left parts have none, and at the last one when the right parts
have none. -/

namespace Text

theorem first_split {α : Type} {c : α} : ∀ {x₁ x₂ z₁ z₂ : List α}, c ∉ x₁ → c ∉ x₂ →
    x₁ ++ c :: z₁ = x₂ ++ c :: z₂ → x₁ = x₂ ∧ z₁ = z₂
  | [], [], _, _, _, _, h => ⟨rfl, (List.cons.inj h).2⟩
  | [], _ :: _, _, _, _, h₂, h => absurd ((List.cons.inj h).1 ▸ List.mem_cons_self) h₂
  | _ :: _, [], _, _, h₁, _, h => absurd ((List.cons.inj h).1.symm ▸ List.mem_cons_self) h₁
  | _ :: _, _ :: _, _, _, h₁, h₂, h => by
    obtain ⟨rfl, htail⟩ := List.cons.inj h
    obtain ⟨rfl, rfl⟩ := first_split (fun hc => h₁ (List.mem_cons_of_mem _ hc))
      (fun hc => h₂ (List.mem_cons_of_mem _ hc)) htail
    exact ⟨rfl, rfl⟩

theorem last_split {α : Type} {c : α} {x₁ x₂ z₁ z₂ : List α} (h₁ : c ∉ z₁) (h₂ : c ∉ z₂)
    (h : x₁ ++ c :: z₁ = x₂ ++ c :: z₂) : x₁ = x₂ ∧ z₁ = z₂ := by
  have h' : z₁.reverse ++ c :: x₁.reverse = z₂.reverse ++ c :: x₂.reverse := by
    simpa using congrArg List.reverse h
  obtain ⟨hz, hx⟩ := first_split (by simpa using h₁) (by simpa using h₂) h'
  exact ⟨List.reverse_injective hx, List.reverse_injective hz⟩

section
variable {c : Char} {sep a a' b b' : String}

theorem eq_of_first_sep (hs : sep.toList = [c]) (ha : c ∉ a.toList) (ha' : c ∉ a'.toList)
    (h : a ++ sep ++ b = a' ++ sep ++ b') : a = a' ∧ b = b' := by
  have := congrArg String.toList h
  simp only [String.toList_append, hs, List.append_assoc, List.singleton_append] at this
  obtain ⟨h₁, h₂⟩ := first_split ha ha' this
  exact ⟨String.toList_injective h₁, String.toList_injective h₂⟩

theorem eq_of_last_sep (hs : sep.toList = [c]) (hb : c ∉ b.toList) (hb' : c ∉ b'.toList)
    (h : a ++ sep ++ b = a' ++ sep ++ b') : a = a' ∧ b = b' := by
  have := congrArg String.toList h
  simp only [String.toList_append, hs, List.append_assoc, List.singleton_append] at this
  obtain ⟨h₁, h₂⟩ := last_split hb hb' this
  exact ⟨String.toList_injective h₁, String.toList_injective h₂⟩

end

/-- Texts whose beginnings already differ are different. -/
theorem append_ne_append {p q x y : String} (hpq : ¬p.toList <+: q.toList) (hqp : ¬q.toList <+: p.toList) :
    p ++ x ≠ q ++ y := by
  intro h
  have := congrArg String.toList h
  simp only [String.toList_append] at this
  rcases List.prefix_or_prefix_of_prefix (List.prefix_append p.toList x.toList)
    (this ▸ List.prefix_append q.toList y.toList) with h | h
  · exact hpq h
  · exact hqp h

/-! ### A text in a text -/

/-- `t in text`. -/
def Occurs (t text : String) : Prop := t.toList <:+: text.toList

theorem infix_or {α : Type} {c : α} {t xs ys : List α} (hc : c ∉ t) (h : t <:+: xs ++ c :: ys) : t <:+: xs ∨ t <:+: ys := by
  obtain ⟨s, r, h⟩ := h
  rcases List.append_eq_append_iff.mp h with ⟨as, rfl, -⟩ | ⟨bs, hbs, htail⟩
  · exact .inl ⟨s, as, rfl⟩
  · rcases List.append_eq_append_iff.mp hbs with ⟨as, rfl, hmid⟩ | ⟨cs, rfl, rfl⟩
    · cases bs with
      | nil => exact .inl ⟨s, [], by rw [hmid, List.append_nil, List.append_nil]⟩
      | cons b bs =>
        obtain ⟨rfl, -⟩ := List.cons.inj htail
        exact absurd (hmid ▸ List.mem_append_right _ List.mem_cons_self) hc
    · cases cs with
      | nil =>
        cases t with
        | nil => exact .inl (List.nil_infix)
        | cons b t =>
          obtain ⟨rfl, -⟩ := List.cons.inj htail
          exact absurd List.mem_cons_self hc
      | cons b cs =>
        obtain ⟨-, rfl⟩ := List.cons.inj htail
        exact .inr ⟨cs, r, rfl⟩

section
variable {c : Char} {sep t a b text : String} {texts : List String}

theorem Occurs.trans (h : Occurs t a) (h' : Occurs a text) : Occurs t text := List.IsInfix.trans h h'

theorem occurs_left : Occurs a (a ++ b) := by
  rw [Occurs, String.toList_append]
  exact (List.prefix_append _ _).isInfix

theorem occurs_right : Occurs b (a ++ b) := by
  rw [Occurs, String.toList_append]
  exact (List.suffix_append _ _).isInfix

theorem occurs_append_sep (hs : sep.toList = [c]) (hc : c ∉ t.toList) (h : Occurs t (a ++ sep ++ b)) :
    Occurs t a ∨ Occurs t b := by
  rw [Occurs, String.toList_append, String.toList_append, hs, List.append_assoc] at h
  exact infix_or hc h

theorem occurs_intercalate (h : text ∈ texts) : Occurs text (sep.intercalate texts) := by
  rw [Occurs, String.toList_intercalate]
  induction texts with
  | nil => cases h
  | cons x xs ih =>
    cases xs with
    | nil =>
      rw [List.mem_singleton.mp h, List.map_singleton, List.intercalate_singleton]
    | cons y ys =>
      rw [List.map_cons, List.map_cons, List.intercalate_cons_cons]
      rcases List.mem_cons.mp h with rfl | h
      · exact ((List.prefix_append _ _).trans (List.prefix_append _ _)).isInfix
      · exact (ih h).trans (List.suffix_append _ _).isInfix

theorem occurs_of_intercalate (hs : sep.toList = [c]) (hc : c ∉ t.toList) (hne : texts ≠ [])
    (h : Occurs t (sep.intercalate texts)) : ∃ x ∈ texts, Occurs t x := by
  rw [Occurs, String.toList_intercalate, hs] at h
  induction texts with
  | nil => exact absurd rfl hne
  | cons x xs ih =>
    cases xs with
    | nil =>
      rw [List.map_singleton, List.intercalate_singleton] at h
      exact ⟨x, List.mem_singleton_self x, h⟩
    | cons y ys =>
      rw [List.map_cons, List.map_cons, List.intercalate_cons_cons, List.append_assoc] at h
      rcases infix_or hc h with h | h
      · exact ⟨x, List.mem_cons_self, h⟩
      · obtain ⟨z, hz, hocc⟩ := ih (List.cons_ne_nil _ _) h
        exact ⟨z, List.mem_cons_of_mem _ hz, hocc⟩

end

end Text
