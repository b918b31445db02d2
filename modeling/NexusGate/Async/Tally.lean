import Mathlib.Data.Finset.Card
import Mathlib.Logic.Function.Basic

/-! # Counting entries of a board

A board has an entry for each of finitely many threads. A tally is the set of the threads whose entry has a
property; writing one entry changes its size by what the entry was and what it is. -/

namespace Async
variable {β : Type} {Γ : Nat → Option β} {q : β → Bool} {A : Finset Nat}

/-- The threads whose entry has the property `q`. -/
def Tally (Γ : Nat → Option β) (q : β → Bool) (A : Finset Nat) : Prop := ∀ i, i ∈ A ↔ (Γ i).any q = true

namespace Tally

theorem empty : Tally (fun _ => none) q ∅ := fun _ => iff_of_false (Finset.notMem_empty _) Bool.false_ne_true

theorem unique {B : Finset Nat} (h : Tally Γ q A) (h' : Tally Γ q B) : A = B :=
  Finset.ext fun i => (h i).trans (h' i).symm

theorem mono {q' : β → Bool} {B : Finset Nat} (hq : ∀ x, q x = true → q' x = true) (h : Tally Γ q A)
    (h' : Tally Γ q' B) : A.card ≤ B.card := by
  refine Finset.card_le_card fun i hi => (h' i).mpr ?_
  obtain ⟨x, hx, hqx⟩ := (Option.any_eq_true _ _).mp ((h i).mp hi)
  exact (Option.any_eq_true _ _).mpr ⟨x, hx, hq x hqx⟩

/-- One entry is written. -/
theorem update (h : Tally Γ q A) (i : Nat) (x : Option β) : ∃ A', Tally (Function.update Γ i x) q A' ∧
    A'.card + ((Γ i).any q).toNat = A.card + (x.any q).toNat := by
  have hother (B : Finset Nat) (hB : ∀ j, j ≠ i → (j ∈ B ↔ j ∈ A)) (hi : i ∈ B ↔ x.any q = true) :
      Tally (Function.update Γ i x) q B := by
    intro j
    by_cases hj : j = i
    · subst hj
      rw [Function.update_self]
      exact hi
    · rw [Function.update_of_ne hj]
      exact (hB j hj).trans (h j)
  cases hx : x.any q with
  | true =>
    refine ⟨insert i A, hother _ (fun j hj => ?_) (iff_of_true (Finset.mem_insert_self i A) hx), ?_⟩
    · rw [Finset.mem_insert, or_iff_right hj]
    · cases hold : (Γ i).any q with
      | true => rw [Finset.insert_eq_self.mpr ((h i).mpr hold)]
      | false =>
        rw [Finset.card_insert_of_notMem fun hi => Bool.false_ne_true (hold.symm.trans ((h i).mp hi))]
        rfl
  | false =>
    refine ⟨A.erase i, hother _ (fun j hj => ?_) (iff_of_false (Finset.notMem_erase i A) (by rw [hx]; nofun)), ?_⟩
    · rw [Finset.mem_erase, and_iff_right hj]
    · cases hold : (Γ i).any q with
      | true => exact Finset.card_erase_add_one ((h i).mpr hold)
      | false =>
        rw [Finset.erase_eq_of_notMem fun hi => Bool.false_ne_true (hold.symm.trans ((h i).mp hi))]

end Tally
end Async
