import Mathlib.Algebra.BigOperators.Group.Finset.Basic
import Mathlib.Algebra.Group.Submonoid.BigOperators
import Mathlib.Logic.Function.Basic

/-! # Amounts on a board

A board has an entry for each of finitely many threads. Every entry stands for an amount; writing one entry changes the
sum by what the entry was and what it is. -/

namespace Async
variable {β M : Type} [AddCommGroup M] {Γ : Nat → Option β} {amount : β → M} {m : M}

/-- What an entry stands for, nothing where there is none. -/
def entryAmount (amount : β → M) (x : Option β) : M := x.elim 0 amount

@[simp] theorem entryAmount_none : entryAmount amount none = 0 := rfl

@[simp] theorem entryAmount_some {x : β} : entryAmount amount (some x) = amount x := rfl

/-- The amounts of all entries add up to `m`. -/
def Sums (Γ : Nat → Option β) (amount : β → M) (m : M) : Prop :=
  ∃ A : Finset Nat, (∀ i, i ∉ A → Γ i = none) ∧ ∑ i ∈ A, entryAmount amount (Γ i) = m

namespace Sums

theorem empty : Sums (fun _ => none) amount 0 := ⟨∅, fun _ _ => rfl, Finset.sum_empty⟩

/-- One entry is written. -/
theorem update (h : Sums Γ amount m) (i : Nat) (x : Option β) :
    Sums (Function.update Γ i x) amount (m - entryAmount amount (Γ i) + entryAmount amount x) := by
  obtain ⟨A, hA, rfl⟩ := h
  have hother : ∀ j ∈ A.erase i, entryAmount amount (Function.update Γ i x j) = entryAmount amount (Γ j) := fun j hj => by
    rw [Function.update_of_ne (Finset.ne_of_mem_erase hj)]
  refine ⟨insert i A, fun j hj => ?_, ?_⟩
  · obtain ⟨hji, hjA⟩ := not_or.mp (Finset.mem_insert.not.mp hj)
    rw [Function.update_of_ne hji, hA j hjA]
  · have hold : ∑ j ∈ A, entryAmount amount (Γ j) = entryAmount amount (Γ i) + ∑ j ∈ A.erase i, entryAmount amount (Γ j) := by
      by_cases hi : i ∈ A
      · exact (Finset.add_sum_erase A _ hi).symm
      · rw [Finset.erase_eq_of_notMem hi, hA i hi, entryAmount_none, zero_add]
    rw [← Finset.add_sum_erase (insert i A) _ (Finset.mem_insert_self i A), Finset.erase_insert_eq_erase,
      Finset.sum_congr rfl hother, Function.update_self, hold, add_sub_cancel_left, add_comm]

/-- Entries that stand for nothing. -/
theorem eq_zero (h : Sums Γ amount m) (hzero : ∀ i x, Γ i = some x → amount x = 0) : m = 0 := by
  obtain ⟨A, -, rfl⟩ := h
  refine Finset.sum_eq_zero fun i _ => ?_
  cases hi : Γ i with
  | none => rfl
  | some x => exact hzero i x hi

/-- A sum has what all amounts have. -/
theorem closed (h : Sums Γ amount m) {S : AddSubmonoid M} (hS : ∀ i x, Γ i = some x → amount x ∈ S) : m ∈ S := by
  obtain ⟨A, -, rfl⟩ := h
  refine sum_mem fun i _ => ?_
  cases hi : Γ i with
  | none => exact S.zero_mem
  | some x => exact hS i x hi

end Sums
end Async
