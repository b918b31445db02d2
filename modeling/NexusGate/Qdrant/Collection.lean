import Mathlib.Data.List.Basic
import Mathlib.Logic.Function.Basic

/-! # A collection of points

The points of a vector database, each found under its id: writing a batch overwrites what is there under the same
ids, and a deletion takes out every point that a filter accepts. -/

namespace Qdrant
variable {ι π : Type} [DecidableEq ι]

abbrev Collection (ι π : Type) := ι → Option π

def delete (accepts : π → Bool) (c : Collection ι π) : Collection ι π := fun id => (c id).filter fun p => !accepts p

def upsert (points : List (ι × π)) (c : Collection ι π) : Collection ι π :=
  points.foldl (fun c x => Function.update c x.1 (some x.2)) c

/-- What a batch writes under an id; a later point of the batch overwrites an earlier one. -/
def written : List (ι × π) → ι → Option π
  | [], _ => none
  | x :: xs, id => (written xs id).or (if x.1 = id then some x.2 else none)

variable {id : ι} {p : π} {c : Collection ι π}

theorem upsert_eq : ∀ {points : List (ι × π)} {c : Collection ι π}, upsert points c id = (written points id).or (c id)
  | [], _ => rfl
  | x :: xs, c => by
    show upsert xs (Function.update c x.1 (some x.2)) id = _
    rw [upsert_eq, written, Option.or_assoc]
    congr 1
    by_cases hx : x.1 = id
    · subst hx
      rw [Function.update_self, if_pos rfl]
      rfl
    · rw [Function.update_of_ne (Ne.symm hx), if_neg hx]
      rfl

theorem written_append : ∀ {xs ys : List (ι × π)}, written (xs ++ ys) id = (written ys id).or (written xs id)
  | [], ys => Option.or_none.symm
  | x :: xs, ys => by
    rw [List.cons_append, written, written, written_append, Option.or_assoc]

theorem mem_of_written : ∀ {points : List (ι × π)}, written points id = some p → (id, p) ∈ points
  | x :: xs, h => by
    rw [written, Option.or_eq_some_iff] at h
    rcases h with h | ⟨-, h⟩
    · exact List.mem_cons_of_mem _ (mem_of_written h)
    · split at h
      · rename_i hx
        cases h
        subst hx
        exact List.mem_cons_self
      · cases h

theorem written_ne_none : ∀ {points : List (ι × π)} {x : ι × π}, x ∈ points → written points x.1 ≠ none
  | y :: ys, x, h, hw => by
    rw [written, Option.or_eq_none_iff] at hw
    rcases List.mem_cons.mp h with rfl | h
    · rw [if_pos rfl] at hw
      cases hw.2
    · exact written_ne_none h hw.1

theorem written_map {σ : Type} {f : π → σ} :
    ∀ {points : List (ι × π)}, written (points.map fun x => (x.1, f x.2)) id = (written points id).map f
  | [] => rfl
  | x :: xs => by
    rw [List.map_cons, written, written, written_map]
    cases written xs id with
    | some q => rfl
    | none =>
      dsimp only [Option.map_none, Option.none_or]
      split <;> rfl

/-- Where a point comes from that is there after a batch. -/
theorem of_upsert {points : List (ι × π)} (h : upsert points c id = some p) : (id, p) ∈ points ∨ c id = some p := by
  rw [upsert_eq, Option.or_eq_some_iff] at h
  exact h.imp mem_of_written And.right

omit [DecidableEq ι] in
theorem delete_eq_some {accepts : π → Bool} : delete accepts c id = some p ↔ c id = some p ∧ accepts p = false := by
  simp [delete, Option.filter_eq_some_iff]

end Qdrant
