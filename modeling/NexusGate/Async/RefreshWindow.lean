import Mathlib.Algebra.Order.Ring.Rat
import Mathlib.Data.List.Induction
import Mathlib.Data.List.Pairwise
import Mathlib.Tactic.Linarith

/-! # Reading once per window

Calls that ask for what is read from elsewhere: a call reads all that it asks for, unless it comes within a
window of time of the last call that read. -/

namespace Async.RefreshWindow
variable {α : Type} {refresh : ℚ}

/-- The calls that read, the latest first: a call within the window of the last read does not. -/
def effective (refresh : ℚ) (calls : List (ℚ × List α)) : List (ℚ × List α) :=
  calls.foldl (fun reads call => if reads.head?.any fun last => call.1 - last.1 < refresh then reads
    else call :: reads) []

/-- At time `t` something has been read at most a window ago. -/
def Fresh (refresh : ℚ) (reads : List (ℚ × List α)) (t : ℚ) (x : α) : Prop :=
  ∃ read ∈ reads, x ∈ read.2 ∧ t - read.1 ≤ refresh

/-- What a call at `t` needs after these reads: it reads itself, or the last read covers what it asks for. If
    the clock stands still since that read, the one before it may be exactly a window old. -/
def Covers (refresh : ℚ) (t : ℚ) (x : α) : List (ℚ × List α) → Prop
  | [] => True
  | last :: earlier => refresh ≤ t - last.1 ∨ x ∈ last.2 ∨
      (t = last.1 ∧ ∃ before ∈ earlier.head?, last.1 - before.1 = refresh ∧ x ∈ before.2)

theorem effective_append {calls : List (ℚ × List α)} {call : ℚ × List α} :
    effective refresh (calls ++ [call]) =
      if (effective refresh calls).head?.any fun last => call.1 - last.1 < refresh then effective refresh calls
      else call :: effective refresh calls := by
  rw [effective, List.foldl_append]
  rfl

/-- Two reads are at least a window apart. -/
theorem effective_apart (calls : List (ℚ × List α)) :
    (effective refresh calls).IsChain fun later earlier => refresh ≤ later.1 - earlier.1 := by
  induction calls using List.reverseRecOn with
  | nil => exact List.IsChain.nil
  | append_singleton calls call ih =>
    rw [effective_append]
    split
    · exact ih
    · rename_i h
      cases he : effective refresh calls with
      | nil => exact List.IsChain.singleton _
      | cons last earlier =>
        rw [he] at ih h
        refine List.isChain_cons_cons.mpr ⟨?_, ih⟩
        simpa using h

theorem mem_effective {calls : List (ℚ × List α)} : ∀ {read}, read ∈ effective refresh calls → read ∈ calls := by
  induction calls using List.reverseRecOn with
  | nil => exact fun h => by cases h
  | append_singleton calls call ih =>
    intro read h
    rw [effective_append] at h
    split at h
    · exact List.mem_append_left _ (ih h)
    · rcases List.mem_cons.mp h with rfl | h
      · exact List.mem_append_right _ (List.mem_singleton_self _)
      · exact List.mem_append_left _ (ih h)

/-- What the reads cover is fresh, where the next call comes within the window of the last one. -/
theorem fresh_iff_covers {reads : List (ℚ × List α)} {last : ℚ × List α} {t : ℚ} {x : α}
    (hapart : (last :: reads).IsChain fun later earlier => refresh ≤ later.1 - earlier.1) (hlast : last.1 ≤ t)
    (hwithin : t - last.1 < refresh) :
    Fresh refresh (last :: reads) t x ↔ Covers refresh t x (last :: reads) := by
  have hpos : 0 < refresh := by linarith
  have : IsTrans (ℚ × List α) fun later earlier => refresh ≤ later.1 - earlier.1 :=
    ⟨fun a b c hab hbc => by linarith⟩
  constructor
  · rintro ⟨read, hread, hx, hage⟩
    rcases List.mem_cons.mp hread with rfl | hread
    · exact Or.inr (Or.inl hx)
    · cases reads with
      | nil => cases hread
      | cons before rest =>
        have hbefore := (List.isChain_cons_cons.mp hapart).1
        rcases List.mem_cons.mp hread with rfl | hread
        · exact Or.inr (Or.inr ⟨by linarith, read, rfl, by linarith, hx⟩)
        · have hrest := (List.pairwise_cons.mp
            (List.isChain_iff_pairwise.mp (List.isChain_cons_cons.mp hapart).2)).1 read hread
          linarith
  · rintro (h | h | ⟨rfl, before, hbefore, hage, hx⟩)
    · linarith
    · exact ⟨last, List.mem_cons_self, h, hwithin.le⟩
    · exact ⟨before, List.mem_cons_of_mem _ (List.mem_of_mem_head? hbefore), hx, hage.le⟩

/-- A call finds everything it asks for fresh, exactly if everything is covered. -/
theorem fresh_iff {calls : List (ℚ × List α)} {t : ℚ} {xs : List α} (hlast : ∀ call ∈ calls, call.1 ≤ t) {x : α}
    (hx : x ∈ xs) : Fresh refresh (effective refresh (calls ++ [(t, xs)])) t x ↔
      0 ≤ refresh ∧ Covers refresh t x (effective refresh calls) := by
  have hpast : ∀ read ∈ effective refresh calls, read.1 ≤ t := fun read h => hlast read (mem_effective h)
  have hapart := @effective_apart α refresh calls
  rw [effective_append]
  generalize effective refresh calls = reads at hpast hapart
  cases reads with
  | nil =>
    constructor
    · rintro ⟨read, hread, -, hage⟩
      rw [List.mem_singleton.mp hread] at hage
      exact ⟨by simpa using hage, trivial⟩
    · exact fun h => ⟨(t, xs), List.mem_singleton_self _, hx, by simpa using h.1⟩
  | cons last earlier =>
    have hl := hpast last List.mem_cons_self
    by_cases hwithin : t - last.1 < refresh
    · rw [if_pos (by simpa using hwithin), fresh_iff_covers hapart hl hwithin]
      exact ⟨fun h => ⟨by linarith, h⟩, And.right⟩
    · rw [if_neg (by simpa using hwithin)]
      constructor
      · rintro ⟨read, hread, -, hage⟩
        refine ⟨?_, Or.inl (not_lt.mp hwithin)⟩
        rcases List.mem_cons.mp hread with rfl | hread
        · simpa using hage
        · linarith [hpast read hread]
      · exact fun h => ⟨(t, xs), List.mem_cons_self, hx, by simpa using h.1⟩

end Async.RefreshWindow
