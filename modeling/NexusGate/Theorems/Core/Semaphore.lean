import NexusGate.Core.Concurrency

/-! # Those who wait at a semaphore

What the operations of the semaphore do to its slots and its queue, and what may be known of the callers and tasks that
stand in it. -/

namespace NexusGate.Core
open Async

theorem countP_erase_add {α : Type} [BEq α] [LawfulBEq α] {p : α → Bool} {a : α} {l : List α} (h : a ∈ l) :
    (l.erase a).countP p + (p a).toNat = l.countP p := by
  rw [(List.perm_cons_erase h).countP_eq p, List.countP_cons]
  cases p a <;> rfl

theorem perm_replace {α : Type} [BEq α] [LawfulBEq α] {a b : α} : ∀ {l : List α}, a ∈ l →
    (l.replace a b).Perm (b :: l.erase a)
  | x :: l, h => by
    by_cases hx : x = a
    · subst hx
      simp
    · have ha : a ∈ l := (List.mem_cons.mp h).resolve_left fun h => hx h.symm
      have hne : (x == a) = false := beq_false_of_ne hx
      have hne' : (a == x) = false := beq_false_of_ne fun h => hx h.symm
      rw [List.replace_cons, hne', List.erase_cons, hne]
      exact ((perm_replace ha).cons x).trans (.swap b x _)

/-! ### The semaphore -/

namespace Semaphore

/-- The slots that were granted to somebody who has not gone on yet. -/
def handedOver (s : Semaphore) : Nat := s.waiters.countP fun w => w.state == .granted

/-- The slots that nobody past acquisition holds. -/
def spare (s : Semaphore) : Nat := s.value + s.handedOver

/-- The number of those in the queue for whom a caller waits. -/
def present (s : Semaphore) : Nat := s.waiters.countP fun w => !w.left

/-- Nobody is new in the queue, and whoever has changed there was granted a slot. -/
def Grants (s s' : Semaphore) : Prop :=
  ∀ x ∈ s'.waiters, x ∈ s.waiters ∨ ∃ y ∈ s.waiters, y.state = .pending ∧ x = { y with state := .granted }

theorem free_of_unlocked {s : Semaphore} (h : ¬s.locked = true) : 0 < s.value := by
  refine Nat.pos_of_ne_zero fun hzero => h ?_
  simp [Semaphore.locked, hzero]

theorem grantFirst_spec : ∀ {ws ws' : List Waiter}, grantFirst ws = some ws' → ∃ before w after,
    w.state = .pending ∧ ws = before ++ w :: after ∧ ws' = before ++ { w with state := .granted } :: after
  | [], _, h => by cases h
  | w :: ws, ws', h => by
    unfold grantFirst at h
    split at h
    · rename_i hw
      cases h
      exact ⟨[], w, ws, hw, rfl, rfl⟩
    · obtain ⟨ws'', h', rfl⟩ := Option.map_eq_some_iff.mp h
      obtain ⟨before, x, after, hx, rfl, rfl⟩ := grantFirst_spec h'
      exact ⟨w :: before, x, after, hx, rfl, rfl⟩

/-- A slot, if there is one, goes to the first in the queue. -/
theorem wakeUpNext_spec {s : Semaphore} (hvalue : 0 < s.value) :
    s.wakeUpNext.spare = s.spare ∧ s.wakeUpNext.present = s.present ∧ s.Grants s.wakeUpNext := by
  unfold wakeUpNext
  cases h : grantFirst s.waiters with
  | none => exact ⟨rfl, rfl, fun _ hx => Or.inl hx⟩
  | some ws =>
    obtain ⟨before, w, after, hw, hws, rfl⟩ := grantFirst_spec h
    refine ⟨?_, ?_, fun x hx => ?_⟩
    · unfold spare handedOver
      rw [hws]
      simp only [List.countP_append, List.countP_cons, hw]
      simp
      omega
    · unfold present
      rw [hws]
      simp only [List.countP_append, List.countP_cons]
    · rw [hws]
      simp only [List.mem_append, List.mem_cons] at hx ⊢
      rcases hx with hx | rfl | hx
      · exact Or.inl (Or.inl hx)
      · exact Or.inr ⟨w, Or.inr (Or.inl rfl), hw, rfl⟩
      · exact Or.inl (Or.inr (Or.inr hx))

theorem release_spec {s : Semaphore} :
    s.release.spare = s.spare + 1 ∧ s.release.present = s.present ∧ s.Grants s.release := by
  obtain ⟨hspare, hpresent, hgrants⟩ := @wakeUpNext_spec { s with value := s.value + 1 } (Nat.succ_pos _)
  exact ⟨hspare.trans (Nat.add_right_comm ..), hpresent, hgrants⟩

/-- Whoever goes on leaves the queue, with a slot if it was granted one and has not been cancelled. -/
theorem resume_spec {s : Semaphore} {w : Waiter} (hw : w ∈ s.waiters) :
    (s.resume w).spare + (w.state == .granted && !w.interrupted).toNat = s.spare ∧
      (s.resume w).present + (!w.left).toNat = s.present ∧ s.Grants (s.resume w) := by
  have hhanded : (s.waiters.erase w).countP (fun x => x.state == .granted) + (w.state == .granted).toNat =
    s.handedOver := countP_erase_add hw
  have hpresent : (s.waiters.erase w).countP (fun x => !x.left) + (!w.left).toNat = s.present := countP_erase_add hw
  have hgrants : s.Grants { s with waiters := s.waiters.erase w } := fun x hx => Or.inl (List.mem_of_mem_erase hx)
  have hback : ∀ {s' : Semaphore}, ({ s with waiters := s.waiters.erase w } : Semaphore).Grants s' → s.Grants s' :=
    fun h x hx => (h x hx).imp List.mem_of_mem_erase fun ⟨y, hy, heq⟩ => ⟨y, List.mem_of_mem_erase hy, heq⟩
  unfold resume
  dsimp only
  split
  · rename_i hinterrupted
    split
    · rename_i hgranted
      obtain ⟨hs, hp, hg⟩ := @release_spec { s with waiters := s.waiters.erase w }
      refine ⟨?_, (congrArg (· + _) hp).trans hpresent, hback hg⟩
      rw [hs, hinterrupted]
      simp only [hgranted, beq_self_eq_true, Bool.toNat_true] at hhanded
      simp only [spare, handedOver] at hhanded ⊢
      simp
      omega
    · rename_i hgranted
      refine ⟨?_, hpresent, hgrants⟩
      rw [hinterrupted]
      have hno : (w.state == .granted) = false := beq_false_of_ne hgranted
      rw [hno, Bool.toNat_false] at hhanded
      simp only [spare, handedOver] at hhanded ⊢
      simp
      omega
  · rename_i hinterrupted
    have hno : w.interrupted = false := Bool.eq_false_iff.mpr hinterrupted
    have hslots : ({ s with waiters := s.waiters.erase w } : Semaphore).spare + (w.state == .granted).toNat = s.spare := by
      simp only [spare, handedOver] at hhanded ⊢
      omega
    rw [hno]
    split
    · rename_i hvalue
      obtain ⟨hs, hp, hg⟩ := @wakeUpNext_spec { s with waiters := s.waiters.erase w } hvalue
      refine ⟨?_, (congrArg (· + _) hp).trans hpresent, hback hg⟩
      rw [hs]
      simpa using hslots
    · exact ⟨by simpa using hslots, hpresent, hgrants⟩

end Semaphore

theorem interrupt_state {w : Waiter} : w.interrupt.state = .granted ↔ w.state = .granted := by
  unfold Waiter.interrupt
  cases w.state <;> simp

theorem kept_acquired {t : Task} : (t.kept.countP fun t => t.state == .acquired) = (t.state == .acquired).toNat := by
  unfold Task.kept
  split
  · rename_i h
    rw [Bool.and_eq_true, beq_iff_eq] at h
    rw [h.2]
    rfl
  · cases h : (t.state == .acquired) <;> simp [h]

theorem kept_present {t : Task} : (t.kept.countP fun t => !t.left) = (!t.left).toNat := by
  unfold Task.kept
  split
  · rename_i h
    rw [Bool.and_eq_true] at h
    rw [h.1]
    rfl
  · cases h : t.left <;> simp [h]

/-! ### What is in the queue -/

/-- What may be known of a waiter, with `N` the names of the tasks that their callers have cancelled. -/
structure Waiter.Calm (fresh : Nat) (N : Set Nat) (x : Waiter) : Prop where
  named : x.fut < fresh
  left : x.left = true → x.inTask = true ∧ x.state = .cancelled
  ending : x.inTask = true → x.fut ∈ N → x.interrupted = true ∧ x.state ≠ .pending

/-- What may be known of a task that does not wait. -/
structure Task.Calm (fresh : Nat) (N : Set Nat) (t : Task) : Prop where
  named : t.name < fresh
  left : t.left = true → t.state = .created true
  ending : t.name ∈ N → t.state = .created true ∨ t.state = .cancelled

section
variable {fresh fresh' : Nat} {N N' : Set Nat}

theorem Waiter.Calm.mono {x : Waiter} (h : x.Calm fresh N) (hfresh : fresh ≤ fresh')
    (hN : ∀ n ∈ N', n < fresh → n ∈ N) : x.Calm fresh' N' :=
  ⟨h.named.trans_le hfresh, h.left, fun htask hx => h.ending htask (hN _ hx h.named)⟩

theorem Task.Calm.mono {t : Task} (h : t.Calm fresh N) (hfresh : fresh ≤ fresh')
    (hN : ∀ n ∈ N', n < fresh → n ∈ N) : t.Calm fresh' N' :=
  ⟨h.named.trans_le hfresh, h.left, fun ht => h.ending (hN _ ht h.named)⟩

theorem Waiter.Calm.grant {y : Waiter} (h : y.Calm fresh N) (hpending : y.state = .pending) :
    Waiter.Calm fresh N { y with state := .granted } where
  named := h.named
  left hleft := by
    have hcancelled := (h.left hleft).2
    rw [hpending] at hcancelled
    cases hcancelled
  ending htask hN := absurd hpending (h.ending htask hN).2

/-- Whoever is cancelled does not wait any more. -/
theorem Waiter.Calm.interrupt {x : Waiter} (h : x.Calm fresh N) : x.interrupt.Calm fresh N' where
  named := h.named
  left hleft := by
    obtain ⟨htask, hcancelled⟩ := h.left hleft
    refine ⟨htask, ?_⟩
    unfold Waiter.interrupt
    rw [hcancelled]
    rfl
  ending _ _ := by
    refine ⟨rfl, ?_⟩
    unfold Waiter.interrupt
    cases x.state <;> nofun

/-- A task is cancelled that has not acquired a slot. -/
theorem Task.Calm.cancel {t : Task} (h : t.Calm fresh N) (hstate : t.state ≠ .acquired) : t.cancel.Calm fresh N' where
  named := h.named
  left hleft := by
    have hcreated := h.left hleft
    unfold Task.cancel
    rw [hcreated]
  ending _ := by
    unfold Task.cancel
    cases hs : t.state with
    | created b => exact Or.inl rfl
    | cancelled => exact Or.inr rfl
    | acquired => exact absurd hs hstate

/-- A task that has come to nothing is not kept for a caller that has gone away. -/
theorem Task.calm_of_kept {t x : Task} (hnamed : t.name < fresh)
    (hleft : t.left = true → t.state = .created true ∨ t.state = .cancelled)
    (hending : t.name ∈ N → t.state = .created true ∨ t.state = .cancelled) (hx : x ∈ t.kept) : x.Calm fresh N := by
  unfold Task.kept at hx
  split at hx
  · cases hx
  · rename_i hstays
    obtain rfl := List.mem_singleton.mp hx
    refine ⟨hnamed, fun h => (hleft h).resolve_right fun hcancelled => hstays ?_, hending⟩
    rw [h, hcancelled]
    rfl

end

end NexusGate.Core
