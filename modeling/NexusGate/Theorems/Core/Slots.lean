import NexusGate.Async.Tally
import NexusGate.Theorems.Core.Semaphore

/-! # The slots of a gate

A slot is free, handed over to a caller that has not gone on yet, or held by a caller past acquisition. No operation and
no task loses one, however callers come and go. -/

namespace NexusGate.Core
open Async

namespace InferenceGate
open System

/-! ### Where a caller stands -/

/-- The operation at which a caller stands after one is answered. -/
def standsNext {T : Type} (e : Op) (r : Except Exn (e.Reply T)) : Option Op :=
  match e, r with
  | .enter (some timeout), .ok (some task) => some (if timeout ≤ 0 then .settle task else .waitFor task)
  | .enter none, .ok (some fut) => some (.wake fut)
  | .enter _, .ok none => some .submit
  | .enter _, .error _ => none
  | .wake _, .ok _ => some .submit
  | .wake _, .error _ => none
  | .waitFor _, .ok .acquired => some .submit
  | .waitFor task, .ok _ => some (.settle task)
  | .waitFor _, .error _ => none
  | .settle _, _ => none
  | .submit, .ok ticket => some (.join ticket)
  | .submit, .error _ => some .release
  | .join _, _ => some .release
  | .release, _ => none

/-- The caller waits for a slot. -/
def Op.inAcquire : Op → Bool
  | .wake _ | .waitFor _ | .settle _ => true
  | _ => false

/-- The caller has a slot. -/
def Op.pastAcquisition : Op → Bool
  | .submit | .join _ | .release => true
  | _ => false

/-- The caller waits for its function. -/
def Op.inThread : Op → Bool
  | .join _ => true
  | _ => false

section
variable {T : Type} {self : InferenceGate}

/-- A caller that goes from one operation to the next. -/
def walker (T : Type) : Monitor Op (Op.Reply T) Exn (Option Op) where
  may g e := g = some e
  next _ e r g' := g' = standsNext e r

theorem settle_follows {task : Nat} {x : Exn} :
    Follows (walker T) (fun r g => g = match r with
      | .ok _ => some .submit
      | .error _ => none) ((Prog.call (Op.settle task)).bind fun _ => .throw x : Program T Unit) (some (.settle task)) := by
  refine Follows.bind_iff.mpr (Follows.call_iff.mpr ⟨rfl, fun r g hg => ?_⟩)
  obtain rfl : g = none := hg
  cases r <;> rfl

theorem waitFor_follows {task : Nat} {timeout : ℚ} :
    Follows (walker T) (fun r g => g = match r with
      | .ok _ => some .submit
      | .error _ => none) (waitFor task timeout : Program T Unit)
      (some (if timeout ≤ 0 then .settle task else .waitFor task)) := by
  unfold waitFor
  split
  · exact settle_follows
  · refine Follows.bind_iff.mpr (Follows.call_iff.mpr ⟨rfl, fun r g hg => ?_⟩)
    obtain rfl : g = _ := hg
    match r with
    | .error e => rfl
    | .ok .acquired => rfl
    | .ok .expired => exact settle_follows
    | .ok .cancelled => exact settle_follows

theorem acquire_follows {maxWait : Option ℚ} :
    Follows (walker T) (fun r g => g = match r with
      | .ok _ => some .submit
      | .error _ => none) (self.acquire maxWait : Program T Unit) (some (.enter maxWait)) := by
  refine Follows.bind_iff.mpr (Follows.call_iff.mpr ⟨rfl, fun r g hg => ?_⟩)
  obtain rfl : g = _ := hg
  match maxWait, r with
  | none, .error e | some _, .error e => rfl
  | none, .ok none | some _, .ok none => rfl
  | none, .ok (some fut) =>
    refine Follows.call_iff.mpr ⟨rfl, fun r g hg => ?_⟩
    obtain rfl : g = _ := hg
    cases r <;> rfl
  | some timeout, .ok (some task) =>
    refine Follows.bind_iff.mpr (Follows.attempt_iff.mpr (waitFor_follows.mono fun r g hg => ?_))
    subst hg
    match r with
    | .ok _ => rfl
    | .error e => cases e <;> rfl

theorem run_follows {maxWait : Option ℚ} :
    Follows (walker T) (fun _ g => g = none) (self.run maxWait) (some (.enter maxWait)) := by
  refine acquire_follows.bind (fun _ g hg => ?_) fun _ g hg => hg
  obtain rfl : g = some .submit := hg
  have hbody : Follows (walker T) (fun _ g => g = some .release) (do
      let ticket ← Prog.call Op.submit
      Prog.call (Op.join ticket)) (some .submit) := by
    refine Follows.bind_iff.mpr (Follows.call_iff.mpr ⟨rfl, fun r g hg => ?_⟩)
    obtain rfl : g = _ := hg
    cases r with
    | error e => rfl
    | ok ticket => exact Follows.call_iff.mpr ⟨rfl, fun r g hg => hg⟩
  refine Follows.bind_iff.mpr (Follows.attempt_iff.mpr (hbody.mono fun r g hg => ?_))
  subst hg
  refine Follows.bind_iff.mpr (Follows.call_iff.mpr ⟨rfl, fun o g hg => ?_⟩)
  obtain rfl : g = none := hg
  cases o with
  | error e => rfl
  | ok _ => exact Follows.ofExcept_iff.mpr rfl

/-- The callers of a gate, each with the operation at which it stands. -/
def callers (T : Type) (self : InferenceGate) : Watch (self.system T) where
  G := Option Op
  monitor _ := walker T
  first maxWait := some (.enter maxWait)
  last _ _ g := g = none

theorem callers_sound : (self.callers T).Sound := fun _ => run_follows

/-- The callers on the board that stand at such an operation. -/
def entry (q : Op → Bool) (x : Option ℚ × Option Op) : Bool := x.2.any q

theorem shows_fresh : (self.callers T).Shows (self.fresh T) fun _ => none := fun _ => rfl

/-! ### The slots -/

/-- The slots that were given to somebody whose caller has not gone on yet. -/
def State.handedOver (s : State T) : Nat := s.slots.handedOver + s.tasks.countP fun t => t.state == .acquired

/-- The slots that nobody past acquisition holds. -/
def State.spare (s : State T) : Nat := s.slots.value + s.handedOver

theorem State.spare_eq {s : State T} : s.spare = s.slots.spare + s.tasks.countP fun t => t.state == .acquired :=
  (Nat.add_assoc ..).symm

theorem spare_of_slots {s s' : State T} {n : Nat} (htasks : s'.tasks = s.tasks)
    (hslots : s'.slots.spare = s.slots.spare + n) : s'.spare = s.spare + n := by
  rw [State.spare_eq, State.spare_eq, htasks, hslots]
  omega

theorem enter_spare {maxWait : Option ℚ} {s : State T} :
    (self.enter maxWait s).2.spare +
      ((standsNext (T := T) (.enter maxWait) (self.enter maxWait s).1).any Op.pastAcquisition).toNat = s.spare := by
  unfold enter
  split
  · cases maxWait <;> rfl
  · cases maxWait with
    | some timeout =>
      dsimp only [standsNext]
      rw [State.spare_eq, State.spare_eq]
      split <;> simp [Op.pastAcquisition]
    | none =>
      dsimp only
      split
      · dsimp only [standsNext]
        simp [State.spare, State.handedOver, Semaphore.handedOver, Op.pastAcquisition]
      · rename_i hlocked
        have hvalue := Semaphore.free_of_unlocked hlocked
        show s.slots.value - 1 + s.handedOver + 1 = s.slots.value + s.handedOver
        omega

/-- A caller goes on with a slot if its future was granted and it has not been cancelled. -/
theorem wake_spec {fut : Nat} {s : State T} {o : Except Exn Unit × State T} (h : wake fut s = some o) :
    ∃ w ∈ s.slots.waiters, w.isCaller fut = true ∧ o.2 = { s with slots := s.slots.resume w, waiting := s.waiting - 1 } ∧
      if (w.state == .granted && !w.interrupted) = true then o.1 = .ok () else ∃ x, o.1 = .error x := by
  obtain ⟨w, hw, h⟩ := Option.bind_eq_some_iff.mp h
  refine ⟨w, List.mem_of_find?_eq_some hw, List.find?_some hw, ?_⟩
  dsimp only at h
  cases hinterrupted : w.interrupted with
  | true =>
    rw [hinterrupted] at h
    cases h
    exact ⟨rfl, by simp⟩
  | false =>
    rw [hinterrupted] at h
    cases hstate : w.state <;> rw [hstate] at h <;> cases h
    exact ⟨rfl, by simp⟩

/-- What `wait_for` is answered. -/
theorem awaken_spec {task : Nat} {choice : Choice} {s : State T} {o : Except Exn Wake × State T}
    (h : awaken task choice s = some o) :
    (∃ t ∈ s.tasks, t.state = .acquired ∧ o = (.ok .acquired, { s with tasks := s.tasks.erase t, waiting := s.waiting - 1 })) ∨
    ((∀ t ∈ s.tasks, t.name = task → t.state ≠ .acquired) ∧
      ∃ wake, wake ≠ .acquired ∧ o = (.ok wake, s.cancelTask task)) := by
  unfold awaken at h
  split at h
  · rename_i t ht
    cases h
    have hstate := List.find?_some ht
    simp only [Bool.and_eq_true, beq_iff_eq] at hstate
    exact Or.inl ⟨t, List.mem_of_find?_eq_some ht, hstate.2, rfl⟩
  · rename_i hnone
    have hno : ∀ t ∈ s.tasks, t.name = task → t.state ≠ .acquired := fun t ht hname hstate => by
      have := List.find?_eq_none.mp hnone t ht
      simp [hname, hstate] at this
    cases choice <;> cases h
    · exact Or.inr ⟨hno, .cancelled, nofun, rfl⟩
    · exact Or.inr ⟨hno, .expired, nofun, rfl⟩

theorem State.leaveTask_spec {task : Nat} {s s' : State T} (h : s.leaveTask task = some s') :
    (∃ t ∈ s.tasks, t.name = task ∧ t.left = false ∧ s' = { s with
      tasks := { t with left := true }.kept ++ s.tasks.erase t }) ∨
    ∃ w ∈ s.slots.waiters, w.isTask task = true ∧ w.left = false ∧ s' = { s with slots := { s.slots with
      waiters := s.slots.waiters.replace w { w with left := true } } } := by
  unfold State.leaveTask at h
  split at h
  · rename_i t ht
    cases h
    have hleft := List.find?_some ht
    simp only [Bool.and_eq_true, beq_iff_eq, Bool.not_eq_true'] at hleft
    exact Or.inl ⟨t, List.mem_of_find?_eq_some ht, hleft.1, hleft.2, rfl⟩
  · obtain ⟨w, hw, rfl⟩ := Option.map_eq_some_iff.mp h
    have hleft := List.find?_some hw
    simp only [Bool.and_eq_true, Bool.not_eq_true'] at hleft
    exact Or.inr ⟨w, List.mem_of_find?_eq_some hw, hleft.1, hleft.2, rfl⟩

/-- `_cancel_and_wait` comes to an end with its task, or is cancelled and leaves it. -/
theorem settle_spec {task : Nat} {choice : Choice} {s : State T} {o : Except Exn Unit × State T}
    (h : settle task choice s = some o) :
    (∃ t ∈ s.tasks, t.state = .cancelled ∧ o.2 = { s with tasks := s.tasks.erase t, waiting := s.waiting - 1 }) ∨
    (choice = .cancelled ∧ ∃ s', s.leaveTask task = some s' ∧ o.2 = { s' with waiting := s'.waiting - 1 }) := by
  cases choice with
  | ok =>
    obtain ⟨t, ht, rfl⟩ := Option.map_eq_some_iff.mp h
    have hstate := List.find?_some ht
    simp only [Bool.and_eq_true, beq_iff_eq] at hstate
    exact Or.inl ⟨t, List.mem_of_find?_eq_some ht, hstate.2, rfl⟩
  | cancelled =>
    obtain ⟨s', hs', rfl⟩ := Option.map_eq_some_iff.mp h
    exact Or.inr ⟨rfl, s', hs', rfl⟩
  | expired => cases h

/-- A task has its first turn, after it was cancelled or before, or it goes on with what it waited for. -/
theorem turn_spec {task : Nat} {s s' : State T} (h : turn task s = some s') :
    (∃ t ∈ s.tasks, t.state = .created true ∧ s' = { s with
      tasks := { t with state := .cancelled }.kept ++ s.tasks.erase t }) ∨
    (∃ t ∈ s.tasks, t.name = task ∧ t.state = .created false ∧ s.slots.locked = true ∧ s' = { s with
      tasks := s.tasks.erase t
      slots := { s.slots with waiters := s.slots.waiters ++ [{ fut := task, inTask := true, left := t.left }] } }) ∨
    (∃ t ∈ s.tasks, t.name = task ∧ t.state = .created false ∧ s.slots.locked = false ∧ s' = { s with
      tasks := { t with state := .acquired } :: s.tasks.erase t
      slots := { s.slots with value := s.slots.value - 1 } }) ∨
    ∃ w ∈ s.slots.waiters, w.isTask task = true ∧ w.state ≠ .pending ∧
      s' = { s with slots := s.slots.resume w, tasks := w.resumed.kept ++ s.tasks } := by
  unfold turn at h
  split at h
  · rename_i t ht
    have hmem := List.mem_of_find?_eq_some ht
    have hname : t.name = task := by simpa using List.find?_some ht
    dsimp only at h
    split at h
    · rename_i hstate
      cases h
      exact Or.inl ⟨t, hmem, hstate, rfl⟩
    · rename_i hstate
      split at h
      · rename_i hlocked
        cases h
        exact Or.inr (Or.inl ⟨t, hmem, hname, hstate, hlocked, rfl⟩)
      · rename_i hlocked
        cases h
        exact Or.inr (Or.inr (Or.inl ⟨t, hmem, hname, hstate, Bool.eq_false_iff.mpr hlocked, rfl⟩))
    · cases h
  · obtain ⟨w, hw, h⟩ := Option.bind_eq_some_iff.mp h
    split at h
    · cases h
    · rename_i hpending
      cases h
      exact Or.inr (Or.inr (Or.inr ⟨w, List.mem_of_find?_eq_some hw, List.find?_some hw, hpending, rfl⟩))

/-- Cancelling a task takes no slot from it. -/
theorem State.cancelTask_spare {s : State T} {task : Nat} : (s.cancelTask task).spare = s.spare := by
  have htasks : (s.cancelTask task).tasks.countP (fun t => t.state == .acquired) =
      s.tasks.countP fun t => t.state == .acquired := by
    unfold State.cancelTask
    rw [List.countP_map]
    refine List.countP_congr fun t _ => ?_
    simp only [Function.comp_apply, beq_iff_eq]
    split
    · unfold Task.cancel
      cases t.state <;> simp
    · exact Iff.rfl
  have hwaiters : (s.cancelTask task).slots.handedOver = s.slots.handedOver := by
    unfold State.cancelTask Semaphore.handedOver
    rw [List.countP_map]
    refine List.countP_congr fun w _ => ?_
    simp only [Function.comp_apply, beq_iff_eq]
    split
    · exact interrupt_state
    · exact Iff.rfl
  unfold State.spare State.handedOver
  rw [htasks, hwaiters]
  rfl

theorem State.leaveTask_spare {s s' : State T} {task : Nat} (h : s.leaveTask task = some s') : s'.spare = s.spare := by
  rcases State.leaveTask_spec h with ⟨t, ht, -, -, rfl⟩ | ⟨w, hw, -, -, rfl⟩
  · have hcount := countP_erase_add (p := fun t : Task => t.state == .acquired) ht
    rw [State.spare_eq, State.spare_eq, List.countP_append, kept_acquired, ← hcount]
    exact congrArg (s.slots.spare + ·) (Nat.add_comm ..)
  · have hcount := countP_erase_add (p := fun w : Waiter => w.state == .granted) hw
    refine spare_of_slots rfl ?_ (n := 0)
    unfold Semaphore.spare Semaphore.handedOver
    dsimp only
    rw [(perm_replace hw).countP_eq, List.countP_cons, ← hcount]
    cases (w.state == .granted) <;> rfl

/-- A slot that is taken is spare no more, and one that is released is spare again. -/
theorem exec_spare {e : Op} {choice : Choice} {s : State T} {o : Except Exn (e.Reply T) × State T}
    (hexec : self.exec e choice s = some o) :
    o.2.spare + ((standsNext e o.1).any Op.pastAcquisition).toNat = s.spare + e.pastAcquisition.toNat := by
  cases e with
  | enter maxWait =>
    cases choice <;> cases hexec
    exact enter_spare
  | wake fut =>
    cases choice with
    | ok =>
      obtain ⟨w, hw, -, hstate, hreply⟩ := wake_spec hexec
      obtain ⟨hspare, -, -⟩ := Semaphore.resume_spec hw
      have hslots : o.2.slots.spare = (s.slots.resume w).spare := by rw [hstate]
      have htasks : o.2.tasks = s.tasks := by rw [hstate]
      rw [State.spare_eq, State.spare_eq, hslots, htasks, ← hspare]
      obtain ⟨r, s'⟩ := o
      dsimp only at hreply ⊢
      split at hreply
      · rename_i hgranted
        rw [hreply, hgranted]
        simp only [standsNext, Option.any_some, Op.pastAcquisition, Bool.toNat_true, Bool.toNat_false]
        omega
      · rename_i hgranted
        obtain ⟨x, rfl⟩ := hreply
        rw [Bool.eq_false_iff.mpr hgranted]
        rfl
    | cancelled | expired => cases hexec
  | waitFor task =>
    rcases awaken_spec hexec with ⟨t, ht, hstate, rfl⟩ | ⟨-, wake, hwake, rfl⟩
    · have hcount := countP_erase_add (p := fun t : Task => t.state == .acquired) ht
      rw [hstate, beq_self_eq_true, Bool.toNat_true] at hcount
      rw [State.spare_eq, State.spare_eq]
      show s.slots.spare + (s.tasks.erase t).countP _ + 1 = _ + 0
      omega
    · rw [State.cancelTask_spare]
      cases wake with
      | acquired => exact absurd rfl hwake
      | expired | cancelled => rfl
  | settle task =>
    show o.2.spare + 0 = s.spare + 0
    rcases settle_spec hexec with ⟨t, ht, hstate, ho⟩ | ⟨-, s', hs', ho⟩
    · have hcount := countP_erase_add (p := fun t : Task => t.state == .acquired) ht
      rw [hstate] at hcount
      rw [ho, State.spare_eq, State.spare_eq]
      exact congrArg (s.slots.spare + · + 0) hcount
    · rw [ho]
      have hspare := State.leaveTask_spare hs'
      exact congrArg (· + 0) hspare
  | submit =>
    cases choice <;> cases hexec
    rfl
  | join ticket =>
    obtain ⟨j, -, h⟩ := Option.bind_eq_some_iff.mp hexec
    split at h <;> cases h <;> rfl
  | release =>
    cases choice <;> cases hexec
    exact spare_of_slots rfl Semaphore.release_spec.1

theorem turn_spare {task : Nat} {s s' : State T} (h : turn task s = some s') : s'.spare = s.spare := by
  rcases turn_spec h with ⟨t, ht, hstate, rfl⟩ | ⟨t, ht, -, hstate, -, rfl⟩ | ⟨t, ht, -, hstate, hlocked, rfl⟩ |
    ⟨w, hw, -, hpending, rfl⟩
  · have hcount := countP_erase_add (p := fun t : Task => t.state == .acquired) ht
    rw [State.spare_eq, State.spare_eq, List.countP_append, kept_acquired, ← hcount, hstate]
    exact congrArg (s.slots.spare + ·) (Nat.add_comm ..)
  · have hcount := countP_erase_add (p := fun t : Task => t.state == .acquired) ht
    rw [State.spare_eq, State.spare_eq, ← hcount, hstate]
    simp [Semaphore.spare, Semaphore.handedOver]
  · have hcount := countP_erase_add (p := fun t : Task => t.state == .acquired) ht
    have hvalue := Semaphore.free_of_unlocked (Bool.eq_false_iff.mp hlocked)
    have hone : ∀ {n : Nat}, s.slots.value - 1 + s.slots.handedOver + (n + 1) = s.slots.value + s.slots.handedOver + n := by
      omega
    rw [State.spare_eq, State.spare_eq, ← hcount, hstate, List.countP_cons]
    exact hone
  · obtain ⟨hspare, -, -⟩ := Semaphore.resume_spec hw
    rw [State.spare_eq, State.spare_eq, List.countP_append, kept_acquired, ← hspare]
    have hstate : (w.resumed.state == .acquired) = (w.state == .granted && !w.interrupted) := by
      unfold Waiter.resumed
      cases w.state <;> cases w.interrupted <;> rfl
    rw [hstate, Nat.add_assoc]

theorem interrupt_spare {fut : Nat} {s s' : State T} (h : env (.interrupt fut) s = some s') : s'.spare = s.spare := by
  obtain ⟨w, -, rfl⟩ := Option.map_eq_some_iff.mp h
  refine spare_of_slots rfl (n := 0) ?_
  unfold Semaphore.spare Semaphore.handedOver
  dsimp only
  rw [List.countP_map, Nat.add_zero]
  refine congrArg (s.slots.value + ·) (List.countP_congr fun x _ => ?_)
  simp only [Function.comp_apply, beq_iff_eq]
  split
  · exact interrupt_state
  · exact Iff.rfl

/-- The accounts of the slots, with the callers that hold one. -/
structure Accounts (gate : InferenceGate) (s : State T) (Γ : (gate.callers T).Board) (past : Finset Nat) : Prop where
  tally : Tally Γ (entry Op.pastAcquisition) past
  slots : s.spare + past.card = gate.maxConcurrency

/-- A caller goes from where it stands to another place, and the slots follow. -/
theorem Accounts.move {gate : InferenceGate} {s s' : State T} {Γ : (gate.callers T).Board} {past : Finset Nat}
    (h : Accounts gate s Γ past) {i : Nat} {x y : Option (Option ℚ × Option Op)} (hy : Γ i = y)
    (hspare : s'.spare + (x.any (entry Op.pastAcquisition)).toNat = s.spare + (y.any (entry Op.pastAcquisition)).toNat) :
    ∃ past', Accounts gate s' (Function.update Γ i x) past' := by
  subst hy
  obtain ⟨past', htally, hcard⟩ := h.tally.update i x
  have hcard : past'.card + (Option.any (entry Op.pastAcquisition) (Γ i)).toNat =
    past.card + (x.any (entry Op.pastAcquisition)).toNat := hcard
  have hslots := h.slots
  exact ⟨past', htally, by omega⟩

/-- What happens around the callers touches no slot that a caller holds. -/
theorem env_spare {a : Env T} {s s' : State T} (h : env a s = some s') : s'.spare = s.spare := by
  cases a with
  | interrupt fut => exact interrupt_spare h
  | turn task => exact turn_spare h
  | begin ticket | finish ticket outcome =>
    obtain ⟨j, -, h⟩ := Option.bind_eq_some_iff.mp h
    split at h <;> cases h
    rfl

theorem accounts_rules {P : (self.system T).World → (self.system T).Act → Prop} :
    Rules (self.callers T) P fun s _ Γ => ∃ past, Accounts self s Γ past where
  start {w Γ i c} _ hJ hi _ _ := by
    obtain ⟨past, h⟩ := hJ
    exact h.move hi rfl
  op {w Γ i choice c g e r s} _ hJ hi _ hmay hex _ := by
    obtain ⟨past, h⟩ := hJ
    obtain rfl : g = some e := hmay
    exact ⟨standsNext e r, rfl, h.move hi (exec_spare hex)⟩
  ended {s tr Γ i c g r} hJ hi hlast := by
    obtain ⟨past, h⟩ := hJ
    obtain rfl : g = none := hlast
    exact h.move hi rfl
  kill _ _ _ hm _ := by cases hm
  env _ hJ hb _ := by
    obtain ⟨past, h⟩ := hJ
    exact ⟨past, h.tally, (congrArg (· + past.card) (env_spare hb)).trans h.slots⟩

theorem accounts_fresh : Accounts self (self.fresh T).state (fun _ => none : (self.callers T).Board) ∅ :=
  ⟨Tally.empty, rfl⟩

end
end InferenceGate
end NexusGate.Core
