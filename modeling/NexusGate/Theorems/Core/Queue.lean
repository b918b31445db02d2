import NexusGate.Theorems.Core.Slots

/-! # The queue of a gate

Each caller that waits has a place in the queue of the semaphore, or a task that has not come to it yet or has come to
its end. -/

namespace NexusGate.Core
open Async

namespace InferenceGate
open System

section
variable {T : Type} {self : InferenceGate}

/-- The number of those that wait, or have come to an end, for a caller that is still there. -/
def State.present (s : State T) : Nat := s.slots.present + s.tasks.countP fun t => !t.left

/-- All records are calm. -/
structure State.Calm (s : State T) (N : Set Nat) : Prop where
  ending : ∀ n ∈ N, n < s.fresh
  waiters : ∀ x ∈ s.slots.waiters, x.Calm s.fresh N
  tasks : ∀ t ∈ s.tasks, t.Calm s.fresh N

section
variable {s s' : State T} {N : Set Nat}

/-- Records are taken away, or go on from the semaphore. -/
theorem State.Calm.less (h : s.Calm N) (hfresh : s'.fresh = s.fresh) (hslots : s.slots.Grants s'.slots)
    (htasks : ∀ t ∈ s'.tasks, t ∈ s.tasks) : s'.Calm N := by
  refine ⟨fun n hn => hfresh ▸ h.ending n hn, fun x hx => ?_, fun t ht => hfresh ▸ h.tasks t (htasks t ht)⟩
  rw [hfresh]
  rcases hslots x hx with hx | ⟨y, hy, hpending, rfl⟩
  · exact h.waiters x hx
  · exact (h.waiters y hy).grant hpending

/-- Fewer tasks are being cancelled. -/
theorem State.Calm.fewer {N' : Set Nat} (h : s.Calm N) (hN : ∀ n ∈ N', n ∈ N) : s.Calm N' where
  ending n hn := h.ending n (hN n hn)
  waiters x hx := (h.waiters x hx).mono (le_refl _) fun n hn _ => hN n hn
  tasks t ht := (h.tasks t ht).mono (le_refl _) fun n hn _ => hN n hn

/-- The names that are in use grow. -/
theorem State.Calm.more (h : s.Calm N) {fresh : Nat} (hfresh : s.fresh ≤ fresh) : { s with fresh }.Calm N where
  ending n hn := (h.ending n hn).trans_le hfresh
  waiters x hx := (h.waiters x hx).mono hfresh fun _ hn _ => hn
  tasks t ht := (h.tasks t ht).mono hfresh fun _ hn _ => hn

/-- A waiter goes on, and its task stays if anybody may ask for it. -/
theorem State.Calm.resumed (h : s.Calm N) {w : Waiter} (hw : w ∈ s.slots.waiters) (htask : w.inTask = true) :
    ∀ t ∈ w.resumed.kept, t.Calm s.fresh N := by
  have hcalm := h.waiters w hw
  refine fun t ht => Task.calm_of_kept hcalm.named (fun hleft => Or.inr ?_) (fun hN => Or.inr ?_) ht
  · unfold Waiter.resumed
    rw [(hcalm.left hleft).2]
    rfl
  · unfold Waiter.resumed
    rw [(hcalm.ending htask hN).1]
    simp

theorem turn_calm {task : Nat} (h : s.Calm N) (hturn : turn task s = some s') :
    s'.Calm N ∧ s'.present = s.present ∧ s'.fresh = s.fresh ∧ s'.waiting = s.waiting := by
  have herase {t x : Task} (hx : x ∈ s.tasks.erase t) : x.Calm s.fresh N := h.tasks x (List.mem_of_mem_erase hx)
  rcases turn_spec hturn with ⟨t, ht, hstate, rfl⟩ | ⟨t, ht, hname, hstate, -, rfl⟩ |
    ⟨t, ht, hname, hstate, -, rfl⟩ | ⟨w, hw, htask, hpending, rfl⟩
  · have hcount := countP_erase_add (p := fun t : Task => !t.left) ht
    refine ⟨⟨h.ending, h.waiters, fun x hx => ?_⟩, ?_, rfl, rfl⟩
    · rcases List.mem_append.mp hx with hx | hx
      · exact Task.calm_of_kept (t := { t with state := .cancelled }) (h.tasks t ht).named (fun _ => Or.inr rfl)
          (fun _ => Or.inr rfl) hx
      · exact herase hx
    · unfold State.present
      rw [List.countP_append, kept_present, ← hcount]
      exact congrArg (s.slots.present + ·) (Nat.add_comm ..)
  -- A task that goes on from its start was not cancelled, so its caller is still there.
  · have hcount := countP_erase_add (p := fun t : Task => !t.left) ht
    have hcalm := h.tasks t ht
    have hfresh : ¬(t.state = .created true ∨ t.state = .cancelled) := by simp [hstate]
    have hstays : t.left = false := Bool.eq_false_iff.mpr fun hleft => hfresh (Or.inl (hcalm.left hleft))
    refine ⟨⟨h.ending, fun x hx => ?_, fun x hx => herase hx⟩, ?_, rfl, rfl⟩
    · rcases List.mem_append.mp hx with hx | hx
      · exact h.waiters x hx
      · obtain rfl := List.mem_singleton.mp hx
        refine ⟨hname ▸ hcalm.named, fun hleft => ?_, fun _ hN => absurd (hcalm.ending (hname ▸ hN)) hfresh⟩
        rw [hstays] at hleft
        cases hleft
    · unfold State.present Semaphore.present
      rw [← hcount, List.countP_append, hstays]
      simp only [List.countP_singleton, Bool.not_false, Bool.toNat_true, if_true]
      omega
  · have hcount := countP_erase_add (p := fun t : Task => !t.left) ht
    have hcalm := h.tasks t ht
    have hfresh : ¬(t.state = .created true ∨ t.state = .cancelled) := by simp [hstate]
    refine ⟨⟨h.ending, h.waiters, fun x hx => ?_⟩, ?_, rfl, rfl⟩
    · rcases List.mem_cons.mp hx with rfl | hx
      · exact ⟨hcalm.named, fun hleft => absurd (Or.inl (hcalm.left hleft)) hfresh,
          fun hN => absurd (hcalm.ending hN) hfresh⟩
      · exact herase hx
    · unfold State.present
      rw [← hcount, List.countP_cons]
      cases t.left <;> rfl
  · obtain ⟨-, hpresent, hgrants⟩ := Semaphore.resume_spec hw
    have htask : w.inTask = true := ((Bool.and_eq_true _ _).mp htask).2
    obtain ⟨-, hwaiters, -⟩ := @State.Calm.less T s { s with slots := s.slots.resume w } N h rfl hgrants fun _ ht => ht
    refine ⟨⟨h.ending, hwaiters, fun x hx => ?_⟩, ?_, rfl, rfl⟩
    · rcases List.mem_append.mp hx with hx | hx
      · exact h.resumed hw htask x hx
      · exact h.tasks x hx
    · unfold State.present
      rw [List.countP_append, kept_present, ← hpresent]
      exact (Nat.add_assoc ..).symm

/-- What happens around the callers keeps the queue. -/
theorem env_calm {a : Env T} (h : s.Calm N) (ha : env a s = some s') :
    s'.Calm N ∧ s'.present = s.present ∧ s'.fresh = s.fresh ∧ s'.waiting = s.waiting := by
  cases a with
  | interrupt fut =>
    obtain ⟨w, -, rfl⟩ := Option.map_eq_some_iff.mp ha
    refine ⟨⟨h.ending, fun x hx => ?_, h.tasks⟩, ?_, rfl, rfl⟩
    · obtain ⟨y, hy, rfl⟩ := List.mem_map.mp hx
      split
      · exact (h.waiters y hy).interrupt
      · exact h.waiters y hy
    · unfold State.present Semaphore.present
      dsimp only
      rw [List.countP_map]
      refine congrArg (· + _) (List.countP_congr fun x _ => ?_)
      simp only [Function.comp_apply]
      split <;> exact Iff.rfl
  | turn task => exact turn_calm h ha
  | begin ticket | finish ticket outcome =>
    obtain ⟨j, -, ha⟩ := Option.bind_eq_some_iff.mp ha
    split at ha <;> cases ha
    exact ⟨⟨h.ending, h.waiters, h.tasks⟩, rfl, rfl, rfl⟩

/-- A caller that waits without a task goes on. -/
theorem State.Calm.wake {fut : Nat} {r : Except Exn Unit} (h : s.Calm N) (hwake : InferenceGate.wake fut s = some (r, s')) :
    s'.Calm N ∧ s'.present + 1 = s.present ∧ s'.fresh = s.fresh := by
  obtain ⟨w, hw, hcaller, hstate, -⟩ := wake_spec hwake
  obtain ⟨-, hpresent, hgrants⟩ := Semaphore.resume_spec hw
  have hin : w.inTask = false := by simpa using ((Bool.and_eq_true _ _).mp hcaller).2
  have hleft : w.left = false := Bool.eq_false_iff.mpr fun hleft => by
    have htask := ((h.waiters w hw).left hleft).1
    rw [hin] at htask
    cases htask
  obtain rfl : s' = _ := hstate
  refine ⟨h.less rfl hgrants fun _ ht => ht, ?_, rfl⟩
  rw [hleft] at hpresent
  simp only [Bool.not_false, Bool.toNat_true, State.present] at hpresent ⊢
  omega

/-- A caller takes what its task has come to, and the task is gone. -/
theorem State.Calm.collect {t : Task} (h : s.Calm N) (ht : t ∈ s.tasks) (hstate : t.state ≠ .created true) :
    { s with tasks := s.tasks.erase t, waiting := s.waiting - 1 }.Calm N ∧
      { s with tasks := s.tasks.erase t, waiting := s.waiting - 1 }.present + 1 = s.present := by
  have hcount := countP_erase_add (p := fun t : Task => !t.left) ht
  have hleft : t.left = false := Bool.eq_false_iff.mpr fun hleft => hstate ((h.tasks t ht).left hleft)
  refine ⟨h.less rfl (fun _ hx => Or.inl hx) fun _ hx => List.mem_of_mem_erase hx, ?_⟩
  show s.slots.present + (s.tasks.erase t).countP _ + 1 = s.slots.present + s.tasks.countP _
  rw [hleft] at hcount
  simp only [Bool.not_false, Bool.toNat_true] at hcount
  omega

/-- The task that a caller cancels has acquired no slot. -/
theorem State.Calm.cancelTask {task : Nat} (h : s.Calm N) (hnamed : task < s.fresh)
    (hno : ∀ t ∈ s.tasks, t.name = task → t.state ≠ .acquired) :
    (s.cancelTask task).Calm (insert task N) ∧ (s.cancelTask task).present = s.present := by
  refine ⟨⟨?_, fun x hx => ?_, fun x hx => ?_⟩, ?_⟩
  · rintro n (rfl | hn)
    · exact hnamed
    · exact h.ending n hn
  · obtain ⟨y, hy, rfl⟩ := List.mem_map.mp hx
    split
    · exact (h.waiters y hy).interrupt
    · rename_i hother
      have hcalm := h.waiters y hy
      refine ⟨hcalm.named, hcalm.left, fun htask hN => hcalm.ending htask (hN.resolve_left fun hname => hother ?_)⟩
      simp [Waiter.isTask, hname, htask]
  · obtain ⟨t, ht, rfl⟩ := List.mem_map.mp hx
    split
    · rename_i hname
      exact (h.tasks t ht).cancel (hno t ht hname)
    · rename_i hother
      have hcalm := h.tasks t ht
      exact ⟨hcalm.named, hcalm.left, fun hN => hcalm.ending (hN.resolve_left hother)⟩
  · unfold State.present Semaphore.present State.cancelTask
    dsimp only
    rw [List.countP_map, List.countP_map]
    refine congrArg₂ (· + ·) (List.countP_congr fun x _ => ?_) (List.countP_congr fun x _ => ?_)
    · simp only [Function.comp_apply]
      split <;> exact Iff.rfl
    · simp only [Function.comp_apply]
      split <;> exact Iff.rfl

/-- A task that is left has been cancelled, and has not been given a slot before. -/
theorem State.Calm.leaveTask {task : Nat} (h : s.Calm N) (hending : task ∈ N)
    (hno : ∀ x ∈ s.slots.waiters, x.isTask task = true → x.state ≠ .granted) (hs' : s.leaveTask task = some s') :
    s'.Calm N ∧ s'.present + 1 = s.present ∧ s'.fresh = s.fresh ∧ s'.waiting = s.waiting := by
  rcases State.leaveTask_spec hs' with ⟨t, ht, hname, hleft, rfl⟩ | ⟨w, hw, htask, hleft, rfl⟩
  · have hcount := countP_erase_add (p := fun t : Task => !t.left) ht
    have hstate := (h.tasks t ht).ending (hname ▸ hending)
    refine ⟨⟨h.ending, h.waiters, fun x hx => ?_⟩, ?_, rfl, rfl⟩
    · rcases List.mem_append.mp hx with hx | hx
      · exact Task.calm_of_kept (t := { t with left := true }) (h.tasks t ht).named (fun _ => hstate) (fun _ => hstate) hx
      · exact h.tasks x (List.mem_of_mem_erase hx)
    · unfold State.present
      rw [List.countP_append, kept_present, ← hcount, hleft]
      simp only [Bool.not_true, Bool.toNat_false, Bool.not_false, Bool.toNat_true]
      omega
  · have hcount := countP_erase_add (p := fun w : Waiter => !w.left) hw
    have hcalm := h.waiters w hw
    obtain ⟨hfut, hin⟩ := (Bool.and_eq_true _ _).mp htask
    obtain ⟨hinterrupted, hpending⟩ := hcalm.ending hin ((beq_iff_eq.mp hfut).symm ▸ hending)
    have hstate : w.state = .cancelled := by
      have hgranted := hno w hw htask
      cases hs : w.state with
      | cancelled => rfl
      | pending => exact absurd hs hpending
      | granted => exact absurd hs hgranted
    refine ⟨⟨h.ending, fun x hx => ?_, h.tasks⟩, ?_, rfl, rfl⟩
    · rcases List.mem_cons.mp ((perm_replace hw).mem_iff.mp hx) with rfl | hx
      · exact ⟨hcalm.named, fun _ => ⟨hin, hstate⟩, hcalm.ending⟩
      · exact h.waiters x (List.mem_of_mem_erase hx)
    · unfold State.present Semaphore.present
      dsimp only
      rw [(perm_replace hw).countP_eq, List.countP_cons, ← hcount, hleft]
      simp only [Bool.not_true, Bool.not_false, Bool.toNat_true, Bool.false_eq_true, if_false]
      omega

/-- A caller joins the queue, waits in a task for its turn to do so, or goes on. -/
theorem enter_calm {maxWait : Option ℚ} (h : s.Calm N) {r : Except Exn (Option Nat)} (hr : self.enter maxWait s = (r, s')) :
    s'.Calm {n | n ∈ N ∨ standsNext (T := T) (.enter maxWait) r = some (.settle n)} ∧
      s'.present = s.present + ((standsNext (T := T) (.enter maxWait) r).any Op.inAcquire).toNat ∧
      s.fresh ≤ s'.fresh ∧ ∀ n, standsNext (T := T) (.enter maxWait) r = some (.waitFor n) → n < s'.fresh := by
  have hsame : ∀ {o : Option Op}, (∀ n, o ≠ some (.settle n)) → {n | n ∈ N ∨ o = some (.settle n)} = N := fun ho =>
    Set.ext fun n => or_iff_left (ho n)
  unfold enter at hr
  split at hr
  · cases hr
    rw [hsame fun _ h => by cases maxWait <;> cases h]
    exact ⟨h, by cases maxWait <;> rfl, le_refl _, fun n hn => by cases maxWait <;> cases hn⟩
  · cases maxWait with
    | some timeout =>
      cases hr
      have hnew : ∀ n ∈ {n | n ∈ N ∨ standsNext (T := T) (.enter (some timeout)) (.ok (some s.fresh)) = some (.settle n)},
          n ∈ N ∨ n = s.fresh ∧ timeout ≤ 0 := by
        rintro n (hn | hn)
        · exact Or.inl hn
        · dsimp only [standsNext] at hn
          split at hn
          · cases hn
            exact Or.inr ⟨rfl, ‹_›⟩
          · cases hn
      have hold : ∀ n ∈ {n | n ∈ N ∨ standsNext (T := T) (.enter (some timeout)) (.ok (some s.fresh)) = some (.settle n)},
          n < s.fresh → n ∈ N := fun n hn hlt =>
        (hnew n hn).resolve_right fun hfresh => by omega
      refine ⟨⟨fun n hn => ?_, fun x hx => (h.waiters x hx).mono (Nat.le_succ _) hold, fun t ht => ?_⟩, ?_, Nat.le_succ _,
        fun n hn => ?_⟩
      · rcases hnew n hn with hn | ⟨rfl, -⟩
        · exact (h.ending n hn).trans (Nat.lt_succ_self _)
        · exact Nat.lt_succ_self _
      · rcases List.mem_append.mp ht with ht | ht
        · exact (h.tasks t ht).mono (Nat.le_succ _) hold
        · obtain rfl := List.mem_singleton.mp ht
          refine ⟨Nat.lt_succ_self _, nofun, fun hn => Or.inl ?_⟩
          rcases hnew _ hn with hn | ⟨-, htimeout⟩
          · exact absurd (h.ending _ hn) (lt_irrefl _)
          · simp [htimeout]
      · unfold State.present
        rw [List.countP_append]
        dsimp only [standsNext]
        split <;> rfl
      · dsimp only [standsNext] at hn
        split at hn <;> cases hn
        exact Nat.lt_succ_self _
    | none =>
      dsimp only at hr
      split at hr
      · cases hr
        rw [hsame fun _ h => by cases h]
        refine ⟨⟨fun n hn => (h.ending n hn).trans (Nat.lt_succ_self _), fun x hx => ?_,
          fun t ht => (h.tasks t ht).mono (Nat.le_succ _) fun _ hn _ => hn⟩, ?_, Nat.le_succ _, nofun⟩
        · rcases List.mem_append.mp hx with hx | hx
          · exact (h.waiters x hx).mono (Nat.le_succ _) fun _ hn _ => hn
          · obtain rfl := List.mem_singleton.mp hx
            exact ⟨Nat.lt_succ_self _, nofun, nofun⟩
        · unfold State.present Semaphore.present
          rw [List.countP_append]
          exact Nat.add_right_comm ..
      · cases hr
        rw [hsame fun _ h => by cases h]
        exact ⟨⟨h.ending, h.waiters, h.tasks⟩, rfl, le_refl _, nofun⟩

/-- What a caller does keeps the queue, as long as it leaves no task that has been given a slot. -/
theorem exec_calm {e : Op} {choice : Choice} {r : Except Exn (e.Reply T)} (h : s.Calm N)
    (hwaits : ∀ n, e = .waitFor n → n < s.fresh) (hsettles : ∀ n, e = .settle n → n ∈ N)
    (hleaves : ∀ n, choice = .cancelled → e = .settle n →
      ∀ x ∈ s.slots.waiters, x.isTask n = true → x.state ≠ .granted)
    (hexec : self.exec e choice s = some (r, s')) :
    s'.Calm {n | n ∈ N ∨ standsNext e r = some (.settle n)} ∧
      s'.present + e.inAcquire.toNat = s.present + ((standsNext e r).any Op.inAcquire).toNat ∧
      s.fresh ≤ s'.fresh ∧ ∀ n, standsNext e r = some (.waitFor n) → n < s'.fresh := by
  have hsame : ∀ {o : Option Op}, (∀ n, o ≠ some (.settle n)) → {n | n ∈ N ∨ o = some (.settle n)} = N := fun ho =>
    Set.ext fun n => or_iff_left (ho n)
  cases e with
  | enter maxWait =>
    cases choice with
    | ok => exact enter_calm h (Option.some.inj hexec)
    | cancelled | expired => cases hexec
  | wake fut =>
    cases choice with
    | ok =>
      obtain ⟨hcalm, hpresent, hfresh⟩ := h.wake hexec
      have hnext : ((standsNext (T := T) (.wake fut) r).any Op.inAcquire).toNat = 0 := by cases r <;> rfl
      rw [hsame fun n hn => by cases r <;> cases hn]
      rw [hnext]
      exact ⟨hcalm, hpresent, hfresh.ge, fun n hn => by cases r <;> cases hn⟩
    | cancelled | expired => cases hexec
  | waitFor task =>
    rcases awaken_spec hexec with ⟨t, ht, hstate, ho⟩ | ⟨hno, wake, hwake, ho⟩
    · cases ho
      obtain ⟨hcalm, hpresent⟩ := h.collect ht (by simp [hstate])
      rw [hsame fun _ h => by cases h]
      exact ⟨hcalm, hpresent, le_refl _, nofun⟩
    · cases ho
      obtain ⟨hcalm, hpresent⟩ := h.cancelTask (hwaits task rfl) hno
      have hnext : standsNext (T := T) (.waitFor task) (.ok wake) = some (.settle task) := by
        cases wake with
        | acquired => exact absurd rfl hwake
        | expired | cancelled => rfl
      rw [hnext]
      have hN : {n | n ∈ N ∨ some (Op.settle task) = some (.settle n)} = insert task N := Set.ext fun n => by
        simp only [Option.some.injEq, Op.settle.injEq, Set.mem_ofPred_eq, Set.mem_insert_iff]
        exact Or.comm.trans (or_congr_left eq_comm)
      rw [hN]
      exact ⟨hcalm, congrArg (· + 1) hpresent, le_refl _, nofun⟩
  | settle task =>
    rw [hsame fun _ h => by cases h]
    rcases settle_spec hexec with ⟨t, ht, hstate, ho⟩ | ⟨hchoice, s₁, hs₁, ho⟩
    · obtain rfl : s' = _ := ho
      obtain ⟨hcalm, hpresent⟩ := h.collect ht (by simp [hstate])
      exact ⟨hcalm, hpresent, le_refl _, nofun⟩
    · obtain rfl : s' = _ := ho
      obtain ⟨hcalm, hpresent, hfresh, -⟩ := h.leaveTask (hsettles task rfl) (hleaves task hchoice rfl) hs₁
      exact ⟨⟨hcalm.ending, hcalm.waiters, hcalm.tasks⟩, hpresent, hfresh.ge, nofun⟩
  | submit =>
    cases choice <;> cases hexec
    rw [hsame fun _ h => by cases h]
    obtain ⟨hending, hwaiters, htasks⟩ := h.more (Nat.le_succ s.fresh)
    exact ⟨⟨hending, hwaiters, htasks⟩, rfl, Nat.le_succ _, nofun⟩
  | join ticket =>
    rw [hsame fun _ h => by cases h]
    obtain ⟨j, -, hexec⟩ := Option.bind_eq_some_iff.mp hexec
    split at hexec <;> cases hexec <;> exact ⟨⟨h.ending, h.waiters, h.tasks⟩, rfl, le_refl _, nofun⟩
  | release =>
    cases choice <;> cases hexec
    obtain ⟨-, hpresent, hgrants⟩ := @Semaphore.release_spec s.slots
    rw [hsame fun _ h => by cases h]
    exact ⟨h.less rfl hgrants fun _ ht => ht, congrArg (· + s.tasks.countP _ + 0) hpresent, le_refl _, nofun⟩

end

end
end InferenceGate
end NexusGate.Core
