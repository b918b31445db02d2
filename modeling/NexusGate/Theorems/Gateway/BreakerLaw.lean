import Mathlib.Tactic.Linarith
import NexusGate.Gateway.CircuitBreaker

/-! # The law of one breaker

What a breaker does that no other replica speaks to, over every history of calls under a clock that never goes
back. A history lists the calls on the breaker, the latest first. -/

namespace NexusGate.Gateway

/-- A call of a method, with the readings of the clock that it may take. -/
structure Use where
  method : CircuitBreaker.Method
  now : ℚ
  stamp : ℚ

namespace Use

/-- Everything but `adopt`. -/
def isLocal (u : Use) : Bool :=
  match u.method with
  | .adopt _ _ => false
  | _ => true

/-- The call reports a success. -/
def success (u : Use) : Bool := u.method = .recordSuccess

/-- The call reports a failure. -/
def failure (u : Use) : Bool := u.method = .recordFailure

/-- A success or a failure is recorded. -/
def outcome (u : Use) : Bool := u.success || u.failure

end Use

/-- The clock never goes back. -/
def Chronological (past : List Use) : Prop :=
  (∀ u ∈ past, u.now ≤ u.stamp) ∧ past.IsChain fun later earlier => earlier.stamp ≤ later.now

/-- The failures that were recorded since the last success, or since the start. -/
def failures (past : List Use) : Nat := (past.takeWhile fun u => !u.success).countP Use.failure

namespace CircuitBreaker

/-- The breaker after a history of calls. -/
def after (b : CircuitBreaker) : List Use → CircuitBreaker
  | [] => b
  | u :: past => ((b.after past).call u.now u.stamp u.method).2

/-- The call `u` returns True. -/
def returnsTrue (b : CircuitBreaker) (u : Use) : Bool :=
  match u.method with
  | .allowRequest => (b.call u.now u.stamp .allowRequest).1
  | .recordFailure => (b.call u.now u.stamp .recordFailure).1
  | _ => false

/-- After `past`, the call `u` opens the circuit. -/
def opens (b : CircuitBreaker) (u : Use) (past : List Use) : Bool := u.failure && (b.after past).returnsTrue u

/-- The requests that `later` lets through after `past`. -/
def admitted (b : CircuitBreaker) (past : List Use) : List Use → Nat
  | [] => 0
  | u :: later => b.admitted past later +
    if u.method = .allowRequest ∧ (b.after (later ++ past)).returnsTrue u = true then 1 else 0

/-- What holds of a breaker after a history. -/
structure Lawful (b : CircuitBreaker) (past : List Use) : Prop where
  /-- A closed circuit has counted the failures since the last success, and they are not too many. -/
  counted : (b.after past).state = .closed →
    (b.after past).consecutiveFailures = failures past ∧ (failures past : Int) < b.failureThreshold
  /-- A failure returns True if it moves the circuit to OPEN, -/
  returned : ∀ u, u.failure = true → (b.opens u past = true ↔
    ((b.after past).refresh u.now).state ≠ .opened ∧ (b.after (u :: past)).state = .opened)
  /-- which is at the last failure that a closed circuit takes, or while it is half open. -/
  opened : ∀ u, u.failure = true → (b.opens u past = true ↔
    (((b.after past).refresh u.now).state = .closed ∧ (failures (u :: past) : Int) = b.failureThreshold) ∨
      ((b.after past).refresh u.now).state = .halfOpen)
  /-- Nothing is let through before the cooldown is over, unless a success was recorded. -/
  shut : ∀ later u earlier v, past = later ++ u :: earlier → b.opens u earlier = true →
    (∀ x ∈ later, x.success = false) → v.method = .allowRequest → Chronological (v :: past) →
    v.now < u.stamp + b.cooldownSeconds → (b.after past).returnsTrue v = false
  /-- One request at most is let through until an outcome is recorded. -/
  probe : ∀ later u earlier, past = later ++ u :: earlier → b.opens u earlier = true →
    (∀ x ∈ later, x.outcome = false) → b.admitted (u :: earlier) later ≤ 1

/-! ### One call -/

variable {b : CircuitBreaker} {past : List Use} {u v : Use} {now stamp : ℚ}

@[simp] theorem refresh_failureThreshold : (b.refresh now).failureThreshold = b.failureThreshold := by
  unfold refresh
  split <;> rfl

@[simp] theorem refresh_cooldownSeconds : (b.refresh now).cooldownSeconds = b.cooldownSeconds := by
  unfold refresh
  split <;> rfl

@[simp] theorem refresh_consecutiveFailures : (b.refresh now).consecutiveFailures = b.consecutiveFailures := by
  unfold refresh
  split <;> rfl

@[simp] theorem refresh_openedAt : (b.refresh now).openedAt = b.openedAt := by
  unfold refresh
  split <;> rfl

/-- The circuit is closed now if and only if it was. -/
theorem refresh_closed : (b.refresh now).state = .closed ↔ b.state = .closed := by
  unfold refresh due
  split
  · rename_i h
    have h : b.state = .opened ∧ b.cooldownSeconds ≤ now - b.openedAt := of_decide_eq_true h
    simp [h.1]
  · rfl

/-- A circuit that is not open is not moved on. -/
theorem refresh_of_not_opened (h : b.state ≠ .opened) : b.refresh now = b := by
  unfold refresh due
  rw [if_neg fun hd => h (of_decide_eq_true hd).1]

/-- Before its cooldown is over, an open circuit stays open. -/
theorem refresh_of_early (h : now < b.openedAt + b.cooldownSeconds) : b.refresh now = b := by
  unfold refresh due
  rw [if_neg fun hd => by have hd := (of_decide_eq_true hd).2; linarith]

/-- A failure is counted before the state is read, which does not look at the count. -/
theorem refresh_counted {n : Int} :
    { b with consecutiveFailures := n }.refresh now = { b.refresh now with consecutiveFailures := n } := by
  unfold refresh due
  dsimp only
  split <;> rfl

theorem recordFailure_opens : (b.recordFailure now stamp).1 = true ↔
    (b.refresh now).state = .halfOpen ∨
      ((b.refresh now).state = .closed ∧ b.failureThreshold ≤ b.consecutiveFailures + 1) := by
  rw [← @refresh_failureThreshold b now]
  unfold recordFailure
  rw [refresh_counted]
  dsimp only
  split
  · rename_i h
    exact ⟨fun _ => h, fun _ => rfl⟩
  · rename_i h
    exact ⟨fun h' => (by cases h'), fun h' => absurd h' h⟩

/-- A failure that opens the circuit starts its cooldown. -/
theorem recordFailure_of_opens (h : (b.recordFailure now stamp).1 = true) :
    (b.recordFailure now stamp).2 = { b.refresh now with
      state := .opened, consecutiveFailures := b.consecutiveFailures + 1, openedAt := stamp, probeInFlight := false } := by
  unfold recordFailure at h ⊢
  rw [refresh_counted] at h ⊢
  dsimp only at h ⊢
  split
  · rfl
  · rename_i hno
    rw [if_neg hno] at h
    cases h

/-- A failure that does not open it is only counted. -/
theorem recordFailure_of_not_opens (h : (b.recordFailure now stamp).1 = false) :
    (b.recordFailure now stamp).2 = { b.refresh now with consecutiveFailures := b.consecutiveFailures + 1 } := by
  unfold recordFailure at h ⊢
  rw [refresh_counted] at h ⊢
  dsimp only at h ⊢
  split
  · rename_i hyes
    rw [if_pos hyes] at h
    cases h
  · rfl

/-- What asking for a request comes to. -/
theorem allowRequest_cases :
    ((b.refresh now).state = .closed ∧ b.allowRequest now = (true, b.refresh now)) ∨
    ((b.refresh now).state = .opened ∧ b.allowRequest now = (false, b.refresh now)) ∨
    ((b.refresh now).state = .halfOpen ∧ (b.refresh now).probeInFlight = true ∧
      b.allowRequest now = (false, b.refresh now)) ∨
    ((b.refresh now).state = .halfOpen ∧ (b.refresh now).probeInFlight = false ∧
      b.allowRequest now = (true, { b.refresh now with probeInFlight := true })) := by
  unfold allowRequest
  dsimp only
  split
  · exact Or.inl ⟨‹_›, rfl⟩
  · split
    · exact Or.inr (Or.inr (Or.inl ⟨‹_›, ‹_›, rfl⟩))
    · exact Or.inr (Or.inr (Or.inr ⟨‹_›, Bool.eq_false_iff.mpr ‹_›, rfl⟩))
  · exact Or.inr (Or.inl ⟨‹_›, rfl⟩)

/-- Asking changes nothing but whether a probe is under way. -/
theorem allowRequest_kept : (b.allowRequest now).2.state = (b.refresh now).state ∧
    (b.allowRequest now).2.consecutiveFailures = b.consecutiveFailures ∧
    (b.allowRequest now).2.failureThreshold = b.failureThreshold ∧
    (b.allowRequest now).2.cooldownSeconds = b.cooldownSeconds := by
  rcases @allowRequest_cases b now with ⟨-, h⟩ | ⟨-, h⟩ | ⟨-, -, h⟩ | ⟨-, -, h⟩ <;> rw [h] <;>
    exact ⟨rfl, refresh_consecutiveFailures, refresh_failureThreshold, refresh_cooldownSeconds⟩

theorem allowRequest_opened (h : (b.refresh now).state = .opened) : b.allowRequest now = (false, b.refresh now) := by
  rcases @allowRequest_cases b now with ⟨hs, -⟩ | ⟨-, ha⟩ | ⟨hs, -⟩ | ⟨hs, -⟩
  · cases hs.symm.trans h
  · exact ha
  · cases hs.symm.trans h
  · cases hs.symm.trans h

/-! ### The settings are kept -/

theorem call_settings (m : Method) : (b.call now stamp m).2.failureThreshold = b.failureThreshold ∧
    (b.call now stamp m).2.cooldownSeconds = b.cooldownSeconds := by
  cases m with
  | state => exact ⟨refresh_failureThreshold, refresh_cooldownSeconds⟩
  | allowRequest => exact allowRequest_kept.2.2
  | adopt state n => cases state <;> exact ⟨rfl, rfl⟩
  | recordSuccess => exact ⟨rfl, rfl⟩
  | recordFailure =>
    show (b.recordFailure now stamp).2.failureThreshold = _ ∧ (b.recordFailure now stamp).2.cooldownSeconds = _
    cases h : (b.recordFailure now stamp).1 with
    | true =>
      rw [recordFailure_of_opens h]
      exact ⟨refresh_failureThreshold, refresh_cooldownSeconds⟩
    | false =>
      rw [recordFailure_of_not_opens h]
      exact ⟨refresh_failureThreshold, refresh_cooldownSeconds⟩

theorem after_settings : (b.after past).failureThreshold = b.failureThreshold ∧
    (b.after past).cooldownSeconds = b.cooldownSeconds := by
  induction past with
  | nil => exact ⟨rfl, rfl⟩
  | cons u past ih =>
    have h := @call_settings (b.after past) u.now u.stamp u.method
    exact ⟨h.1.trans ih.1, h.2.trans ih.2⟩

/-! ### Counting -/

theorem failures_success (h : u.success = true) : failures (u :: past) = 0 := by
  rw [failures, List.takeWhile_cons_of_neg (by simp [h])]
  rfl

theorem failures_cons (h : u.success = false) :
    failures (u :: past) = failures past + if u.failure = true then 1 else 0 := by
  rw [failures, List.takeWhile_cons_of_pos (by simp [h]), List.countP_cons]
  rfl

/-- A fresh breaker. -/
structure Fresh (b : CircuitBreaker) : Prop where
  state : b.state = .closed
  count : b.consecutiveFailures = 0

theorem counted (hb : b.Fresh) : ∀ {past : List Use}, (∀ u ∈ past, u.isLocal = true) →
    (b.after past).state = .closed → (b.after past).consecutiveFailures = failures past ∧ (failures past : Int) < b.failureThreshold
  | [], _, _ => ⟨hb.count, Int.lt_of_lt_of_le Int.zero_lt_one b.positive⟩
  | u :: past, hlocal, hstate => by
    obtain ⟨hu, hpast⟩ := List.forall_mem_cons.mp hlocal
    have ih := fun h => counted hb hpast h
    obtain ⟨m, now, stamp⟩ := u
    cases m with
    | state =>
      rw [failures_cons rfl]
      have h := ih (refresh_closed.mp hstate)
      exact ⟨refresh_consecutiveFailures.trans h.1, h.2⟩
    | allowRequest =>
      rw [failures_cons rfl]
      have hkept := @allowRequest_kept (b.after past) now
      have h := ih (refresh_closed.mp (hkept.1.symm.trans hstate))
      exact ⟨hkept.2.1.trans h.1, h.2⟩
    | adopt state n => cases hu
    | recordSuccess =>
      rw [failures_success rfl]
      exact ⟨rfl, Int.lt_of_lt_of_le Int.zero_lt_one b.positive⟩
    | recordFailure =>
      rw [failures_cons rfl]
      have hstate : ((b.after past).recordFailure now stamp).2.state = .closed := hstate
      show ((b.after past).recordFailure now stamp).2.consecutiveFailures = _ ∧ _
      cases h : ((b.after past).recordFailure now stamp).1 with
      | true =>
        rw [recordFailure_of_opens h] at hstate
        cases hstate
      | false =>
        rw [recordFailure_of_not_opens h] at hstate ⊢
        obtain ⟨hcount, -⟩ := ih (refresh_closed.mp hstate)
        have hfew : ¬(b.after past).failureThreshold ≤ (b.after past).consecutiveFailures + 1 := fun hmany =>
          Bool.eq_false_iff.mp h (recordFailure_opens.mpr (Or.inr ⟨hstate, hmany⟩))
        rw [after_settings.1] at hfew
        have hone : (if Use.failure ⟨.recordFailure, now, stamp⟩ = true then 1 else 0) = 1 := rfl
        rw [hone]
        refine ⟨by push_cast; rw [hcount], by push_cast; omega⟩

theorem opens_eq (hu : u.failure = true) : b.opens u past = ((b.after past).recordFailure u.now u.stamp).1 := by
  obtain ⟨m, now, stamp⟩ := u
  have hm : m = .recordFailure := of_decide_eq_true hu
  subst hm
  rfl

theorem after_failure (hu : u.failure = true) : b.after (u :: past) = ((b.after past).recordFailure u.now u.stamp).2 := by
  obtain ⟨m, now, stamp⟩ := u
  have hm : m = .recordFailure := of_decide_eq_true hu
  subst hm
  rfl

theorem returned (hu : u.failure = true) : b.opens u past = true ↔
    ((b.after past).refresh u.now).state ≠ .opened ∧ (b.after (u :: past)).state = .opened := by
  rw [opens_eq hu, after_failure hu]
  cases h : ((b.after past).recordFailure u.now u.stamp).1 with
  | true =>
    rw [recordFailure_of_opens h]
    refine iff_of_true rfl ⟨fun ho => ?_, rfl⟩
    rcases recordFailure_opens.mp h with h' | ⟨h', -⟩ <;> rw [ho] at h' <;> cases h'
  | false =>
    rw [recordFailure_of_not_opens h]
    exact iff_of_false Bool.false_ne_true fun ho => ho.1 ho.2

theorem opened (hb : b.Fresh) (hlocal : ∀ u ∈ past, u.isLocal = true) (hu : u.failure = true) :
    b.opens u past = true ↔
      (((b.after past).refresh u.now).state = .closed ∧ (failures (u :: past) : Int) = b.failureThreshold) ∨
        ((b.after past).refresh u.now).state = .halfOpen := by
  have hsuccess : u.success = false := by
    obtain ⟨m, now, stamp⟩ := u
    have hm : m = .recordFailure := of_decide_eq_true hu
    subst hm
    rfl
  rw [opens_eq hu, recordFailure_opens, failures_cons hsuccess, if_pos hu, after_settings.1, or_comm]
  refine or_congr_left (and_congr_right fun hclosed => ?_)
  obtain ⟨hcount, hfew⟩ := counted hb hlocal (refresh_closed.mp hclosed)
  rw [hcount]
  push_cast
  omega

/-! ### After an opening -/

/-- Right after an opening. -/
theorem after_opens (hu : u.failure = true) (h : b.opens u past = true) :
    (b.after (u :: past)).state = .opened ∧ (b.after (u :: past)).openedAt = u.stamp := by
  rw [opens_eq hu] at h
  rw [after_failure hu, recordFailure_of_opens h]
  exact ⟨rfl, rfl⟩

theorem failure_of_opens (h : b.opens u past = true) : u.failure = true := (Bool.and_eq_true_iff.mp h).1

/-- An open circuit before the end of its cooldown only closes on a success. -/
theorem call_early {t : ℚ} {m : Method} (hs : b.state = .opened) (ht : b.openedAt = t)
    (hearly : now < t + b.cooldownSeconds) (hlocal : Use.isLocal ⟨m, now, stamp⟩ = true)
    (hsuccess : Use.success ⟨m, now, stamp⟩ = false) :
    (b.call now stamp m).2.state = .opened ∧ (b.call now stamp m).2.openedAt = t := by
  have hrefresh : b.refresh now = b := refresh_of_early (ht.symm ▸ hearly)
  cases m with
  | state =>
    show (b.refresh now).state = _ ∧ (b.refresh now).openedAt = _
    rw [hrefresh]
    exact ⟨hs, ht⟩
  | allowRequest =>
    show (b.allowRequest now).2.state = _ ∧ (b.allowRequest now).2.openedAt = _
    rw [allowRequest_opened (by rw [hrefresh]; exact hs), hrefresh]
    exact ⟨hs, ht⟩
  | adopt state n => cases hlocal
  | recordSuccess => cases hsuccess
  | recordFailure =>
    have hno : (b.recordFailure now stamp).1 = false := by
      refine Bool.eq_false_iff.mpr fun h => ?_
      rw [recordFailure_opens, hrefresh, hs] at h
      rcases h with h | ⟨h, -⟩ <;> cases h
    show (b.recordFailure now stamp).2.state = _ ∧ (b.recordFailure now stamp).2.openedAt = _
    rw [recordFailure_of_not_opens hno, hrefresh]
    exact ⟨hs, ht⟩

/-- A call is not earlier than the calls before it. -/
theorem Chronological.now_le {earlier : List Use} : ∀ {later : List Use} {v : Use}, Chronological (v :: (later ++ u :: earlier)) →
    u.stamp ≤ v.now
  | [], _, h => (List.isChain_cons_cons.mp h.2).1
  | x :: later, v, h => by
    have hx : Chronological (x :: (later ++ u :: earlier)) :=
      ⟨fun y hy => h.1 y (List.mem_cons_of_mem _ hy), (List.isChain_cons_cons.mp h.2).2⟩
    calc u.stamp ≤ x.now := now_le hx
      _ ≤ x.stamp := h.1 x (List.mem_cons_of_mem _ List.mem_cons_self)
      _ ≤ v.now := (List.isChain_cons_cons.mp h.2).1

/-- The circuit stays open, with the stamp of its opening. -/
theorem stays_open {earlier : List Use} (h : b.opens u earlier = true) : ∀ {later : List Use} {v : Use},
    (∀ x ∈ later, x.isLocal = true) → (∀ x ∈ later, x.success = false) → Chronological (v :: (later ++ u :: earlier)) →
    v.now < u.stamp + b.cooldownSeconds →
    (b.after (later ++ u :: earlier)).state = .opened ∧ (b.after (later ++ u :: earlier)).openedAt = u.stamp
  | [], _, _, _, _, _ => after_opens (failure_of_opens h) h
  | x :: later, v, hlocal, hsuccess, htimed, hearly => by
    obtain ⟨hx, hlocal⟩ := List.forall_mem_cons.mp hlocal
    obtain ⟨hxs, hsuccess⟩ := List.forall_mem_cons.mp hsuccess
    have hxt : Chronological (x :: (later ++ u :: earlier)) :=
      ⟨fun y hy => htimed.1 y (List.mem_cons_of_mem _ hy), (List.isChain_cons_cons.mp htimed.2).2⟩
    have hxearly : x.now < u.stamp + b.cooldownSeconds := by
      have hxx := htimed.1 x (List.mem_cons_of_mem _ List.mem_cons_self)
      have hxv := (List.isChain_cons_cons.mp htimed.2).1
      linarith
    obtain ⟨hs, ht⟩ := stays_open h hlocal hsuccess hxt hxearly
    exact call_early hs ht (by rw [after_settings.2]; exact hxearly) hx hxs

theorem shut {later earlier : List Use} (h : b.opens u earlier = true) (hlocal : ∀ x ∈ later, x.isLocal = true)
    (hsuccess : ∀ x ∈ later, x.success = false) (hv : v.method = .allowRequest)
    (htimed : Chronological (v :: (later ++ u :: earlier))) (hearly : v.now < u.stamp + b.cooldownSeconds) :
    (b.after (later ++ u :: earlier)).returnsTrue v = false := by
  obtain ⟨hs, ht⟩ := stays_open h hlocal hsuccess htimed hearly
  have hrefresh : (b.after (later ++ u :: earlier)).refresh v.now = b.after (later ++ u :: earlier) :=
    refresh_of_early (by rw [ht, after_settings.2]; exact hearly)
  unfold returnsTrue
  rw [hv]
  show ((b.after (later ++ u :: earlier)).allowRequest v.now).1 = false
  rw [allowRequest_opened (by rw [hrefresh]; exact hs)]

/-- What an opened circuit has let through while no outcome is recorded. -/
def Probing (b : CircuitBreaker) (n : Nat) : Prop :=
  (b.state = .opened ∧ n = 0) ∨ (b.state = .halfOpen ∧ n = if b.probeInFlight then 1 else 0)

/-- Bringing the state up to date lets nothing through. -/
theorem Probing.refresh {n : Nat} (h : Probing b n) : Probing (b.refresh now) n := by
  rcases h with ⟨hs, hn⟩ | ⟨hs, hn⟩
  · unfold CircuitBreaker.refresh
    split
    · exact Or.inr ⟨rfl, hn⟩
    · exact Or.inl ⟨hs, hn⟩
  · rw [refresh_of_not_opened (by rw [hs]; exact BreakerState.noConfusion)]
    exact Or.inr ⟨hs, hn⟩

/-- A request is let through only where none has been. -/
theorem Probing.allow {n : Nat} (h : Probing b n) :
    Probing (b.allowRequest now).2 (n + if (b.allowRequest now).1 = true then 1 else 0) := by
  have h := @Probing.refresh b now n h
  rcases @allowRequest_cases b now with ⟨hs, ha⟩ | ⟨-, ha⟩ | ⟨-, -, ha⟩ | ⟨hs, hp, ha⟩
  · rcases h with ⟨hs', -⟩ | ⟨hs', -⟩ <;> cases hs.symm.trans hs'
  · rw [ha]
    exact h
  · rw [ha]
    exact h
  · rw [ha]
    rcases h with ⟨hs', -⟩ | ⟨-, hn⟩
    · cases hs.symm.trans hs'
    · rw [hp] at hn
      exact Or.inr ⟨hs, by rw [hn]; rfl⟩

theorem probing {earlier : List Use} (h : b.opens u earlier = true) : ∀ {later : List Use},
    (∀ x ∈ later, x.isLocal = true) → (∀ x ∈ later, x.outcome = false) →
    Probing (b.after (later ++ u :: earlier)) (b.admitted (u :: earlier) later)
  | [], _, _ => Or.inl ⟨(after_opens (failure_of_opens h) h).1, rfl⟩
  | x :: later, hlocal, hnone => by
    obtain ⟨hx, hlocal⟩ := List.forall_mem_cons.mp hlocal
    obtain ⟨hxo, hnone⟩ := List.forall_mem_cons.mp hnone
    have ih := probing h hlocal hnone
    obtain ⟨m, now, stamp⟩ := x
    cases m with
    | state => exact ih.refresh
    | allowRequest =>
      have hallow := @Probing.allow _ now _ ih
      rw [admitted]
      simp only [true_and]
      exact hallow
    | adopt state n => cases hx
    | recordSuccess => cases hxo
    | recordFailure => cases hxo

theorem probe {later earlier : List Use} (h : b.opens u earlier = true) (hlocal : ∀ x ∈ later, x.isLocal = true)
    (hnone : ∀ x ∈ later, x.outcome = false) : b.admitted (u :: earlier) later ≤ 1 := by
  rcases probing h hlocal hnone with ⟨-, hn⟩ | ⟨-, hn⟩
  · omega
  · rw [hn]
    split <;> omega

/-- A fresh breaker obeys its law after every history of calls. -/
theorem lawful (hb : b.Fresh) (hlocal : ∀ u ∈ past, u.isLocal = true) : b.Lawful past where
  counted := counted hb hlocal
  returned _ hu := returned hu
  opened _ hu := opened hb hlocal hu
  shut later u earlier v hpast h hsuccess hv htimed hearly := by
    subst hpast
    exact shut h (fun x hx => hlocal x (List.mem_append_left _ hx)) hsuccess hv htimed hearly
  probe later u earlier hpast h hnone := by
    subst hpast
    exact probe h (fun x hx => hlocal x (List.mem_append_left _ hx)) hnone

namespace Tripped

/-- The breaker of one failure, with a cooldown of ten seconds. -/
def fresh : CircuitBreaker := { failureThreshold := 1, cooldownSeconds := 10, positive := le_refl 1 }

/-- It opens at once; a probe is let through after eleven seconds, and nothing else. -/
def history : List Use :=
  [⟨.allowRequest, 12, 12⟩, ⟨.allowRequest, 11, 11⟩, ⟨.allowRequest, 5, 5⟩, ⟨.recordFailure, 0, 0⟩]

theorem fresh_lawful : fresh.Lawful history := lawful ⟨rfl, rfl⟩ (by decide)

end Tripped

end CircuitBreaker
end NexusGate.Gateway
