import NexusGate.Gateway.Pool

/-! # The probe slot of a half-open breaker

What an operation of a pool of breaker methods does to one breaker, and what keeps the slot of a probe taken. -/

namespace NexusGate.Gateway.Router
open Async Redis System

/-! ### One breaker -/

section
variable {replica : Nat} {name : String} {s s' : Site}

theorem ask_breaker {r : Nat} {n : String} {m : CircuitBreaker.Method} : (s.ask r n m).2.breakers replica name =
    if r = replica ∧ n = name then ((s.breakers replica name).call (s.clock replica) (s.clock replica) m).2
    else s.breakers replica name := by
  by_cases hr : replica = r
  · by_cases hn : name = n
    · subst hr hn
      simp [Site.ask, State.setBreaker]
    · subst hr
      simp [Site.ask, State.setBreaker, hn, Ne.symm hn]
  · simp [Site.ask, State.setBreaker, hr, Ne.symm hr]

theorem redis_breaker {c : Cmd Int} : (s.redis c).2.breakers replica name = s.breakers replica name := by
  simp only [Site.redis, State.redis]
  split <;> rfl

theorem create_breakers {r : Nat} {n : String} : (s.toState.create r n).breakers = s.breakers := by
  unfold State.create
  split <;> rfl

/-- An operation changes a breaker only by calling a method of it. -/
theorem exec_breaker {e : Op} {choice : Choice} {r : Except Exn e.Reply} (h : exec e choice s = some (r, s')) :
    s'.breakers replica name = s.breakers replica name ∨ ∃ m, e = .breaker replica name m ∧
      s'.breakers replica name = ((s.breakers replica name).call (s.clock replica) (s.clock replica) m).2 := by
  cases e with
  | breaker r n m =>
    cases choice with
    | ok =>
      cases h
      rw [ask_breaker]
      split
      · rename_i hrn
        obtain ⟨rfl, rfl⟩ := hrn
        exact Or.inr ⟨m, rfl, rfl⟩
      · exact Or.inl rfl
    | _ => cases h
  | redis c =>
    cases choice with
    | ok =>
      cases h
      exact Or.inl redis_breaker
    | lost applied =>
      cases h
      refine Or.inl ?_
      split
      · exact redis_breaker
      · rfl
    | cancelled applied =>
      cases h
      refine Or.inl ?_
      split
      · exact redis_breaker
      · rfl
    | _ => cases h
  | create r n =>
    cases choice with
    | ok =>
      cases h
      exact Or.inl (by rw [create_breakers])
    | _ => cases h
  | _ => cases choice <;> cases h <;> exact Or.inl rfl

end

/-! ### One step -/

variable {cluster : ClusterBreakers}

/-- The step carries out this operation. -/
def Performs (w : (methods cluster).World) (a : (methods cluster).Act) (e : Op) : Prop :=
  ∃ i choice c k, a = .op i choice ∧ w.threads i = some ⟨c, .op e k⟩

theorem Performs.opOf {w : (methods cluster).World} {a : (methods cluster).Act} {e : Op} (h : Performs w a e) :
    w.opOf a = some e := by
  obtain ⟨i, choice, c, k, rfl, ht⟩ := h
  simp only [World.opOf, ht]
  rfl

theorem park_state {S : System} {w : S.World} {i : Nat} {c : S.Call} {p : S.Program} : (w.park i c p).state = w.state := by
  cases p <;> rfl

/-- What a step leaves of a breaker that it calls a method of. -/
theorem performs_breaker {w w' : (methods cluster).World} {a : (methods cluster).Act} {replica : Nat} {name : String}
    {m : CircuitBreaker.Method} (hm : Performs w a (.breaker replica name m)) (h : w.step a = some w') :
    w'.state.breakers replica name =
      ((w.state.breakers replica name).call (w.state.clock replica) (w.state.clock replica) m).2 := by
  obtain ⟨i, choice, c, k, rfl, ht⟩ := hm
  rcases World.step_cases h with ⟨_, _, ha, _⟩ | ⟨i', ch', c', e, k', r, s, ha, ht', hex, rfl⟩ |
    ⟨_, _, _, ha, _⟩ | ⟨_, _, ha, _⟩
  · cases ha
  · cases ha
    rw [ht] at ht'
    cases ht'
    rw [park_state]
    cases choice with
    | ok =>
      cases hex
      exact ask_breaker.trans (if_pos ⟨rfl, rfl⟩)
    | _ => cases hex
  · cases ha
  · cases ha

/-- A pool in which no call is running. -/
def quiet (cluster : ClusterBreakers) (s : Site) : (methods cluster).World := { state := s }

/-! ### The probe -/

/-- What `allow_request` returns, if a breaker is asked now. -/
def allows (s : Site) (replica : Nat) (name : String) : Bool :=
  ((s.breakers replica name).allowRequest (s.clock replica)).1

/-- The operation asks the breaker for a request. -/
def asking (replica : Nat) (name : String) : Option Op → Bool
  | some (.breaker replica' name' .allowRequest) => replica' == replica && name' == name
  | _ => false

theorem performs_of_asking {w : (methods cluster).World} {i replica : Nat} {name : String}
    (h : asking replica name (w.opOf (.op i .ok)) = true) : Performs w (.op i .ok) (.breaker replica name .allowRequest) := by
  cases hop : w.opOf (.op i .ok) with
  | none =>
    rw [hop] at h
    cases h
  | some e =>
    rw [hop] at h
    cases e with
    | breaker replica' name' m =>
      cases m with
      | allowRequest =>
        obtain ⟨hreplica, hname⟩ := Bool.and_eq_true_iff.mp h
        rw [beq_iff_eq] at hreplica hname
        obtain ⟨c, k, ht⟩ := World.opOf_eq_some hop
        exact ⟨i, .ok, c, k, rfl, by rw [ht, hreplica, hname]⟩
      | _ => cases h
    | _ => cases h

/-- A half-open breaker lets its probe through. -/
structure LetsProbe (replica : Nat) (name : String) (w : (methods cluster).World) (a : (methods cluster).Act)
    (w' : (methods cluster).World) : Prop where
  performs : Performs w a (.breaker replica name .allowRequest)
  halfOpen : ((w.state.breakers replica name).refresh (w.state.clock replica)).state = .halfOpen
  allowed : allows w.state replica name = true
  step : w.step a = some w'

/-- No outcome of the deployment is recorded on the replica. -/
def NoOutcome (replica : Nat) (name : String) (w : (methods cluster).World) (a : (methods cluster).Act) : Prop :=
  ¬Performs w a (.breaker replica name .recordFailure) ∧ ¬Performs w a (.breaker replica name .recordSuccess)

/-- The slot of the probe is taken, or the circuit is open again. -/
def Taken (b : CircuitBreaker) : Prop := (b.state = .halfOpen ∧ b.probeInFlight = true) ∨ b.state = .opened

theorem refresh_of_not_due {b : CircuitBreaker} {now : ℚ} (h : b.due now = false) : b.refresh now = b := by
  rw [CircuitBreaker.refresh, if_neg (Bool.eq_false_iff.mp h)]

theorem allowRequest_taken {b : CircuitBreaker} {now : ℚ} (h : Taken b) (hdue : b.due now = false) :
    b.allowRequest now = (false, b) := by
  unfold CircuitBreaker.allowRequest
  rw [refresh_of_not_due hdue]
  rcases h with ⟨hs, hp⟩ | hs
  · simp [hs, hp]
  · simp [hs]

theorem taken_of_letsProbe {replica : Nat} {name : String} {w w' : (methods cluster).World}
    {a : (methods cluster).Act} (h : LetsProbe replica name w a w') : Taken (w'.state.breakers replica name) := by
  rw [performs_breaker h.performs h.step]
  have hallowed := h.allowed
  unfold allows at hallowed
  simp only [CircuitBreaker.allowRequest, h.halfOpen] at hallowed
  simp only [CircuitBreaker.call, CircuitBreaker.allowRequest, h.halfOpen]
  split at hallowed
  · cases hallowed
  · rename_i hfree
    rw [if_neg hfree]
    exact Or.inl ⟨rfl, rfl⟩

/-- The slot stays taken when no outcome is recorded, only `OPEN` is adopted, and no cooldown has run out. -/
theorem taken_exec {replica : Nat} {name : String} {s s' : Site} {e : Op} {choice : Choice} {r : Except Exn e.Reply}
    (h : Taken (s.breakers replica name)) (hex : exec e choice s = some (r, s'))
    (hno : e ≠ .breaker replica name .recordFailure ∧ e ≠ .breaker replica name .recordSuccess)
    (hadopts : ∀ state n, e = .breaker replica name (.adopt state n) → state = .opened)
    (hdue : ∀ m, e = .breaker replica name m → (s.breakers replica name).due (s.clock replica) = false) :
    Taken (s'.breakers replica name) := by
  rcases @exec_breaker replica name _ _ _ _ _ hex with hb | ⟨m, rfl, hb⟩
  · rwa [hb]
  · rw [hb]
    have hnot := hdue m rfl
    cases m with
    | state =>
      simp only [CircuitBreaker.call, refresh_of_not_due hnot]
      exact h
    | allowRequest =>
      simp only [CircuitBreaker.call, allowRequest_taken h hnot]
      exact h
    | adopt state n =>
      obtain rfl := hadopts state n rfl
      exact Or.inr rfl
    | recordSuccess => exact absurd rfl hno.2
    | recordFailure => exact absurd rfl hno.1

end NexusGate.Gateway.Router
