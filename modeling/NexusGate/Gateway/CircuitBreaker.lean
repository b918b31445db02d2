import Mathlib.Data.Rat.Defs
import Mathlib.Algebra.Order.Ring.Rat

/-! # The circuit breaker of one deployment

`CircuitBreaker` of `app/gateway/circuit_breaker.py`. A method that reads the clock takes the reading as an
argument; `record_failure` reads it once to bring the state up to date and once more to stamp the opening. -/

namespace NexusGate.Gateway

inductive BreakerState
  | closed
  | opened
  | halfOpen
  deriving DecidableEq, Repr

/-- `state` is the field `_state`; the property of that name is `refresh`. -/
structure CircuitBreaker where
  failureThreshold : Int
  cooldownSeconds : ℚ
  positive : 1 ≤ failureThreshold
  state : BreakerState := .closed
  consecutiveFailures : Int := 0
  openedAt : ℚ := 0
  probeInFlight : Bool := false
  deriving DecidableEq

namespace CircuitBreaker

/-- `__init__`. -/
def new (failureThreshold : Int) (cooldownSeconds : ℚ) (positive : 1 ≤ failureThreshold) : CircuitBreaker :=
  { failureThreshold, cooldownSeconds, positive }

/-- The cooldown of an open circuit is over. -/
def due (b : CircuitBreaker) (now : ℚ) : Bool := b.state = .opened ∧ b.cooldownSeconds ≤ now - b.openedAt

/-- Reading the property `state` moves an open circuit on once its cooldown is over. -/
def refresh (b : CircuitBreaker) (now : ℚ) : CircuitBreaker :=
  if b.due now then { b with state := .halfOpen, probeInFlight := false } else b

def allowRequest (b : CircuitBreaker) (now : ℚ) : Bool × CircuitBreaker :=
  let b := b.refresh now
  match b.state with
  | .closed => (true, b)
  | .halfOpen => if b.probeInFlight then (false, b) else (true, { b with probeInFlight := true })
  | .opened => (false, b)

def adopt (b : CircuitBreaker) (state : BreakerState) (consecutiveFailures : Int) (now : ℚ) : CircuitBreaker :=
  match state with
  | .opened => { b with state, consecutiveFailures, openedAt := now, probeInFlight := false }
  | .halfOpen =>
    { b with state, consecutiveFailures, openedAt := now - b.cooldownSeconds, probeInFlight := false }
  | .closed => { b with state, consecutiveFailures }

def recordSuccess (b : CircuitBreaker) : CircuitBreaker :=
  { b with state := .closed, consecutiveFailures := 0, probeInFlight := false }

/-- Whether the call opened the circuit, and the breaker it leaves. -/
def recordFailure (b : CircuitBreaker) (now stamp : ℚ) : Bool × CircuitBreaker :=
  let b := { b with consecutiveFailures := b.consecutiveFailures + 1 }.refresh now
  if b.state = .halfOpen ∨ (b.state = .closed ∧ b.failureThreshold ≤ b.consecutiveFailures) then
    (true, { b with state := .opened, openedAt := stamp, probeInFlight := false })
  else (false, b)

/-- What a caller can ask of a breaker. -/
inductive Method
  | state
  | allowRequest
  | adopt (state : BreakerState) (consecutiveFailures : Int)
  | recordSuccess
  | recordFailure
  deriving DecidableEq

abbrev Method.Reply : Method → Type
  | .state => BreakerState
  | .allowRequest => Bool
  | .adopt _ _ => Unit
  | .recordSuccess => Unit
  | .recordFailure => Bool

/-- One method with the two readings of the clock that it may take. -/
def call (b : CircuitBreaker) (now stamp : ℚ) : (m : Method) → m.Reply × CircuitBreaker
  | .state => ((b.refresh now).state, b.refresh now)
  | .allowRequest => b.allowRequest now
  | .adopt state n => ((), b.adopt state n now)
  | .recordSuccess => ((), b.recordSuccess)
  | .recordFailure => b.recordFailure now stamp

end CircuitBreaker
end NexusGate.Gateway
