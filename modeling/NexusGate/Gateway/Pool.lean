import NexusGate.Gateway.Scene

/-! # Calls on breakers, interleaved

Two kinds of pools over the breakers of the replicas and the Redis they share: of the methods of
`ClusterBreakers` and of single breakers, on any number of replicas, and of the requests of one router. -/

namespace NexusGate.Gateway.Router
open Async Redis

/-- The replicas at work, each with its own clock and its own gauges; a gauge shows nothing until it is set. -/
structure Site extends State where
  clock : Nat → ℚ := fun _ => 0
  gauges : Nat → String → Option Bool := fun _ _ => none

/-- What the environment decides at an operation. -/
inductive Choice
  | ok
  /-- The connection is lost, before or after the command took effect. -/
  | lost (applied : Bool)
  /-- The call is cancelled there, before or after a command took effect. -/
  | cancelled (applied : Bool)
  | raised (failure : Failure)
  | whole (answer : Except Failure ProviderResponse)
  | script (script : Script)
  | elapsed (milliseconds : ℚ)

namespace Site

def redis (s : Site) (c : Cmd Int) : Except Exn (Redis.Reply Int) × Site :=
  ((s.toState.redis c).1, { s with toState := (s.toState.redis c).2 })

/-- Call a method of a breaker. -/
def ask (s : Site) (replica : Nat) (name : String) (m : CircuitBreaker.Method) : m.Reply × Site :=
  let (reply, b) := (s.breakers replica name).call (s.clock replica) (s.clock replica) m
  (reply, { s with toState := s.toState.setBreaker replica name b })

def setGauge (s : Site) (replica : Nat) (name : String) (up : Bool) : Site :=
  { s with gauges := Function.update s.gauges replica (Function.update (s.gauges replica) name (some up)) }

end Site

@[grind =] def exec (op : Op) (choice : Choice) (s : Site) : Option (Except Exn op.Reply × Site) :=
  match op, choice with
  | .redis c, .ok => some (s.redis c)
  | .redis c, .lost applied => some (.error .redisError, if applied then (s.redis c).2 else s)
  | .redis c, .cancelled applied => some (.error .cancelled, if applied then (s.redis c).2 else s)
  | .monotonic replica, .ok => some (.ok (s.clock replica), s)
  | .syncedAt replica, .ok => some (.ok (s.syncedAt replica), s)
  | .stamp replica now, .ok =>
    some (.ok (), { s with syncedAt := Function.update s.syncedAt replica (some now) })
  | .known replica name, .ok => some (.ok (name ∈ s.known replica), s)
  | .create replica name, .ok => some (.ok (), { s with toState := s.toState.create replica name })
  | .breakerNames replica, .ok => some (.ok (s.known replica), s)
  | .breaker replica name m, .ok => some (.ok (s.ask replica name m).1, (s.ask replica name m).2)
  | .sleep _, .ok => some (.ok (), s)
  | .sleep _, .cancelled _ => some (.error .cancelled, s)
  | .fault _, .ok => some (.ok (), s)
  | .fault deployment, .raised _ => some (.error (injectedFault deployment).exn, s)
  | .fault _, .cancelled _ => some (.error .cancelled, s)
  | .complete _ _, .whole answer => some (.ok answer, s)
  | .stream _ _, .script script => some (.ok script, s)
  | .wait _, .ok => some (.ok (), s)
  | .wait _, .cancelled _ => some (.error .cancelled, s)
  | .aclose, .ok => some (.ok (), s)
  | .aclose, .raised failure => some (.error failure.exn, s)
  | .aclose, .cancelled _ => some (.error .cancelled, s)
  | .msSince, .elapsed milliseconds => some (.ok milliseconds, s)
  | .hangUp, .ok => some (.ok (), s)
  | .gauge replica name up, .ok => some (.ok (), s.setGauge replica name up)
  | .spent _ _ _, .ok => some (.ok (), s)
  | _, _ => none

/-- Time passes, for Redis or for a replica, or something else writes to Redis. -/
inductive Env
  | time (milliseconds : Nat)
  | clock (replica : Nat) (seconds : ℚ)
  | store (store : Store Int)

def env (a : Env) (s : Site) : Option Site :=
  match a with
  | .time milliseconds => some { s with time := s.time + milliseconds }
  | .clock replica seconds =>
    if 0 ≤ seconds then some { s with clock := Function.update s.clock replica (s.clock replica + seconds) } else none
  | .store store => some { s with store }

/-! ## Methods -/

inductive Call
  | sync (replica : Nat) (names : List String)
  | recordFailure (replica : Nat) (name : String)
  | recordSuccess (replica : Nat) (name : String)
  | allowRequest (replica : Nat) (name : String)
  | state (replica : Nat) (name : String)

def Call.replica : Call → Nat
  | .sync replica _ | .recordFailure replica _ | .recordSuccess replica _ | .allowRequest replica _
  | .state replica _ => replica

/-- What a method returns, where it returns something. -/
inductive Result
  | done
  | opened (b : Bool)
  | allowed (b : Bool)
  | state (s : BreakerState)

def Call.body (cluster : ClusterBreakers) : Call → Program Result
  | .sync replica names => (fun _ => .done) <$> cluster.sync replica names
  | .recordFailure replica name => .opened <$> cluster.recordFailure replica name
  | .recordSuccess replica name => (fun _ => .done) <$> cluster.recordSuccess replica name
  | .allowRequest replica name => .allowed <$> breaker replica name .allowRequest
  | .state replica name => .state <$> breaker replica name .state

/-- Every method, on every replica, at any time; a call can be cancelled at every await. -/
def methods (cluster : ClusterBreakers) : System where
  Op := Op
  Reply := Op.Reply
  Exn := Exn
  Result := Result
  State := Site
  Call := Call
  Choice := Choice
  Env := Env
  body := Call.body cluster
  admits _ _ := true
  exec := exec
  env := env
  place := Call.replica
  sync := Op.sync
  mortal _ := false

/-! ## Requests -/

inductive Request
  | complete (request : ChatRequest) (config : Option RoutingConfig)
  /-- A stream of which the client takes at most this many items. -/
  | streamed (request : ChatRequest) (config : Option RoutingConfig) (chunks : Nat)
  | syncBreakers

/-- What a request returns. -/
inductive Answered
  | whole (result : RoutedResult)
  | stream (opened : OpenStream)
  | synced

def Request.body (self : LLMRouter) : Request → Program Answered
  | .complete request config => .whole <$> self.complete request config
  | .streamed request config chunks => .stream <$> self.streamed request config chunks
  | .syncBreakers => (fun _ => .synced) <$> self.syncBreakers

/-- The requests of one replica; a request can be cancelled at every await. -/
def requests (self : LLMRouter) : System where
  Op := Op
  Reply := Op.Reply
  Exn := Exn
  Result := Answered
  State := Site
  Call := Request
  Choice := Choice
  Env := Env
  body := Request.body self
  admits _ _ := true
  exec := exec
  env := env
  place _ := self.replica
  sync := Op.sync
  mortal _ := false

end NexusGate.Gateway.Router
