import NexusGate.Async.Pool
import NexusGate.Gateway.CircuitBreaker
import NexusGate.Gateway.RoutingConfig
import NexusGate.Gateway.Schemas
import NexusGate.Redis.Store

/-! # Where the router hands control to its surroundings

The operations of `app/gateway/router.py` and `app/gateway/breaker_cluster.py`. Those on the breakers of a
replica and on its clocks do not suspend. Starting a call to a provider fixes what it will answer, a stream
with all its deltas; the answer is seen once the call is waited for. -/

namespace NexusGate.Gateway.Router
open Async Redis

instance : Payload Int where
  ofInt := id
  int? := some
  ofRat _ := 0
  rat? _ := none

/-- `INCR` counts on from what is there, an absent key being 0. -/
theorem exec_incr_counts {now : Nat} {n : Int} {s : Store Int} {k : String}
    (h : value? now s k = some (.str n) ∨ (value? now s k = none ∧ n = 0)) :
    ∃ expiresAt, Redis.exec now (.incr k) s = (.int (n + 1), s.insert k ⟨.str (n + 1), expiresAt⟩) ∧
      Entry.live now (⟨.str (n + 1), expiresAt⟩ : Entry Int) = true := by
  rcases h with h | ⟨h, rfl⟩
  · obtain ⟨e, he, -⟩ := Option.map_eq_some_iff.mp h
    refine ⟨e.expiresAt, ?_, (live?_eq_some.mp he).2⟩
    simp [Redis.exec, Redis.modify, h, he, Payload.int?, Payload.ofInt, Value.trim]
  · exact ⟨none, exec_incr_new h, rfl⟩

/-- How a call to a provider fails: too slow, a `ProviderError`, or any other exception. -/
inductive Failure
  | timeout
  | provider (message : String) (retryable : Bool)
  | other (kind message : String)
  deriving DecidableEq

/-- What an iterator of a provider still yields, and what it raises then, if anything. -/
structure Script where
  deltas : List StreamDelta
  failure : Option Failure := none

inductive Exn
  | unknownModel (message : String)
  | allProvidersFailed (route : String) (attempts : List Attempt)
  | clientRequest (message : String) (attempts : List Attempt)
  | streamInterrupted (message deployment delivered : String)
  | providerError (message : String) (retryable : Bool)
  | timeout
  | stopAsyncIteration
  | redisError
  | other (kind message : String)
  | cancelled
  deriving DecidableEq

/-- `isinstance(e, Exception)`: all but a cancellation. -/
def Exn.isException : Exn → Bool
  | .cancelled => false
  | _ => true

/-- `f"{type(e).__name__}: {e}"`. -/
def Exn.describe : Exn → String
  | .unknownModel message => "UnknownModelError: " ++ message
  | .allProvidersFailed route _ => "AllProvidersFailedError: all deployments for route '" ++ route ++ "' failed"
  | .clientRequest message _ => "ClientRequestError: " ++ message
  | .streamInterrupted message _ _ => "StreamInterruptedError: " ++ message
  | .providerError message _ => "ProviderError: " ++ message
  | .timeout => "TimeoutError: "
  | .stopAsyncIteration => "StopAsyncIteration: "
  | .redisError => "RedisError: "
  | .other kind message => kind ++ ": " ++ message
  | .cancelled => "CancelledError: "

def Failure.exn : Failure → Exn
  | .timeout => .timeout
  | .provider message retryable => .providerError message retryable
  | .other kind message => .other kind message

inductive Op
  | redis (c : Cmd Int)
  /-- The clock of a replica's `ClusterBreakers`, and when it last read the shared state. -/
  | monotonic (replica : Nat)
  | syncedAt (replica : Nat)
  | stamp (replica : Nat) (now : ℚ)
  /-- The dictionary `breakers` of a replica. -/
  | known (replica : Nat) (name : String)
  | create (replica : Nat) (name : String)
  | breakerNames (replica : Nat)
  | breaker (replica : Nat) (name : String) (m : CircuitBreaker.Method)
  | sleep (seconds : ℚ)
  | fault (deployment : String)
  /-- Start a call to a provider. -/
  | complete (dep : Deployment) (request : ChatRequest)
  | stream (dep : Deployment) (request : ChatRequest)
  /-- Wait for a provider, this long at most. -/
  | wait (timeout : ℚ)
  | aclose
  /-- `_ms_since(start)` of the attempt under way. -/
  | msSince
  /-- The client asks for nothing more of its stream. -/
  | hangUp
  /-- Set the gauge `BREAKER_OPEN` of a deployment. -/
  | gauge (replica : Nat) (name : String) (up : Bool)
  /-- Count a stream in `LLM_TOKENS` and `LLM_COST`. -/
  | spent (deployment : String) (usage : Usage) (costUsd : ℚ)

abbrev Op.Reply : Op → Type
  | .redis _ => Redis.Reply Int
  | .monotonic _ => ℚ
  | .syncedAt _ => Option ℚ
  | .stamp _ _ => Unit
  | .known _ _ => Bool
  | .create _ _ => Unit
  | .breakerNames _ => List String
  | .breaker _ _ m => m.Reply
  | .sleep _ => Unit
  | .fault _ => Unit
  | .complete _ _ => Except Failure ProviderResponse
  | .stream _ _ => Script
  | .wait _ => Unit
  | .aclose => Unit
  | .msSince => ℚ
  | .hangUp => Unit
  | .gauge _ _ _ => Unit
  | .spent _ _ _ => Unit

/-- Operations that are carried out without suspending. -/
def Op.sync : Op → Bool
  | .redis _ | .sleep _ | .fault _ | .wait _ | .aclose | .hangUp => false
  | _ => true

abbrev Program := Prog Op Op.Reply Exn

def redis (c : Cmd Int) : Program (Redis.Reply Int) := .call (Op.redis c)

def breaker (replica : Nat) (name : String) (m : CircuitBreaker.Method) : Program m.Reply :=
  .call (Op.breaker replica name m)

/-- `try: p  except Exception`: what `p` returned or raised; a cancellation passes through. -/
def caught {α : Type} (p : Program α) : Program (Except Exn α) := do
  match ← p.attempt with
  | .ok a => return .ok a
  | .error x => if x.isException then return .error x else .throw x

/-- `pipeline(transaction=False)`: every command is sent, and the first failure is raised at the end. -/
def pipeline : List (Cmd Int) → Program (List (Redis.Reply Int))
  | [] => return []
  | c :: cs => do
    let first ← (redis c).attempt
    let others ← (pipeline cs).attempt
    let reply ← Prog.ofExcept first
    let replies ← Prog.ofExcept others
    return reply :: replies

end NexusGate.Gateway.Router
