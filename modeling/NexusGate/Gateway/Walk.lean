import NexusGate.Gateway.Scene

/-! # The walk along a chain

What the router is for, without its loops and exceptions: deployments are visited in order, each is called until
it answers, rejects the request, has its circuit opened or has used up its calls. What a call comes to is a
parameter, so that the same walk says what whole answers and streams do. -/

namespace NexusGate.Gateway.Router

/-- What recording an outcome of a deployment does. -/
structure Recording where
  failed : String → Scene → Scene
  succeeded : String → Scene → Scene

/-- Without shared breakers, only the breaker of the deployment hears of it. -/
def Recording.onBreaker (replica : Nat) : Recording where
  failed name s := (s.ask replica name .recordFailure).2
  succeeded name s := (s.ask replica name .recordSuccess).2

/-- How the calls to one deployment end. -/
inductive Visit (α : Type)
  | answered (a : α)
  | rejected (message : String)
  | gaveUp

/-- How a walk ends. -/
inductive Ending (α : Type)
  | served (dep : Deployment) (a : α)
  | rejected (message : String)
  | allFailed
  | noAdapter (dep : Deployment)

/-- The outcome that a failed call is noted with. -/
def Failure.outcome : Failure → Outcome
  | .timeout => .timeout
  | .provider _ true => .error
  | .provider _ false => .clientError
  | .other _ _ => .error

/-- The failures that the router tells apart. -/
inductive FailureKind
  | retryable
  | rejects
  | timesOut
  | other
  deriving DecidableEq

def Failure.kind : Failure → FailureKind
  | .timeout => .timesOut
  | .provider _ true => .retryable
  | .provider _ false => .rejects
  | .other _ _ => .other

section
variable {α : Type} (replica : Nat) (rec : Recording) (faults : Bool) (outcome : Deployment → Answer → Except Failure α)

/-- One call, or the fault injected in its place. -/
def attempt (dep : Deployment) (s : Scene) : Except Failure α × Scene :=
  if faults && s.answers.head.injected then (.error (injectedFault dep.name), s.spend)
  else (outcome dep s.answers.head, s.spendOn dep)

/-- At most `left` calls to a deployment, the outcome of each, and how they end. -/
def visit (dep : Deployment) : Nat → Scene → List Outcome × Visit α × Scene
  | 0, s => ([], .gaveUp, s)
  | left + 1, s =>
    match attempt faults outcome dep s with
    | (.ok a, s) => ([.success], .answered a, s)
    | (.error (.provider message false), s) => ([.clientError], .rejected message, rec.succeeded dep.name s)
    | (.error failure, s) =>
      match (rec.failed dep.name s).ask replica dep.name .state with
      | (.closed, s) =>
        let (outcomes, ending, s) := visit dep left s
        (failure.outcome :: outcomes, ending, s)
      | (_, s) => ([failure.outcome], .gaveUp, s)

/-- The walk: the deployments it notes with their outcomes, how it ends, and what it leaves. That an answer is a
    success for its deployment is still to be recorded (`settle`). -/
def walk (adapters : String → Bool) : List Deployment → Scene → List (String × Outcome) × Ending α × Scene
  | [], s => ([], .allFailed, s)
  | dep :: chain, s =>
    match (s.create replica dep.name).ask replica dep.name .allowRequest with
    | (false, s) =>
      let (notes, ending, s) := walk adapters chain s
      ((dep.name, .skippedCircuitOpen) :: notes, ending, s)
    | (true, s) =>
      if adapters dep.provider then
        match visit replica rec faults outcome dep (dep.maxRetries + 1) s with
        | (outcomes, .answered a, s) => (outcomes.map (Prod.mk dep.name), .served dep a, s)
        | (outcomes, .rejected message, s) => (outcomes.map (Prod.mk dep.name), .rejected message, s)
        | (outcomes, .gaveUp, s) =>
          let (notes, ending, s) := walk adapters chain s
          (outcomes.map (Prod.mk dep.name) ++ notes, ending, s)
      else ([], .noAdapter dep, s)

/-- The deployment that served is healthy. -/
def Ending.settle : Ending α → Scene → Scene
  | .served dep _, s => rec.succeeded dep.name s
  | _, s => s

end

/-- The deployment and the outcome of an attempt. -/
def note (a : Attempt) : String × Outcome := (a.deployment, a.outcome)

end NexusGate.Gateway.Router
