import NexusGate.Gateway.Service
import NexusGate.Rag.Retrieval

/-! # The state of an agent run

`app/agents/state.py`, the services that the nodes call, and the computations that nodes are: they change the state also
where they raise. What the services answer is up to them and the world `W` around the run. -/

namespace NexusGate.Agents
open Gateway Gateway.Chat Rag

structure ResearchState where
  question : String
  principal : Principal
  model : String
  topK : Nat
  maxSearches : Nat
  maxRevisions : Nat
  cache : Bool
  searches : List String := []
  passages : List RetrievedChunk := []
  draft : String := ""
  critique : Option String := none
  issues : List String := []
  revisions : Nat := 0
  llmCalls : Nat := 0
  promptTokens : Nat := 0
  completionTokens : Nat := 0
  costUsd : ℚ := 0

/-- What a node or a service can raise. -/
inductive Failure
  | unknownModel
  | clientRequest
  | allProvidersFailed
  | overloaded
  | cancelled
  | valueError
  | other (kind : String)
  deriving DecidableEq

/-- `isinstance(e, FATAL)`. -/
def Failure.fatal : Failure → Bool
  | .unknownModel | .clientRequest | .allProvidersFailed | .overloaded => true
  | .cancelled | .valueError | .other _ => false

/-- `isinstance(e, Exception)`. -/
def Failure.isException : Failure → Bool
  | .cancelled => false
  | _ => true

/-- What passes a handler of `Exception` that raises `FATAL` again. -/
def Failure.doomed (e : Failure) : Prop := e.fatal = true ∨ e.isException = false

structure Services (W : Type) where
  complete : Principal → ChatRequest → W → Except Failure ChatResponse × W
  search : (tenantId query : String) → (topK : Nat) → (rerank : Bool) → W → Except Failure (List RetrievedChunk) × W

/-- The steps that ask a model. -/
inductive Asking
  | plan
  | draft
  | critique
  | revise
  deriving DecidableEq

/-- A run and the world around it; `replies` are the completions of the run so far, each with the step that it was for. -/
structure Session (W : Type) where
  research : ResearchState
  world : W
  replies : List (Asking × ChatResponse) := []

/-- A computation on a session, which may raise. -/
def Act (W α : Type) : Type := Session W → Except Failure α × Session W

namespace Act
variable {W α β : Type}

instance : Monad (Act W) where
  pure a s := (.ok a, s)
  bind x f s :=
    match x s with
    | (.ok a, s) => f a s
    | (.error e, s) => (.error e, s)

def state : Act W ResearchState := fun s => (.ok s.research, s)

def modify (f : ResearchState → ResearchState) : Act W Unit := fun s => (.ok (), { s with research := f s.research })

/-- `try: x  except FATAL: raise  except Exception: ..`. -/
def orElse (x y : Act W α) : Act W α := fun s =>
  match x s with
  | (.ok a, s) => (.ok a, s)
  | (.error e, s) => if e.fatal || !e.isException then (.error e, s) else y s

variable {x : Act W α} {f : α → Act W β} {s t : Session W}

theorem bind_ok {a : α} (h : x s = (.ok a, t)) : (x >>= f) s = f a t := by
  show (match x s with
    | (.ok a, t) => f a t
    | (.error e, t) => (.error e, t)) = _
  rw [h]

theorem bind_error {e : Failure} (h : x s = (.error e, t)) : (x >>= f) s = (.error e, t) := by
  show (match x s with
    | (.ok a, t) => f a t
    | (.error e, t) => (.error e, t)) = _
  rw [h]

theorem orElse_ok {x y : Act W α} {a : α} (h : x s = (.ok a, t)) : x.orElse y s = (.ok a, t) := by
  rw [orElse, h]

theorem orElse_error {x : Act W α} {a : α} {e : Failure} (h : x s = (.error e, t)) :
    (e.doomed ∧ x.orElse (Pure.pure a) s = (.error e, t)) ∨ x.orElse (Pure.pure a) s = (.ok a, t) := by
  rw [orElse, h]
  dsimp only
  split
  · rename_i hdoomed
    exact .inl ⟨by simpa [Failure.doomed] using hdoomed, rfl⟩
  · exact .inr rfl

@[simp] theorem pure_apply {a : α} : (pure a : Act W α) s = (.ok a, s) := rfl

@[simp] theorem state_bind {f : ResearchState → Act W β} : (state >>= f) s = f s.research s := rfl

@[simp] theorem modify_bind {g : ResearchState → ResearchState} {f : Unit → Act W β} :
    (modify g >>= f) s = f () { s with research := g s.research } := rfl

end Act
end NexusGate.Agents
