import Mathlib.Data.Rat.Defs
import NexusGate.Text.Json

/-! # Requests and answers

The records of `app/gateway/schemas.py` that the chat service, the router and the cache pass on. A `float` is
the text that `repr` writes for it, from which it is read back as the same number. -/

namespace NexusGate.Gateway

inductive Role
  | system
  | user
  | assistant
  | tool
  deriving DecidableEq, Repr

def Role.value : Role → String
  | .system => "system"
  | .user => "user"
  | .assistant => "assistant"
  | .tool => "tool"

theorem Role.value_injective : Function.Injective Role.value := by
  intro a b h
  cases a <;> cases b <;> first | rfl | exact absurd h (by decide)

structure ChatMessage where
  role : Role
  content : String
  deriving DecidableEq, Repr

structure ChatRequest where
  model : String := "default"
  messages : List ChatMessage
  temperature : Option Text.Number := none
  maxTokens : Option Nat := none
  stream : Bool := false
  cache : Bool := true
  nonempty : messages ≠ []
  deriving DecidableEq

namespace ChatRequest

/-- `request.messages[-1]`. -/
def last (r : ChatRequest) : ChatMessage := r.messages.getLast r.nonempty

/-- All messages but the last. -/
def context (r : ChatRequest) : List ChatMessage := r.messages.dropLast

end ChatRequest

structure Usage where
  promptTokens : Nat := 0
  completionTokens : Nat := 0
  deriving DecidableEq, Repr

def Usage.totalTokens (u : Usage) : Nat := u.promptTokens + u.completionTokens

/-- What a provider adapter returns. -/
structure ProviderResponse where
  content : String
  usage : Usage
  model : String
  finishReason : String := "stop"
  deriving DecidableEq, Repr

/-- One piece of a streamed answer, as provider adapters yield them. -/
structure StreamDelta where
  content : String := ""
  finishReason : Option String := none
  usage : Option Usage := none
  model : Option String := none
  deriving DecidableEq, Repr

inductive Outcome
  | success
  | error
  | timeout
  | skippedCircuitOpen
  | clientError
  | streamInterrupted
  deriving DecidableEq, Repr

structure Attempt where
  deployment : String
  outcome : Outcome
  latencyMs : ℚ := 0
  error : Option String := none
  deriving DecidableEq

end NexusGate.Gateway
