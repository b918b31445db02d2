import NexusGate.Async.Eval
import NexusGate.Gateway.Service

/-! # One request to the chat service

Surroundings that answer the operations of one request, whatever the answers are, and keep what it did. -/

namespace NexusGate.Gateway.Chat
open Async Rollout

/-- One thing that a request did, and what came of it. -/
structure Done where
  op : Op
  reply : Except Exn op.Reply

/-- What a request meets: the answer to each of its operations, numbered from 0. -/
abbrev Turn := Nat → (e : Op) → Except Exn e.Reply

/-- What was done is kept, newest first. -/
def Turn.answer (T : Turn) : Handler Op Op.Reply Exn (List Done) := fun e log =>
  (T log.length e, ⟨e, T log.length e⟩ :: log)

/-- A request for a whole answer, or for a stream of which the client takes `taken + 1` chunks at most. -/
inductive Mode
  | whole
  | streamed (taken : Nat)

namespace ChatService
variable (self : ChatService)

/-- A request from its beginning to its end. -/
def serve (principal : Principal) (request : ChatRequest) : Mode → Program Unit
  | .whole => do
    let _ ← self.complete principal request
    return
  | .streamed taken => self.stream principal request taken

/-- How the request ends, and what it did. -/
def served (principal : Principal) (request : ChatRequest) (mode : Mode) (T : Turn) : Except Exn Unit × List Done :=
  (self.serve principal request mode).run T.answer []

end ChatService
end NexusGate.Gateway.Chat
