import NexusGate.Gateway.Router

/-! # What clients do with a router

Requests in any order, whole or streamed, with any number of streams open: a client takes the next item of its
stream, closes it, or never comes back to it. -/

namespace NexusGate.Gateway.Router
open Async

inductive Action
  | complete (request : ChatRequest) (config : Option RoutingConfig)
  | openStream (request : ChatRequest) (config : Option RoutingConfig)
  | next (stream : Nat)
  | close (stream : Nat)

inductive Action.Result
  | completed (r : Except Exn RoutedResult)
  | opened (r : Except Exn OpenStream)
  | item (r : Except Exn (Option StreamDelta))
  | closed (r : Except Exn Unit)
  | noStream

end NexusGate.Gateway.Router

namespace NexusGate.Gateway.LLMRouter
open Async Router
variable (self : LLMRouter)

/-- One action, and the streams as it leaves them. -/
def act (streams : List OpenStream) : Action → Program (Action.Result × List OpenStream)
  | .complete request config => do
    let r ← (self.complete request config).attempt
    return (.completed r, streams)
  | .openStream request config => do
    match ← (self.openStream request config).attempt with
    | .ok opened => return (.opened (.ok opened), streams ++ [opened])
    | .error e => return (.opened (.error e), streams)
  | .next i =>
    match streams[i]? with
    | none => return (.noStream, streams)
    | some opened => do
      let (r, opened) ← self.relayNext opened
      return (.item r, streams.set i opened)
  | .close i =>
    match streams[i]? with
    | none => return (.noStream, streams)
    | some opened => do
      let (r, opened) ← self.relayClose opened
      return (.closed r, streams.set i opened)

/-- One action after the other. -/
def session : List Action → List OpenStream → Program (List Action.Result × List OpenStream)
  | [], streams => return ([], streams)
  | action :: actions, streams => do
    let (result, streams) ← self.act streams action
    let (results, streams) ← session actions streams
    return (result :: results, streams)

end NexusGate.Gateway.LLMRouter
