import NexusGate.Gateway.BreakerCluster
import NexusGate.Text.Words

/-! # The router

`LLMRouter` of `app/gateway/router.py`: the walk along a route's chain, the two retry loops, and the generator
that relays a stream. `_relay` is a generator that runs when it is asked for its next item, so it is modelled by
where it stands (`Relay`) and by what asking it for an item and closing it do. -/

namespace NexusGate.Gateway
open Async Redis Router Text

/-- A provider adapter; `streams` is `hasattr(provider, "stream")`. -/
structure Adapter where
  streams : Bool
  deriving DecidableEq

/-- Where a `_relay` generator stands. -/
inductive Relay
  | notStarted (iterator : Script)
  | suspended (iterator : Script) (delivered : List String) (words : Nat)
  | finished

/-- What is still to be relayed. -/
def Relay.remaining : Relay → List StreamDelta
  | .notStarted iterator => iterator.deltas
  | .suspended iterator _ _ => iterator.deltas
  | .finished => []

structure OpenStream where
  deployment : Deployment
  model : String
  attempts : List Attempt
  first : StreamDelta
  rest : Relay
  ttftMs : ℚ
  promptEstimate : Nat := 0
  synthesized : Bool := false
  usage : Usage := {}
  finishReason : String := "stop"
  costUsd : ℚ := 0
  usageEstimated : Bool := false
  reportedUsage : Bool := false
  settled : Bool := false

structure RoutedResult where
  response : ProviderResponse
  deployment : Deployment
  attempts : List Attempt
  costUsd : ℚ

/-- `cluster` and the breakers belong to one replica. `tokenCost` is `_litellm_cost`, and `floatText` is how a
    float is written in a message. -/
structure LLMRouter where
  replica : Nat
  config : RoutingConfig
  providers : AList fun _ : String => Adapter
  registered : ∀ d ∈ config.routes.all, (providers.lookup d.provider).isSome = true
  defaultTimeout : ℚ
  faults : Bool := false
  cluster : Option ClusterBreakers := none
  tokenCost : String → Nat → Nat → ℚ
  floatText : ℚ → String

namespace LLMRouter
variable (self : LLMRouter)

/-- `compute_cost`. -/
def computeCost (dep : Deployment) (usage : Usage) : ℚ :=
  match dep.pricing with
  | some p => (usage.promptTokens * p.inputPerMtok + usage.completionTokens * p.outputPerMtok) / 1000000
  | none => self.tokenCost dep.model usage.promptTokens usage.completionTokens

/-- `dep.timeout_seconds or self._default_timeout`. -/
def timeoutOf (dep : Deployment) : ℚ :=
  match dep.timeoutSeconds with
  | some t => if t = 0 then self.defaultTimeout else t
  | none => self.defaultTimeout

/-- Make sure that the replica has breakers of these names (`_breaker`). -/
def createAll : List String → Program Unit
  | [] => return
  | name :: names => do
    let _ ← Prog.call (Op.create self.replica name)
    createAll names

/-- `_prepare`. -/
def prepare (chain : List Deployment) : Program Unit := do
  match self.cluster with
  | none => return
  | some cluster =>
    self.createAll (chain.map Deployment.name)
    cluster.sync self.replica (chain.map Deployment.name)

def syncBreakers : Program Unit := do
  match self.cluster with
  | none => return
  | some cluster =>
    let names ← Prog.call (Op.breakerNames self.replica)
    cluster.sync self.replica names

/-- `_failed`. -/
def failed (name : String) : Program Bool :=
  match self.cluster with
  | some cluster => cluster.recordFailure self.replica name
  | none => breaker self.replica name .recordFailure

/-- `_succeeded`. -/
def succeeded (name : String) : Program Unit :=
  match self.cluster with
  | some cluster => cluster.recordSuccess self.replica name
  | none => breaker self.replica name .recordSuccess

/-- A failure is recorded, and a circuit that is open now is shown on the gauge. -/
def noteFailure (name : String) : Program Unit := do
  if ← self.failed name then Prog.call (Op.gauge self.replica name true) else return

/-- A success is recorded and shown on the gauge. -/
def noteSuccess (name : String) : Program Unit := do
  self.succeeded name
  Prog.call (Op.gauge self.replica name false)

/-- The back-off before a retry, of `RETRY_BASE_DELAY_SECONDS * 2 ** (retry - 1)`. -/
def backOff (retry : Nat) : Program Unit :=
  if 0 < retry then .call (Op.sleep (1 / 5 * 2 ^ (retry - 1))) else .ret ()

/-- The fault check before every call to a provider. -/
def injectFault (dep : Deployment) : Program Unit :=
  if self.faults then .call (Op.fault dep.name) else .ret ()

/-- `await asyncio.wait_for(provider.complete(dep, request), timeout)`. -/
def callProvider (dep : Deployment) (request : ChatRequest) : Program ProviderResponse := do
  let answer ← Prog.call (Op.complete dep request)
  let _ ← Prog.call (Op.wait (self.timeoutOf dep))
  match answer with
  | .ok response => return response
  | .error failure => .throw failure.exn

def chainOf (request : ChatRequest) (config : Option RoutingConfig) : Option (List Deployment) :=
  (config.getD self.config).routes.lookup request.model

def noAdapter (dep : Deployment) : String := "no provider adapter '" ++ dep.provider ++ "' for " ++ dep.name

/-! ## Whole answers -/

/-- What the failure of a call is noted as. -/
def callFailure (timeout : ℚ) : Exn → Outcome × String
  | .timeout => (.timeout, "no response within " ++ self.floatText timeout ++ "s")
  | .providerError message _ => (.error, message)
  | e => (.error, e.describe)

/-- The retry loop of `_call_with_retries`, `left` calls before its end. -/
def callLoop (dep : Deployment) (request : ChatRequest) :
    Nat → Nat → List Attempt → Program (Option ProviderResponse × List Attempt)
  | 0, _, attempts => return (none, attempts)
  | left + 1, retry, attempts => do
    backOff retry
    match ← caught (do self.injectFault dep; self.callProvider dep request) with
    | .ok response =>
      let latencyMs ← Prog.call Op.msSince
      self.noteSuccess dep.name
      return (some response, attempts ++ [{ deployment := dep.name, outcome := .success, latencyMs }])
    | .error (.providerError message false) =>
      self.succeeded dep.name
      let latencyMs ← Prog.call Op.msSince
      .throw (.clientRequest message (attempts ++
        [{ deployment := dep.name, outcome := .clientError, latencyMs, error := some message }]))
    | .error e =>
      let (outcome, error) := self.callFailure (self.timeoutOf dep) e
      let latencyMs ← Prog.call Op.msSince
      let attempts := attempts ++ [{ deployment := dep.name, outcome, latencyMs, error := some error }]
      self.noteFailure dep.name
      if (← breaker self.replica dep.name .state) = .closed then callLoop dep request left (retry + 1) attempts
      else return (none, attempts)

/-- `_call_with_retries`. -/
def callWithRetries (dep : Deployment) (request : ChatRequest) (attempts : List Attempt) :
    Program (Option ProviderResponse × List Attempt) :=
  match self.providers.lookup dep.provider with
  | none => .throw (.unknownModel (noAdapter dep))
  | some _ => self.callLoop dep request (dep.maxRetries + 1) 0 attempts

/-- The loop of `complete` over the chain. -/
def completeFrom (request : ChatRequest) : List Deployment → List Attempt → Program RoutedResult
  | [], attempts => .throw (.allProvidersFailed request.model attempts)
  | dep :: chain, attempts => do
    let _ ← Prog.call (Op.create self.replica dep.name)
    if ← breaker self.replica dep.name .allowRequest then
      match ← self.callWithRetries dep request attempts with
      | (none, attempts) => completeFrom request chain attempts
      | (some response, attempts) =>
        return { response, deployment := dep, attempts, costUsd := self.computeCost dep response.usage }
    else completeFrom request chain (attempts ++ [{ deployment := dep.name, outcome := .skippedCircuitOpen }])

def complete (request : ChatRequest) (config : Option RoutingConfig) : Program RoutedResult := do
  match self.chainOf request config with
  | none => .throw (.unknownModel request.model)
  | some chain =>
    self.prepare chain
    self.completeFrom request chain []

/-! ## Streams -/

/-- `_chunk_completion`: the first delta, and the iterator over the others. -/
def chunkCompletion (response : ProviderResponse) : StreamDelta × Script :=
  let delta (piece : String) : StreamDelta := { content := piece, model := some response.model }
  let last : StreamDelta :=
    { finishReason := some response.finishReason, usage := some response.usage, model := some response.model }
  match (response.content.toList.toChunks 24).map String.ofList with
  | [] => (delta "", { deltas := [last] })
  | piece :: pieces => (delta piece, { deltas := pieces.map delta ++ [last] })

/-- `await asyncio.wait_for(anext(iterator), timeout)`: the delta, and what is left of the iterator. -/
def nextDelta (dep : Deployment) (iterator : Script) : Program (StreamDelta × Script) := do
  let _ ← Prog.call (Op.wait (self.timeoutOf dep))
  match iterator.deltas with
  | delta :: deltas => return (delta, { iterator with deltas })
  | [] =>
    match iterator.failure with
    | none => .throw .stopAsyncIteration
    | some failure => .throw failure.exn

/-- `_aclose` of an iterator that was opened: a failure to close is not worth another failure. -/
def closeIterator (opened : Bool) : Program Unit := do
  if opened then let _ ← caught (Prog.call Op.aclose)
  return

/-- The `try` block of `_open_with_retries`: the first delta, the iterator, and whether it was synthesized. An
    iterator that was opened comes with the exception. -/
def firstDelta (dep : Deployment) (request : ChatRequest) (adapter : Adapter) :
    Program (Except (Exn × Bool) (StreamDelta × Script × Bool)) := do
  match ← caught (self.injectFault dep) with
  | .error e => return .error (e, false)
  | .ok _ =>
    if adapter.streams then
      let iterator ← Prog.call (Op.stream dep request)
      match ← caught (self.nextDelta dep iterator) with
      | .error e => return .error (e, true)
      | .ok (first, iterator) => return .ok (first, iterator, false)
    else
      match ← caught (self.callProvider dep request) with
      | .error e => return .error (e, false)
      | .ok response => return .ok ((chunkCompletion response).1, (chunkCompletion response).2, true)

/-- What a failure to open a stream is noted as. -/
def openFailure (timeout : ℚ) : Exn → Outcome × String
  | .timeout => (.timeout, "no first token within " ++ self.floatText timeout ++ "s")
  | .stopAsyncIteration => (.error, "stream ended before any token")
  | .providerError message _ => (.error, message)
  | e => (.error, e.describe)

/-- `first.model or dep.model`. -/
def modelOf (delta : StreamDelta) (model : String) : String :=
  match delta.model with
  | some m => if m = "" then model else m
  | none => model

/-- The retry loop of `_open_with_retries`, `left` calls before its end. -/
def openLoop (dep : Deployment) (request : ChatRequest) (adapter : Adapter) :
    Nat → Nat → List Attempt → Program (Option OpenStream × List Attempt)
  | 0, _, attempts => return (none, attempts)
  | left + 1, retry, attempts => do
    backOff retry
    match ← self.firstDelta dep request adapter with
    | .ok (first, iterator, synthesized) =>
      let ttftMs ← Prog.call Op.msSince
      let attempts := attempts ++ [{ deployment := dep.name, outcome := .success, latencyMs := ttftMs }]
      return (some {
        deployment := dep, model := modelOf first dep.model, attempts, first, rest := .notStarted iterator, ttftMs,
        promptEstimate := (request.messages.map fun m => (words m.content).length).sum, synthesized }, attempts)
    | .error (.providerError message false, opened) =>
      closeIterator opened
      self.succeeded dep.name
      let latencyMs ← Prog.call Op.msSince
      .throw (.clientRequest message (attempts ++
        [{ deployment := dep.name, outcome := .clientError, latencyMs, error := some message }]))
    | .error (e, opened) =>
      let (outcome, error) := self.openFailure (self.timeoutOf dep) e
      closeIterator opened
      let latencyMs ← Prog.call Op.msSince
      let attempts := attempts ++ [{ deployment := dep.name, outcome, latencyMs, error := some error }]
      self.noteFailure dep.name
      if (← breaker self.replica dep.name .state) = .closed then
        openLoop dep request adapter left (retry + 1) attempts
      else return (none, attempts)

/-- `_open_with_retries`. -/
def openWithRetries (dep : Deployment) (request : ChatRequest) (attempts : List Attempt) :
    Program (Option OpenStream × List Attempt) :=
  match self.providers.lookup dep.provider with
  | none => .throw (.unknownModel (noAdapter dep))
  | some adapter => self.openLoop dep request adapter (dep.maxRetries + 1) 0 attempts

/-- The loop of `open_stream` over the chain. -/
def openFrom (request : ChatRequest) : List Deployment → List Attempt → Program OpenStream
  | [], attempts => .throw (.allProvidersFailed request.model attempts)
  | dep :: chain, attempts => do
    let _ ← Prog.call (Op.create self.replica dep.name)
    if ← breaker self.replica dep.name .allowRequest then
      match ← self.openWithRetries dep request attempts with
      | (none, attempts) => openFrom request chain attempts
      | (some opened, _) => return opened
    else openFrom request chain (attempts ++ [{ deployment := dep.name, outcome := .skippedCircuitOpen }])

def openStream (request : ChatRequest) (config : Option RoutingConfig) : Program OpenStream := do
  match self.chainOf request config with
  | none => .throw (.unknownModel request.model)
  | some chain =>
    self.prepare chain
    self.openFrom request chain []

/-! ## Relaying -/

/-- `_absorb`. -/
def absorb (opened : OpenStream) (delta : StreamDelta) : OpenStream :=
  { opened with
    usage := delta.usage.getD opened.usage
    reportedUsage := opened.reportedUsage || delta.usage.isSome
    finishReason := delta.finishReason.getD opened.finishReason
    model := modelOf delta opened.model }

/-- `_estimate`. -/
def estimate (opened : OpenStream) (words : Nat) : OpenStream :=
  if opened.reportedUsage then opened
  else
    let usage : Usage := { promptTokens := opened.promptEstimate, completionTokens := words }
    { opened with usage, usageEstimated := true, costUsd := self.computeCost opened.deployment usage }

/-- What `_settle` makes of a stream. -/
def settle (opened : OpenStream) (text : String) : OpenStream :=
  if opened.settled then opened
  else if opened.reportedUsage then
    { opened with
      settled := true, usageEstimated := false, costUsd := self.computeCost opened.deployment opened.usage }
  else
    let usage : Usage := { promptTokens := opened.promptEstimate, completionTokens := (words text).length }
    { opened with
      settled := true, usage, usageEstimated := true, costUsd := self.computeCost opened.deployment usage }

/-- `_settle`, with what it counts. -/
def settleUp (opened : OpenStream) (text : String) : Program OpenStream :=
  if opened.settled then return opened
  else do
    let opened := self.settle opened text
    let _ ← Prog.call (Op.spent opened.deployment.name opened.usage opened.costUsd)
    return opened

/-- What `_record_interruption` notes before it records the failure. -/
def interrupted (opened : OpenStream) (error : String) : OpenStream :=
  { opened with attempts := opened.attempts ++
      [{ deployment := opened.deployment.name, outcome := .streamInterrupted, error := some error }] }

/-- The `finally` block of `_relay`, on the way out with `r`. -/
def leave {α : Type} (opened : OpenStream) (text : String) (r : Except Exn α) :
    Program (Except Exn α × OpenStream) := do
  let opened := { ← self.settleUp opened text with rest := .finished }
  match ← (closeIterator true).attempt with
  | .ok _ => return (r, opened)
  | .error e => return (.error e, opened)

/-- `error` of `_relay`. -/
def breakText (timeout : ℚ) : Exn → String
  | .timeout => "stalled for more than " ++ self.floatText timeout ++ "s"
  | e => e.describe

/-- The end of `_relay`: its iterator is exhausted, or has failed. -/
def relayEnd (failure : Option Failure) (delivered : List String) (opened : OpenStream) :
    Program (Except Exn (Option StreamDelta) × OpenStream) := do
  let name := opened.deployment.name
  let text := String.join delivered
  match failure with
  | none =>
    match ← (self.noteSuccess name).attempt with
    | .ok _ => self.leave opened text (.ok none)
    | .error e => self.leave opened text (.error e)
  | some failure =>
    let error := self.breakText (self.timeoutOf opened.deployment) failure.exn
    let opened := interrupted (← self.settleUp opened text) error
    match ← (self.noteFailure name).attempt with
    | .ok _ => self.leave opened text (.error (.streamInterrupted error name text))
    | .error e => self.leave opened text (.error e)

/-- From the head of the loop of `_relay` to its next `yield`, or to its end. -/
def relayLoop (failure : Option Failure) : List StreamDelta → List String → Nat → OpenStream →
    Program (Except Exn (Option StreamDelta) × OpenStream)
  | [], delivered, _, opened => do
    match ← (Prog.call (Op.wait (self.timeoutOf opened.deployment))).attempt with
    | .error e => self.leave opened (String.join delivered) (.error e)
    | .ok _ => self.relayEnd failure delivered opened
  | delta :: deltas, delivered, words, opened => do
    match ← (Prog.call (Op.wait (self.timeoutOf opened.deployment))).attempt with
    | .error e => self.leave opened (String.join delivered) (.error e)
    | .ok _ =>
      let opened := absorb opened delta
      if delta.content = "" then relayLoop failure deltas delivered words opened
      else
        let delivered := delivered ++ [delta.content]
        let words := words + spaces delta.content
        let opened := self.estimate opened words
        return (.ok (some delta), { opened with rest := .suspended ⟨deltas, failure⟩ delivered words })

/-- `anext(opened.rest)`: the next item, or `none` where the generator is at its end. -/
def relayNext (opened : OpenStream) : Program (Except Exn (Option StreamDelta) × OpenStream) :=
  match opened.rest with
  | .notStarted iterator =>
    let first := opened.first.content
    let count := spaces first + if first = "" then 0 else 1
    self.relayLoop iterator.failure iterator.deltas [first] count (self.estimate (absorb opened opened.first) count)
  | .suspended iterator delivered words => self.relayLoop iterator.failure iterator.deltas delivered words opened
  | .finished => return (.ok none, opened)

/-- `opened.rest.aclose()`: a generator that has not started runs none of its code. -/
def relayClose (opened : OpenStream) : Program (Except Exn Unit × OpenStream) :=
  match opened.rest with
  | .notStarted _ => return (.ok (), { opened with rest := .finished })
  | .suspended _ delivered _ => self.leave opened (String.join delivered) (.ok ())
  | .finished => return (.ok (), opened)

/-- A client that takes at most `chunks` items of a stream and then hangs up. -/
def consume : Nat → OpenStream → Program OpenStream
  | 0, opened => do
    let _ ← Prog.call Op.hangUp
    let (r, opened) ← self.relayClose opened
    let _ ← Prog.ofExcept r
    return opened
  | chunks + 1, opened => do
    match ← self.relayNext opened with
    | (.ok (some _), opened) => consume chunks opened
    | (.ok none, opened) => return opened
    | (.error e, _) => .throw e

/-- A client that takes a stream to its end. -/
def drain (opened : OpenStream) : Program OpenStream := self.consume (opened.rest.remaining.length + 1) opened

/-- A streamed request from its opening to its end. -/
def streamed (request : ChatRequest) (config : Option RoutingConfig) (chunks : Nat) : Program OpenStream := do
  let opened ← self.openStream request config
  self.consume chunks opened

end LLMRouter
end NexusGate.Gateway
