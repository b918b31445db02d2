import NexusGate.Cache.SemanticCache
import NexusGate.Gateway.Rollout
import NexusGate.Gateway.Router

/-! # The chat service

`ChatService` of `app/gateway/service.py`: one request, whole or streamed, from the choice of its route table to
the recording of its outcome. What it calls (rollout, cache, router, meter) are its operations. A stream is
modelled with the client that takes it: `taken` is the number of chunks after which the client asks for one more. -/

namespace NexusGate.Gateway.Chat
open Async Cache Rollout

structure Principal where
  tenantId : String
  keyId : String

/-- What `UsageMeter.record` is called with. -/
structure Metered where
  promptTokens : Nat := 0
  completionTokens : Nat := 0
  costUsd : ℚ := 0
  cached : Bool := false
  costSavedUsd : ℚ := 0
  selfHosted : Bool := false
  deriving DecidableEq

/-- `GatewayMeta`, and what `StreamMeta` adds. -/
structure Meta where
  deployment : Option String
  cached : Bool
  routeVariant : Option String := none
  cacheSimilarity : Option ℚ := none
  costUsd : ℚ
  latencyMs : ℚ
  attempts : List Attempt := []
  ttftMs : Option ℚ := none
  synthesized : Bool := false
  usageEstimated : Bool := false
  interrupted : Option String := none
  deriving DecidableEq

structure ChatResponse where
  model : String
  content : String
  finishReason : String
  usage : Usage
  nexusgate : Meta
  deriving DecidableEq

/-- One chunk; `role` says whether it names the assistant. -/
structure ChatChunk where
  id : String
  model : String
  role : Bool := false
  content : Option String := none
  finishReason : Option String := none
  usage : Option Usage := none
  nexusgate : Option Meta := none
  deriving DecidableEq

/-- What a request can raise: `raised` is what the router, the cache and the meter raise, cancellations among it. -/
inductive Exn
  | raised (e : Router.Exn)
  | rollout (e : Rollout.Exn)
  | generatorExit
  deriving DecidableEq

/-- `isinstance(e, Exception)`. -/
def Exn.isException : Exn → Bool
  | .raised e => e.isException
  | .rollout _ => true
  | .generatorExit => false

/-- `isinstance(e, (GeneratorExit, asyncio.CancelledError))`. -/
def Exn.gone (e : Exn) : Bool := !e.isException

/-! ## Operations -/

inductive Op
  | select
  | record (variant : Variant) (ok : Bool)
  | lookup (tenantId : String) (request : ChatRequest)
  | store (tenantId : String) (request : ChatRequest) (completion : CachedCompletion)
  | complete (request : ChatRequest) (config : RoutingConfig)
  | openStream (request : ChatRequest) (config : RoutingConfig)
  /-- `anext(opened.rest)`, which changes `opened` also where it raises. -/
  | next (opened : OpenStream)
  | meter (keyId : String) (usage : Metered)
  /-- `asyncio.create_task(self._meter.record(..))`. -/
  | meterLater (keyId : String) (usage : Metered)
  | perfCounter
  | uuid
  | yield (chunk : ChatChunk)
  /-- The client asks for no further chunk. -/
  | hangUp

abbrev Op.Reply : Op → Type
  | .select => RoutingConfig × Variant
  | .lookup _ _ => Option CacheHit
  | .complete _ _ => RoutedResult
  | .openStream _ _ => OpenStream
  | .next _ => Except Router.Exn (Option StreamDelta) × OpenStream
  | .perfCounter => ℚ
  | .uuid => String
  | .record _ _ | .store _ _ _ | .meter _ _ | .meterLater _ _ | .yield _ | .hangUp => Unit

abbrev Program := Prog Op Op.Reply Exn

/-- `try: p  except Exception`: what `p` returned or raised; a cancellation passes through. -/
def caught {α : Type} (p : Program α) : Program (Except Exn α) := do
  match ← p.attempt with
  | .ok a => return .ok a
  | .error x => if x.isException then return .error x else .throw x

/-- `round(x, 2)`. -/
def round2 (x : ℚ) : ℚ :=
  let n := ⌊x * 100⌋
  let d := x * 100 - n
  (if 1 / 2 < d ∨ (d = 1 / 2 ∧ n % 2 = 1) then n + 1 else n) / 100

/-- `_ms_since`. -/
def msSince (start : ℚ) : Program ℚ := do
  let now ← Prog.call Op.perfCounter
  return round2 ((now - start) * 1000)

/-- `_split`. -/
def split (text : String) : List String :=
  match (text.toList.toChunks 24).map String.ofList with
  | [] => [""]
  | pieces => pieces

/-- Hand a chunk to a client that takes `taken` more. -/
def give (chunk : ChatChunk) : Nat → Program Nat
  | 0 => do
    let _ ← Prog.call (Op.yield chunk)
    let _ ← Prog.call Op.hangUp
    .throw .generatorExit
  | taken + 1 => do
    let _ ← Prog.call (Op.yield chunk)
    return taken

/-- `cache` and `rollout` say whether the service has them; `config` is the router's own table. -/
structure ChatService where
  config : RoutingConfig
  cache : Bool
  rollout : Bool

namespace ChatService
variable (self : ChatService)

/-- The table that serves the request, and which one it is. -/
def select : Program (RoutingConfig × Option Variant) := do
  if self.rollout then
    let (config, variant) ← Prog.call Op.select
    return (config, some variant)
  else return (self.config, none)

/-- `_record_variant`. -/
def recordVariant (variant : Option Variant) (ok : Bool) : Program Unit :=
  match variant with
  | none => return
  | some variant => if self.rollout then .call (Op.record variant ok) else return

/-- `_lookup`: if the cache is unavailable, serve uncached. -/
def lookup (principal : Principal) (request : ChatRequest) : Program (Option CacheHit) := do
  match ← caught (Prog.call (Op.lookup principal.tenantId request)) with
  | .ok hit => return hit
  | .error _ => return none

/-- `_store`. -/
def store (principal : Principal) (request : ChatRequest) (completion : CachedCompletion) : Program Unit := do
  let _ ← caught (Prog.call (Op.store principal.tenantId request completion))
  return

/-- The answer is stored, where the request uses the cache. -/
def fill (use : Bool) (principal : Principal) (request : ChatRequest) (completion : CachedCompletion) : Program Unit :=
  if use then store principal request completion else return

/-- What a hit is metered as. -/
def meterHit (principal : Principal) (cached : CachedCompletion) : Program Unit :=
  .call (Op.meter principal.keyId { cached := true, costSavedUsd := cached.costUsd })

/-- The lookup, where the request uses the cache. -/
def cachedAnswer (principal : Principal) (request : ChatRequest) : Program (Option CacheHit) :=
  if self.cache && request.cache then lookup principal request else return none

/-- `_complete`. -/
def completeWith (principal : Principal) (request : ChatRequest) (config : RoutingConfig) : Program ChatResponse := do
  let start ← Prog.call Op.perfCounter
  match ← self.cachedAnswer principal request with
  | some hit =>
    let cached := hit.completion
    meterHit principal cached
    let latencyMs ← msSince start
    return {
      model := cached.model, content := cached.content, finishReason := cached.finishReason
      usage := ⟨cached.promptTokens, cached.completionTokens⟩
      nexusgate := { deployment := none, cached := true, cacheSimilarity := some hit.similarity, costUsd := 0, latencyMs } }
  | none =>
    let result ← Prog.call (Op.complete request config)
    let resp := result.response
    fill (self.cache && request.cache) principal request {
        content := resp.content, model := resp.model, finishReason := resp.finishReason
        promptTokens := resp.usage.promptTokens, completionTokens := resp.usage.completionTokens
        deployment := result.deployment.name, costUsd := result.costUsd }
    let _ ← Prog.call (Op.meter principal.keyId {
      promptTokens := resp.usage.promptTokens, completionTokens := resp.usage.completionTokens
      costUsd := result.costUsd, selfHosted := result.deployment.selfHosted })
    let latencyMs ← msSince start
    return {
      model := resp.model, content := resp.content, finishReason := resp.finishReason, usage := resp.usage
      nexusgate := {
        deployment := some result.deployment.name, cached := false, costUsd := result.costUsd, latencyMs
        attempts := result.attempts } }

def complete (principal : Principal) (request : ChatRequest) : Program ChatResponse := do
  let (config, variant) ← self.select
  if (config.routes.lookup request.model).isNone then .throw (.raised (.unknownModel request.model))
  else
    match ← caught (self.completeWith principal request config) with
    | .error e =>
      self.recordVariant variant false
      .throw e
    | .ok response =>
      self.recordVariant variant true
      return { response with nexusgate := { response.nexusgate with
        routeVariant := (variant.map Variant.name).orElse fun _ => response.nexusgate.routeVariant } }

/-! ### Streams -/

/-- What an opened stream is metered as. -/
def meteredOf (opened : OpenStream) : Metered where
  promptTokens := opened.usage.promptTokens
  completionTokens := opened.usage.completionTokens
  costUsd := opened.costUsd
  selfHosted := opened.deployment.selfHosted

/-- `_meter_later`. -/
def meterLater (principal : Principal) (opened : OpenStream) : Program Unit :=
  if opened.usage.totalTokens = 0 then return else .call (Op.meterLater principal.keyId (meteredOf opened))

/-- The pieces of a cached answer, after the first. -/
def replayRest (chunkId model : String) : List String → Nat → Program Nat
  | [], taken => return taken
  | piece :: pieces, taken => do
    let taken ← give { id := chunkId, model, content := some piece } taken
    replayRest chunkId model pieces taken

/-- `_replay_cached`. -/
def replayCached (principal : Principal) (hit : CacheHit) (start : ℚ) (taken : Nat) : Program Nat := do
  let cached := hit.completion
  meterHit principal cached
  let id ← Prog.call Op.uuid
  let chunkId := "chatcmpl-" ++ String.ofList (id.toList.take 24)
  let pieces := split cached.content
  let taken ← give { id := chunkId, model := cached.model, role := true, content := some (pieces.headD "") } taken
  let taken ← replayRest chunkId cached.model pieces.tail taken
  let latencyMs ← msSince start
  give {
    id := chunkId, model := cached.model, finishReason := some cached.finishReason
    usage := some ⟨cached.promptTokens, cached.completionTokens⟩
    nexusgate := some {
      deployment := none, cached := true, cacheSimilarity := some hit.similarity, costUsd := 0, latencyMs } } taken

/-- How the relaying of a stream ended: the stream as it is then, what was handed out, and how many chunks the
    client still takes. -/
structure Relayed where
  ended : Except Exn Unit
  opened : OpenStream
  delivered : List String
  taken : Nat

/-- `async for delta in opened.rest`. -/
def relayRest (chunkId : String) : Nat → OpenStream → List String → Program Relayed
  | taken, opened, delivered => do
    match ← (Prog.call (Op.next opened)).attempt with
    | .error e => return ⟨.error e, opened, delivered, taken⟩
    | .ok (.error e, opened) => return ⟨.error (.raised e), opened, delivered, taken⟩
    | .ok (.ok none, opened) => return ⟨.ok (), opened, delivered, taken⟩
    | .ok (.ok (some delta), opened) =>
      let delivered := delivered ++ [delta.content]
      let chunk : ChatChunk := { id := chunkId, model := opened.model, content := some delta.content }
      match taken with
      | 0 =>
        let r ← (give chunk 0).attempt
        return ⟨r.map fun _ => (), opened, delivered, 0⟩
      | taken + 1 =>
        match ← (give chunk (taken + 1)).attempt with
        | .error e => return ⟨.error e, opened, delivered, taken⟩
        | .ok _ => relayRest chunkId taken opened delivered

/-- The `try` block that relays an opened stream. -/
def relay (chunkId : String) (opened : OpenStream) (taken : Nat) : Program Relayed := do
  let chunk : ChatChunk := { id := chunkId, model := opened.model, role := true, content := some opened.first.content }
  match ← (give chunk taken).attempt with
  | .error e => return ⟨.error e, opened, [], 0⟩
  | .ok taken => relayRest chunkId taken opened [opened.first.content]

/-- Whether a text of an interruption counts as one: an empty one does not. -/
def broken (interrupted : Option String) : Bool := interrupted.any fun text => text ≠ ""

/-- `_finish_stream`. -/
def finishStream (principal : Principal) (request : ChatRequest) (opened : OpenStream) (variant : Option Variant)
    (start : ℚ) (text : String) (interrupted : Option String) : Program Meta := do
  fill (self.cache && request.cache && !broken interrupted) principal request {
      content := text, model := opened.model, finishReason := opened.finishReason
      promptTokens := opened.usage.promptTokens, completionTokens := opened.usage.completionTokens
      deployment := opened.deployment.name, costUsd := opened.costUsd }
  let _ ← Prog.call (Op.meter principal.keyId (meteredOf opened))
  self.recordVariant variant interrupted.isNone
  let latencyMs ← msSince start
  return {
    deployment := some opened.deployment.name, cached := false, routeVariant := variant.map Variant.name
    costUsd := opened.costUsd, latencyMs, attempts := opened.attempts, ttftMs := some (round2 opened.ttftMs)
    synthesized := opened.synthesized, usageEstimated := opened.usageEstimated, interrupted }

/-- The last chunk, once the stream has run to its end or to a break. -/
def closeStream (principal : Principal) (request : ChatRequest) (variant : Option Variant) (start : ℚ)
    (chunkId : String) (r : Relayed) (interrupted : Option String) : Program Unit := do
  let footer ← self.finishStream principal request r.opened variant start (String.join r.delivered) interrupted
  let _ ← give {
    id := chunkId, model := r.opened.model
    finishReason := some (if broken interrupted then "error" else r.opened.finishReason)
    usage := some r.opened.usage, nexusgate := some footer } r.taken
  return

def stream (principal : Principal) (request : ChatRequest) (taken : Nat) : Program Unit := do
  let (config, variant) ← self.select
  if (config.routes.lookup request.model).isNone then .throw (.raised (.unknownModel request.model))
  else
    let start ← Prog.call Op.perfCounter
    match ← self.cachedAnswer principal request with
    | some hit =>
      let _ ← replayCached principal hit start taken
      self.recordVariant variant true
    | none =>
      match ← caught (Prog.call (Op.openStream request config)) with
      | .error e =>
        self.recordVariant variant false
        .throw e
      | .ok opened =>
        let id ← Prog.call Op.uuid
        let chunkId := "chatcmpl-" ++ String.ofList (id.toList.take 24)
        let r ← relay chunkId opened taken
        match r.ended with
        | .ok _ => self.closeStream principal request variant start chunkId r none
        | .error (.raised (.streamInterrupted message _ _)) =>
          self.closeStream principal request variant start chunkId r (some message)
        | .error e =>
          if e.gone then
            meterLater principal r.opened
            .throw e
          else .throw e

end ChatService
end NexusGate.Gateway.Chat
