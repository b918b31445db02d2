import Mathlib.Algebra.Order.Floor.Ring
import Mathlib.Data.Rat.Floor
import NexusGate.Async.Pool
import NexusGate.Gateway.RoutingConfig
import NexusGate.Redis.Store

/-! # Canary rollouts

`RolloutManager` of `app/gateway/rollout.py` on any number of replicas over one Redis. Each replica keeps its
own cache of what it read last, and changes it in place between two suspensions. No rollout key expires, so
Redis' clock plays no part. -/

namespace NexusGate.Gateway.Rollout
open Async Redis

def stableKey : String := "rollout:stable"

def canaryKey : String := "rollout:canary"

def statsKey : String := "rollout:stats"

/-- The names of the two tables. -/
def stableName : String := "stable"

def canaryName : String := "canary"

structure Variant where
  name : String
  version : String
  deriving DecidableEq

structure CanaryState where
  version : String
  weight : Int
  note : Option String := none
  createdAt : String := ""
  rolledBackAt : Option String := none
  rollbackReason : Option String := none
  deriving DecidableEq

def CanaryState.active (s : CanaryState) : Bool := decide (0 < s.weight) && s.rolledBackAt.isNone

structure RolloutSettings where
  minRequests : Int := 20
  maxErrorRate : ℚ := 1 / 10
  refreshSeconds : ℚ := 1

/-- What a Redis string or hash field holds: a counter, the JSON of a stable table or of a canary with its
    table's text, or something that is neither. -/
inductive Blob
  | int (n : Int)
  | stable (version config promotedAt : String)
  | canary (state : CanaryState) (config : String)
  | text (t : String)
  deriving DecidableEq

instance : Payload Blob where
  ofInt := .int
  int? := fun | .int n => some n | _ => none
  ofRat _ := .text ""
  rat? := fun _ => none

/-- `_Cached`; `fetchedAt` is `none` where the source has `float("-inf")`. -/
structure Cached where
  stable : Option (String × RoutingConfig) := none
  canary : Option (CanaryState × RoutingConfig) := none
  fetchedAt : Option ℚ := none

inductive Exn
  | redisError
  | valueError
  | zeroDivisionError
  deriving DecidableEq

/-! ## Operations -/

/-- Where a call hands control to its surroundings. Those of `RolloutManager` itself do not suspend. -/
inductive Op
  | redis (c : Cmd Blob)
  | clock (replica : Nat)
  | utcnow
  | random
  | readCache (replica : Nat)
  | writeCache (replica : Nat) (cache : Cached)
  /-- Change the cached canary in place. -/
  | edit (replica : Nat) (state : CanaryState)

abbrev Op.Reply : Op → Type
  | .redis _ => Redis.Reply Blob
  | .clock _ => ℚ
  | .utcnow => String
  | .random => ℚ
  | .readCache _ => Cached
  | .writeCache _ _ => Unit
  | .edit _ _ => Unit

abbrev Program := Prog Op Op.Reply Exn

def redis (c : Cmd Blob) : Program (Redis.Reply Blob) := .call (Op.redis c)

def utcnow : Program String := .call Op.utcnow

/-- `pipeline(transaction=False)`: every command is sent, and the first failure is raised at the end. -/
def pipeline : List (Cmd Blob) → Program Unit
  | [] => return
  | c :: cs => do
    let reply ← (redis c).attempt
    pipeline cs
    let _ ← Prog.ofExcept reply

/-- `f"{rate:.0%}"`. -/
def percent (rate : ℚ) : String :=
  let x := rate * 100
  let n := ⌊x⌋
  let up := 1 / 2 < x - n ∨ (x - n = 1 / 2 ∧ n % 2 = 1)
  toString (if up then n + 1 else n) ++ "%"

structure RolloutManager where
  replica : Nat
  format : TableFormat
  fallback : RoutingConfig
  settings : RolloutSettings := {}

namespace RolloutManager
variable (self : RolloutManager)

/-- The pair that `_load` makes of what it read; nothing at all when a part of it does not parse. An empty text
    counts as absent. -/
def parse (stableRaw canaryRaw : Option Blob) (now : ℚ) : Cached :=
  let stable := match stableRaw with
    | none | some (.text "") => some none
    | some (.stable version config _) => (self.format.fromText config).map fun c => some (version, c)
    | some _ => none
  let canary := match canaryRaw with
    | none | some (.text "") => some none
    | some (.canary state config) => (self.format.fromText config).map fun c => some (state, c)
    | some _ => none
  match stable, canary with
  | some stable, some canary => { stable, canary, fetchedAt := some now }
  | _, _ => { fetchedAt := some now }

/-- `_load`. -/
def load : Program Cached := do
  let now ← Prog.call (Op.clock self.replica)
  let cache ← Prog.call (Op.readCache self.replica)
  if cache.fetchedAt.any fun t => now - t < self.settings.refreshSeconds then
    return cache
  else
    let reply ← (redis (.mget [stableKey, canaryKey])).attempt
    let cache : Cached := match reply with
      | .ok (.bulks [stableRaw, canaryRaw]) => self.parse stableRaw canaryRaw now
      | _ => { fetchedAt := some now }
    let _ ← Prog.call (Op.writeCache self.replica cache)
    return cache

/-- `_invalidate`. -/
def invalidate : Program Unit := do
  let cache ← Prog.call (Op.readCache self.replica)
  Prog.call (Op.writeCache self.replica { cache with fetchedAt := none })

def stable : Program (String × RoutingConfig) := do
  let cache ← self.load
  return cache.stable.getD (self.format.fingerprint self.fallback, self.fallback)

def canary : Program (Option (CanaryState × RoutingConfig)) := do
  let cache ← self.load
  return cache.canary

def select : Program (RoutingConfig × Variant) := do
  let cache ← self.load
  let (stableVersion, stableConfig) := cache.stable.getD (self.format.fingerprint self.fallback, self.fallback)
  match cache.canary with
  | none => return (stableConfig, ⟨stableName, stableVersion⟩)
  | some (state, config) =>
    if state.active then
      let u ← Prog.call Op.random
      if u * 100 < state.weight then return (config, ⟨canaryName, state.version⟩)
      else return (stableConfig, ⟨stableName, stableVersion⟩)
    else return (stableConfig, ⟨stableName, stableVersion⟩)

/-- `_write_canary`. -/
def writeCanary (state : CanaryState) (configText : Option String) (config : RoutingConfig) : Program Unit := do
  let text := match configText with
    | some t => if t.isEmpty then self.format.modelDumpJson config else t
    | none => self.format.modelDumpJson config
  let _ ← redis (.set canaryKey (.canary state text) none false)
  self.invalidate

def requestsField (version : String) : String := version ++ ":requests"

def errorsField (version : String) : String := version ++ ":errors"

def publish (configText : String) (weight : Int) (note : Option String) : Program CanaryState := do
  match self.format.fromText configText with
  | none => .throw .valueError
  | some config =>
    let createdAt ← utcnow
    let state : CanaryState := { version := self.format.fingerprint config, weight, note, createdAt }
    self.writeCanary state (some configText) config
    let _ ← redis (.hdel statsKey [requestsField state.version, errorsField state.version])
    return state

def setWeight (weight : Int) : Program (Option CanaryState) := do
  match ← self.canary with
  | none => return none
  | some (state, config) =>
    let state := { state with weight, rolledBackAt := if weight = 0 then state.rolledBackAt else none }
    let _ ← Prog.call (Op.edit self.replica state)
    self.writeCanary state none config
    return some state

def rollBack (reason : String) : Program (Option CanaryState) := do
  match ← self.canary with
  | none => return none
  | some (state, config) =>
    let now ← utcnow
    let state := { state with weight := 0, rolledBackAt := some now, rollbackReason := some reason }
    let _ ← Prog.call (Op.edit self.replica state)
    self.writeCanary state none config
    return some state

def promote : Program (Option (String × RoutingConfig)) := do
  match ← self.canary with
  | none => return none
  | some (state, config) =>
    let now ← utcnow
    let _ ← redis (.set stableKey (.stable state.version (self.format.modelDumpJson config) now) none false)
    let _ ← redis (.del [canaryKey])
    self.invalidate
    return some (state.version, config)

def discard : Program Bool := do
  let removed ← redis (.del [canaryKey])
  self.invalidate
  match removed with
  | .int n => return n ≠ 0
  | _ => return false

/-- `int(v or 0)`. -/
def counter : Option Blob → Program Int
  | none => return 0
  | some (.int n) => return n
  | some _ => .throw .valueError

def stats (version : String) : Program (Int × Int) := do
  match ← redis (.hmget statsKey [requestsField version, errorsField version]) with
  | .bulks [requests, errors] =>
    let requests ← counter requests
    let errors ← counter errors
    return (requests, errors)
  | _ => .throw .redisError

/-- `_maybe_roll_back`. -/
def maybeRollBack (version : String) : Program Unit := do
  match ← self.canary with
  | none => return
  | some (state, _) =>
    if state.version ≠ version ∨ state.active = false then return
    else
      let (requests, errors) ← stats version
      if requests < self.settings.minRequests then return
      else if requests = 0 then .throw .zeroDivisionError
      else
        let rate : ℚ := errors / requests
        if rate ≤ self.settings.maxErrorRate then return
        else
          let _ ← self.rollBack ("error rate " ++ percent rate ++ " over " ++ toString requests ++
            " requests, above the " ++ percent self.settings.maxErrorRate ++ " the canary is allowed")

def record (variant : Variant) (ok : Bool) : Program Unit := do
  let counts := [.hincrby statsKey (requestsField variant.version) 1] ++
    if ok then [] else [.hincrby statsKey (errorsField variant.version) 1]
  match ← (pipeline counts).attempt with
  | .error _ => return
  | .ok _ => if variant.name = canaryName ∧ ok = false then self.maybeRollBack variant.version else return

end RolloutManager

/-! ## The pool -/

inductive Call
  | publish (m : RolloutManager) (configText : String) (weight : Int) (note : Option String)
  | setWeight (m : RolloutManager) (weight : Int)
  | rollBack (m : RolloutManager) (reason : String)
  | promote (m : RolloutManager)
  | discard (m : RolloutManager)
  | stable (m : RolloutManager)
  | canary (m : RolloutManager)
  | select (m : RolloutManager)
  | record (m : RolloutManager) (variant : Variant) (ok : Bool)

def Call.manager : Call → RolloutManager
  | .publish m _ _ _ | .setWeight m _ | .rollBack m _ | .promote m | .discard m | .stable m | .canary m
  | .select m | .record m _ _ => m

inductive Result
  | published (state : CanaryState)
  | changed (state : Option CanaryState)
  | promoted (table : Option (String × RoutingConfig))
  | discarded (removed : Bool)
  | stable (table : String × RoutingConfig)
  | canary (canary : Option (CanaryState × RoutingConfig))
  | selected (table : RoutingConfig × Variant)
  | recorded

def Call.body : Call → Program Result
  | .publish m configText weight note => .published <$> m.publish configText weight note
  | .setWeight m weight => .changed <$> m.setWeight weight
  | .rollBack m reason => .changed <$> m.rollBack reason
  | .promote m => .promoted <$> m.promote
  | .discard m => .discarded <$> m.discard
  | .stable m => .stable <$> m.stable
  | .canary m => .canary <$> m.canary
  | .select m => .selected <$> m.select
  | .record m variant ok => (fun _ => .recorded) <$> m.record variant ok

/-- What the environment decides at an operation. -/
inductive Choice
  | ok
  /-- The connection is lost, before or after the command took effect. -/
  | lost (applied : Bool)
  | text (t : String)
  | number (q : ℚ)

structure State where
  store : Store Blob := ∅
  /-- `time.monotonic` of each replica. -/
  clock : Nat → ℚ := fun _ => 0
  cache : Nat → Cached := fun _ => {}

def Reply.failed : Redis.Reply Blob → Bool
  | .error => true
  | _ => false

@[grind =] def exec (op : Op) (choice : Choice) (s : State) : Option (Except Exn op.Reply × State) :=
  match op, choice with
  | .redis c, .ok =>
    let (r, store) := Redis.exec 0 c s.store
    some (if Reply.failed r then .error .redisError else .ok r, { s with store })
  | .redis c, .lost applied =>
    some (.error .redisError, if applied then { s with store := (Redis.exec 0 c s.store).2 } else s)
  | .clock r, .ok => some (.ok (s.clock r), s)
  | .utcnow, .text t => some (.ok t, s)
  | .random, .number q => if 0 ≤ q ∧ q < 1 then some (.ok q, s) else none
  | .readCache r, .ok => some (.ok (s.cache r), s)
  | .writeCache r cache, .ok => some (.ok (), { s with cache := Function.update s.cache r cache })
  | .edit r state, .ok =>
    let cache := s.cache r
    some (.ok (), { s with
      cache := Function.update s.cache r { cache with canary := cache.canary.map fun c => (state, c.2) } })
  | _, _ => none

/-- Every call on every replica, at any time; a request can be cancelled at every await. -/
def system : System where
  Op := Op
  Reply := Op.Reply
  Exn := Exn
  Result := Result
  State := State
  Call := Call
  Choice := Choice
  Env := Nat × ℚ
  body := Call.body
  admits _ _ := true
  exec := exec
  env a s := if 0 ≤ a.2 then some { s with clock := Function.update s.clock a.1 (s.clock a.1 + a.2) } else none
  place c := c.manager.replica
  sync
    | .redis _ => false
    | _ => true
  mortal _ := true

end NexusGate.Gateway.Rollout
