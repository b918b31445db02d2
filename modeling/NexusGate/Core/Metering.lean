import NexusGate.Core.Calendar
import NexusGate.Core.RateLimit
import NexusGate.Gateway.Service

/-! # Usage metering

`app/core/metering.py`: which Redis commands `record` and `daily` send, one after the other, and the row that is made of
what a key holds. Numbers are exact. -/

namespace NexusGate.Core.Metering
open Async Redis Gateway.Chat

structure DailyUsage where
  date : Date
  requests : Int := 0
  cacheHits : Int := 0
  promptTokens : Int := 0
  completionTokens : Int := 0
  costUsd : ℚ := 0
  costSavedUsd : ℚ := 0
  selfHostedRequests : Int := 0
  selfHostedCostUsd : ℚ := 0
  deriving DecidableEq

/-- `round(x, ndigits)`, ties to even. -/
def roundTo (ndigits : Nat) (x : ℚ) : ℚ :=
  let scaled := x * 10 ^ ndigits
  let n : Int := ⌊scaled⌋
  let r := scaled - n
  (if r < 1 / 2 ∨ (r = 1 / 2 ∧ n % 2 = 0) then n else n + 1 : Int) / 10 ^ ndigits

def DailyUsage.providerRequests (u : DailyUsage) : Int := max 0 (u.requests - u.cacheHits - u.selfHostedRequests)

def DailyUsage.providerCostUsd (u : DailyUsage) : ℚ := roundTo 8 (max 0 (u.costUsd - u.selfHostedCostUsd))

inductive Exn
  | redisError
  | validationError
  | overflowError
  | indexError
  deriving DecidableEq

/-! ## A row of the hash -/

abbrev Row := AList fun _ : String => ℚ

def intField (row : Row) (field : String) : Except Exn Int :=
  match row.lookup field with
  | none => .ok 0
  | some q => match Payload.int? q with
    | some n => .ok n
    | none => .error .validationError

def floatField (row : Row) (field : String) : ℚ := (row.lookup field).getD 0

/-- `DailyUsage(date=d, **row)`. -/
def dailyUsage (date : Date) (row : Row) : Except Exn DailyUsage := do
  let requests ← intField row "requests"
  let cacheHits ← intField row "cache_hits"
  let promptTokens ← intField row "prompt_tokens"
  let completionTokens ← intField row "completion_tokens"
  let selfHostedRequests ← intField row "self_hosted_requests"
  return {
    date, requests, cacheHits, promptTokens, completionTokens, selfHostedRequests
    costUsd := floatField row "cost_usd"
    costSavedUsd := floatField row "cost_saved_usd"
    selfHostedCostUsd := floatField row "self_hosted_cost_usd" }

/-! ## Operations -/

/-- A command that writes, or `HGETALL`. -/
inductive Op
  | redis (c : Cmd ℚ)
  | hgetall (key : String)

abbrev Op.Reply : Op → Type
  | .redis _ => Redis.Reply ℚ
  | .hgetall _ => Row

abbrev Program := Prog Op Op.Reply Exn

/-- `pipeline(transaction=False)`: every command is sent, and the first failure is raised at the end. -/
def pipeline {α β : Type} (send : α → Program β) : List α → Program (List β)
  | [] => return []
  | c :: cs => do
    let reply ← (send c).attempt
    let replies ← (pipeline send cs).attempt
    return (← Prog.ofExcept reply) :: (← Prog.ofExcept replies)

/-- The key of an API key and a day. -/
def usageKey (keyId : String) (day : Date) : String := "usage:" ++ keyId ++ ":" ++ day.isoformat

/-- A call of `record`, with amounts that are not negative; `day` is the UTC date of its `now`. -/
structure Recording where
  keyId : String
  day : Date
  usage : Metered
  cost_nonneg : 0 ≤ usage.costUsd
  saved_nonneg : 0 ≤ usage.costSavedUsd

structure UsageMeter where
  retentionDays : Int

namespace UsageMeter
variable (self : UsageMeter)

/-- `int(self._retention.total_seconds())`; a time to live that is not positive deletes the key. -/
def retentionSeconds : Nat := (self.retentionDays * 86400).toNat

/-- The commands of the pipeline in `record`. -/
def commands (r : Recording) : List (Cmd ℚ) :=
  let key := usageKey r.keyId r.day
  .hincrby key "requests" 1 ::
  (if r.usage.cached then
    [.hincrby key "cache_hits" 1, .hincrbyfloat key "cost_saved_usd" r.usage.costSavedUsd]
  else
    [.hincrby key "prompt_tokens" r.usage.promptTokens, .hincrby key "completion_tokens" r.usage.completionTokens,
      .hincrbyfloat key "cost_usd" r.usage.costUsd] ++
    if r.usage.selfHosted then
      [.hincrby key "self_hosted_requests" 1, .hincrbyfloat key "self_hosted_cost_usd" r.usage.costUsd]
    else []) ++
  [.expire key self.retentionSeconds]

def record (r : Recording) : Program Unit := do
  let _ ← pipeline (fun c => Prog.call (Op.redis c)) (self.commands r)

/-- `today - timedelta(days=i)`. -/
def daysBefore (today : Date) (i : Nat) : Except Exn Date :=
  match today.minusDays i with
  | some d => .ok d
  | none => .error .overflowError

/-- The dates for `range(days - 1, -1, -1)`. -/
def dates (days : Nat) (today : Date) : Except Exn (List Date) := (List.range days).reverse.mapM (daysBefore today)

def daily (_self : UsageMeter) (keyId : String) (days : Nat) (today : Date) : Program (List DailyUsage) := do
  let dates ← Prog.ofExcept (dates days today)
  let rows ← pipeline (fun d => Prog.call (Op.hgetall (usageKey keyId d))) dates
  Prog.ofExcept ((dates.zip rows).mapM fun (d, row) => dailyUsage d row)

end UsageMeter
end NexusGate.Core.Metering
