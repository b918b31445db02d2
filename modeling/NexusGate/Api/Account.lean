import NexusGate.Core.Metering

/-! # The usage of a caller

`GET /v1/usage` of `app/api/account.py`, and the pool of all calls on the meter: their commands reach Redis one at a time
and in any order between the calls, while its clock goes on. -/

namespace NexusGate.Core.Metering
open Async Redis Gateway.Chat

/-- `CostPer1k`; `requests` of the source is the last three. -/
structure CostPer1k where
  cacheHit : ℚ := 0
  providerCall : ℚ
  selfHosted : ℚ
  blended : ℚ
  cacheHits : Int
  providerRequests : Int
  selfHostedRequests : Int

structure UsageResponse where
  keyId : String
  tenantId : String
  days : List DailyUsage
  totals : DailyUsage
  costPer1kUsd : CostPer1k

/-- `_per_1k`. -/
def per1k (cost : ℚ) (requests : Int) : ℚ := if requests = 0 then 0 else roundTo 6 (cost / requests * 1000)

/-- `_cost_per_1k`. -/
def costPer1k (totals : DailyUsage) : CostPer1k where
  providerCall := per1k totals.providerCostUsd totals.providerRequests
  selfHosted := per1k totals.selfHostedCostUsd totals.selfHostedRequests
  blended := per1k totals.costUsd totals.requests
  cacheHits := totals.cacheHits
  providerRequests := totals.providerRequests
  selfHostedRequests := totals.selfHostedRequests

/-- The totals of some rows, under the date of the last. -/
def totals (date : Date) (rows : List DailyUsage) : DailyUsage where
  date
  requests := (rows.map DailyUsage.requests).sum
  cacheHits := (rows.map DailyUsage.cacheHits).sum
  promptTokens := (rows.map DailyUsage.promptTokens).sum
  completionTokens := (rows.map DailyUsage.completionTokens).sum
  costUsd := roundTo 8 (rows.map DailyUsage.costUsd).sum
  costSavedUsd := roundTo 8 (rows.map DailyUsage.costSavedUsd).sum
  selfHostedRequests := (rows.map DailyUsage.selfHostedRequests).sum
  selfHostedCostUsd := roundTo 8 (rows.map DailyUsage.selfHostedCostUsd).sum

/-- `usage`, on the UTC date `today`. -/
def usage (meter : UsageMeter) (principal : Principal) (days : Nat) (today : Date) : Program UsageResponse := do
  let rows ← meter.daily principal.keyId days today
  match rows.getLast? with
  | none => .throw .indexError
  | some last =>
    let totals := totals last.date rows
    return { keyId := principal.keyId, tenantId := principal.tenantId, days := rows, totals, costPer1kUsd := costPer1k totals }

/-! ## The pool -/

inductive Call
  | record (r : Recording)
  | daily (keyId : String) (days : Nat) (today : Date)
  | usage (principal : Principal) (days : Nat) (today : Date)

inductive Result
  | recorded
  | rows (days : List DailyUsage)
  | response (r : UsageResponse)

structure State where
  now : Nat := 0
  store : Store ℚ := ∅

def failed : Redis.Reply ℚ → Bool
  | .error => true
  | _ => false

def exec (op : Op) (_ : Unit) (s : State) : Option (Except Exn op.Reply × State) :=
  match op with
  | .redis c =>
    let (r, store) := Redis.exec s.now c s.store
    some (if failed r then .error .redisError else .ok r, { s with store })
  | .hgetall key => some (match hash? s.now s.store key with
    | some row => .ok row
    | none => .error .redisError, s)

/-- Redis' clock moves on by itself. -/
def system (meter : UsageMeter) : System where
  Op := Op
  Reply := Op.Reply
  Exn := Exn
  Result := Result
  State := State
  Call := Call
  Choice := Unit
  Env := Nat
  body
    | .record r => (fun _ => .recorded) <$> meter.record r
    | .daily keyId days today => .rows <$> meter.daily keyId days today
    | .usage principal days today => .response <$> Metering.usage meter principal days today
  admits _ _ := true
  exec := exec
  env ms s := some { s with now := s.now + ms }
  place _ := 0
  sync _ := false
  mortal _ := false

abbrev Pool (meter : UsageMeter) := (system meter).World

/-- An empty Redis, and nobody at work. -/
def emptyPool (meter : UsageMeter) : Pool meter := { state := ({} : State) }

end NexusGate.Core.Metering
