import Mathlib.Algebra.Order.Floor.Ring
import Mathlib.Data.Rat.Floor
import NexusGate.Redis.Store

/-! # The token bucket

`app/core/rate_limit.py`: the Lua script, which Redis carries out as one step, and `hit`, which calls it with
the replica's own clock. Numbers are exact rationals; Redis expires the bucket by its own clock. -/

namespace NexusGate.Core
open Redis

/-- A hash field of a bucket is a number. -/
instance : Payload ℚ where
  ofInt n := n
  int? q := if q.den = 1 then some q.num else none
  ofRat q := q
  rat? := some

/-- The `capacity` and `refill_per_sec` of a key. -/
structure Limit where
  capacity : ℚ
  refillPerSec : ℚ
  capacity_pos : 0 < capacity
  refill_pos : 0 < refillPerSec

structure RateLimitDecision where
  allowed : Bool
  remaining : Int
  retryAfterSeconds : Int
  limit : ℚ

/-- `tokens` and `ts` of a bucket, a full one if there is none. -/
def readBucket (clock : Nat) (bucket : String) (capacity now : ℚ) (s : Store ℚ) : Option (ℚ × ℚ) :=
  match (exec clock (.hmget bucket ["tokens", "ts"]) s).1 with
  | .bulks [none, _] => some (capacity, now)
  | .bulks [some tokens, some ts] => some (tokens, ts)
  | _ => none

def writeBucket (clock : Nat) (bucket : String) (capacity rate now tokens : ℚ) (s : Store ℚ) : Store ℚ :=
  let s := (exec clock (.hset bucket [("tokens", tokens), ("ts", now)]) s).2
  (exec clock (.expire bucket (⌈capacity / rate⌉ + 60).toNat) s).2

/-- `_TOKEN_BUCKET_LUA`, at Redis time `clock`: `allowed`, `tokens` and `retry_after`. A script that fails
    does so before it writes. -/
def tokenBucketLua (clock : Nat) (bucket : String) (capacity rate now cost : ℚ) (s : Store ℚ) :
    Option ((Bool × ℚ × ℚ) × Store ℚ) :=
  (readBucket clock bucket capacity now s).map fun (tokens, ts) =>
    let tokens := min capacity (tokens + max 0 (now - ts) * rate)
    if cost ≤ tokens then
      ((true, tokens - cost, 0), writeBucket clock bucket capacity rate now (tokens - cost) s)
    else
      ((false, tokens, (cost - tokens) / rate), writeBucket clock bucket capacity rate now tokens s)

def bucketKey (key : String) : String := "ratelimit:" ++ key

/-- When a key is hit: Redis' clock, in milliseconds, and the clock of the replica, in seconds. -/
structure Reading where
  key : String
  clock : Nat
  now : ℚ

structure Hit extends Reading where
  cost : ℚ

/-- `TokenBucketLimiter.hit`; nothing is decided when the script fails. -/
def hit (limit : Limit) (h : Hit) (s : Store ℚ) : Option RateLimitDecision × Store ℚ :=
  match tokenBucketLua h.clock (bucketKey h.key) limit.capacity limit.refillPerSec h.now h.cost s with
  | none => (none, s)
  | some ((allowed, tokens, retryAfter), s) =>
    (some { allowed, remaining := ⌊tokens⌋, retryAfterSeconds := ⌈retryAfter⌉, limit := limit.capacity }, s)

/-- What the allowed hits on a key cost together, the hits being carried out one after the other. -/
def spent (limits : String → Limit) (key : String) : List Hit → Store ℚ → ℚ
  | [], _ => 0
  | h :: hs, s =>
    let (decision, s) := hit (limits h.key) h s
    (if h.key = key ∧ decision.any RateLimitDecision.allowed then h.cost else 0) + spent limits key hs s

end NexusGate.Core
