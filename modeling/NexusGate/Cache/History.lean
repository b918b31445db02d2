import NexusGate.Async.Eval
import NexusGate.Cache.SemanticCache

/-! # A history of the cache

Lookups and stores, one after another, on a clock that Redis shares: it counts the milliseconds of it. -/

namespace NexusGate.Cache
open Async Redis Gateway

def millis (time : ℚ) : Nat := ⌊1000 * time⌋₊

/-- A call that is made alone, with what it is given: the time, and an id for an entry. -/
structure Visit where
  call : Call
  time : ℚ
  uuid : String

namespace Visit

def choice (v : Visit) : Op → Choice
  | .uuid => .id v.uuid
  | .clock => .time v.time
  | _ => .ok

def answer (cache : SemanticCache) (v : Visit) : Handler Op Op.Reply Exn State := fun e s =>
  (exec cache.embedder e (v.choice e) s).getD (.error .redisError, s)

def run (cache : SemanticCache) (v : Visit) (s : State) : Except Exn Result × State :=
  ((system cache).body v.call).run (v.answer cache) { s with now := millis v.time }

/-- A lookup or a store, later than all before, and a store is given a new id. -/
structure Next (vs : List Visit) (s : State) (v : Visit) : Prop where
  cached : (∃ t r, v.call = .lookup t r) ∨ ∃ t r d, v.call = .store t r d
  later : ∀ u ∈ vs, u.time < v.time
  started : 0 ≤ v.time
  fresh : isUuidHex v.uuid = true ∧ v.uuid ∉ s.drawn

end Visit

/-- The calls that have been made, the last one first, and what they have left. -/
inductive History (cache : SemanticCache) : List Visit → State → Prop
  | empty : History cache [] {}
  | next {vs : List Visit} {s : State} {v : Visit} : History cache vs s → v.Next vs s → History cache (v :: vs) (v.run cache s).2

/-- What a store has put into a namespace. -/
structure Deposit where
  id : String
  time : ℚ
  vec : Vec
  completion : CachedCompletion

namespace Deposit

/-- When Redis takes the entry away. -/
def deadline (cache : SemanticCache) (x : Deposit) : Nat := Redis.deadline (millis x.time) cache.ttl

def live (cache : SemanticCache) (now : Nat) (x : Deposit) : Bool := now < x.deadline cache

/-- The hash of the entry. -/
def entry (cache : SemanticCache) (ns : String) (x : Deposit) : Entry Blob where
  value := .hash <| [("ns", .text ns), ("vec", .vec x.vec), ("payload", .completion x.completion), ("created", .num x.time)].foldl
    (fun h (f : String × Blob) => h.insert f.1 f.2) ∅
  expiresAt := some (x.deadline cache)

end Deposit

variable (cache : SemanticCache) (ns : String)

def Visit.deposit (v : Visit) : Option Deposit :=
  match v.call with
  | .store t r d => if namespaceFor cache.sha256 t r = ns then some ⟨v.uuid, v.time, cache.embedder r.last.content, d⟩ else none
  | _ => none

/-- The stores into a namespace, the newest first. -/
def deposits (vs : List Visit) : List Deposit := vs.filterMap (Visit.deposit cache ns)

/-- Those of the last `max_entries` whose time is not up. -/
def newest (vs : List Visit) (now : Nat) : List Deposit := ((deposits cache ns vs).take cache.maxEntries).filter (Deposit.live cache now)

end NexusGate.Cache
