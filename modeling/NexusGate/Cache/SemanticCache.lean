import Mathlib.Algebra.Order.Floor.Ring
import Mathlib.Data.Rat.Floor
import NexusGate.Async.Pool
import NexusGate.Gateway.Schemas
import NexusGate.Redis.Store

/-! # The semantic cache

`app/cache/semantic_cache.py`: which Redis commands every method sends, under which keys, with both index
backends. A stored JSON text or byte string is modelled by the value it was made from (`Blob`), a float by a
rational. The first SCAN of an iteration also says how many there will be; every key that is there from the
first to the last of them is on one of their pages. -/

namespace NexusGate.Cache
open Async Redis Gateway Text

structure CachedCompletion where
  content : String
  model : String
  finishReason : String
  promptTokens : Nat
  completionTokens : Nat
  deployment : String
  costUsd : ℚ
  deriving DecidableEq, Repr

structure CacheHit where
  completion : CachedCompletion
  similarity : ℚ
  deriving DecidableEq, Repr

abbrev Vec := List ℚ

def dot (v w : Vec) : ℚ := (List.zipWith (· * ·) v w).sum

/-- What a hash field holds. -/
inductive Blob
  | text (t : String)
  | vec (v : Vec)
  | completion (c : CachedCompletion)
  | num (q : ℚ)
  deriving DecidableEq

instance : Payload Blob where
  ofInt n := .num n
  int? _ := none
  ofRat := .num
  rat? := fun | .num q => some q | _ => none

inductive Exn
  | redisError
  | valueError
  | embedderError
  deriving DecidableEq

/-! ## Keys and namespaces -/

def entryPrefix (ns : String) : String := "semcache:e:" ++ ns ++ ":"

def entryKey (ns entryId : String) : String := entryPrefix ns ++ entryId

def zsetKey (ns : String) : String := "semcache:z:" ++ ns

def tenantKey (tenantId : String) : String := "semcache:t:" ++ tenantId

def isHex (s : String) : Bool := s.toList.all fun c => c.isDigit || ('a' ≤ c && c ≤ 'f')

/-- `hashlib.sha256(…).hexdigest()`. -/
structure Sha256 where
  hexdigest : String → String
  hex : ∀ s, isHex (hexdigest s) = true

def messageDump (m : ChatMessage) : Json := .dict [("role", .str m.role.value), ("content", .str m.content)]

/-- The string that `namespace_for` hashes. -/
def material (tenantId : String) (request : ChatRequest) : String :=
  Json.dumps <| .dict [
    ("tenant", .str tenantId),
    ("route", .str request.model),
    ("temperature", request.temperature.elim .null .num),
    ("max_tokens", request.maxTokens.elim .null fun n => .num (.ofNat n)),
    ("context", .arr (request.context.map messageDump)),
    ("last_role", .str request.last.role.value)]

/-- The first 32 digits of the hash. -/
def Sha256.short (sha256 : Sha256) (text : String) : String := .ofList ((sha256.hexdigest text).toList.take 32)

def namespaceFor (sha256 : Sha256) (tenantId : String) (request : ChatRequest) : String :=
  sha256.short (material tenantId request)

/-! ## Operations -/

/-- The first page of a SCAN iteration, and how many are left. -/
structure Page where
  cursor : Nat
  left : Nat
  keys : List String

/-- Where a call hands control to its surroundings. -/
inductive Op
  | redis (c : Cmd Blob)
  | multi (cs : List (Cmd Blob))
  | scan (pattern : String)
  | scanNext (pattern : String) (cursor left : Nat)
  | embed (text : String)
  | uuid
  | clock
  | search (ns : String) (vec : Vec)

abbrev Op.Reply : Op → Type
  | .redis _ => Redis.Reply Blob
  | .multi _ => List (Redis.Reply Blob)
  | .scan _ => Page
  | .scanNext _ _ _ => List String
  | .embed _ => Vec
  | .uuid => String
  | .clock => ℚ
  | .search _ _ => Option (String × ℚ)

abbrev Program := Prog Op Op.Reply Exn

def redis (c : Cmd Blob) : Program (Redis.Reply Blob) := .call (Op.redis c)

def multi (cs : List (Cmd Blob)) : Program (List (Redis.Reply Blob)) := .call (Op.multi cs)

def uuid4 : Program String := .call Op.uuid

def clock : Program ℚ := .call Op.clock

def embed (text : String) : Program Vec := .call (Op.embed text)

/-- `pipeline(transaction=False)`: every command is sent, and the first failure is raised at the end. -/
def pipeline : List (Cmd Blob) → Program (List (Redis.Reply Blob))
  | [] => return []
  | c :: cs => do
    let reply ← (redis c).attempt
    let replies ← (pipeline cs).attempt
    return (← Prog.ofExcept reply) :: (← Prog.ofExcept replies)

def delete (ks : List String) : Program Int := do
  match ← redis (.del ks) with
  | .int n => return n
  | _ => .throw .redisError

/-! ## Index backends -/

/-- `BruteForceIndex`, or `RediSearchIndex`. -/
inductive VectorIndex
  | bruteForce
  | rediSearch

/-- The vectors among the answers of `HGET`. -/
def vectors : List (Redis.Reply Blob) → Program (List (Option Vec))
  | [] => return []
  | .nil :: rs => return none :: (← vectors rs)
  | .bulk (.vec v) :: rs => return some v :: (← vectors rs)
  | _ :: _ => .throw .valueError

/-- The first of the pairs with the largest number. -/
def argmax {α : Type} : List (α × ℚ) → Option (α × ℚ)
  | [] => none
  | x :: xs => match argmax xs with
    | none => some x
    | some y => if x.2 < y.2 then some y else some x

def BruteForceIndex.nearest (maxEntries : Nat) (ns : String) (vec : Vec) : Program (Option (String × ℚ)) := do
  match ← redis (.zrevrange (zsetKey ns) 0 (maxEntries - 1)) with
  | .strings [] => return none
  | .strings ids =>
    let raw ← vectors (← pipeline (ids.map fun i => .hget (entryKey ns i) "vec"))
    let live := (ids.zip raw).filterMap fun p => p.2.map fun v => (p.1, v)
    let expired := ((ids.zip raw).filter fun p => p.2.isNone).map Prod.fst
    if expired ≠ [] then
      let _ ← redis (.zrem (zsetKey ns) expired)
    return argmax (live.map fun p => (entryKey ns p.1, dot p.2 vec))
  | _ => .throw .redisError

def RediSearchIndex.nearest (ns : String) (vec : Vec) : Program (Option (String × ℚ)) := do
  match ← Prog.call (Op.search ns vec) with
  | none => return none
  | some (key, dist) => return some (key, 1 - dist)

/-! ## `SemanticCache` -/

structure SemanticCache where
  sha256 : Sha256
  embedder : String → Vec
  index : VectorIndex
  threshold : ℚ
  ttl : Nat
  maxEntries : Nat
  inRange : 0 < threshold ∧ threshold ≤ 1

/-- `round(x, 4)`. -/
def round4 (x : ℚ) : ℚ :=
  let n := ⌊x * 10000⌋
  let d := x * 10000 - n
  (if 1 / 2 < d ∨ (d = 1 / 2 ∧ n % 2 = 1) then n + 1 else n) / 10000

/-- Go through the keys of one page, deleting five hundred at a time. -/
def deletePage : List String → List String × Int → Program (List String × Int)
  | [], acc => return acc
  | key :: keys, (batch, deleted) => do
    let batch := batch ++ [key]
    if 500 ≤ batch.length then
      let n ← delete batch
      deletePage keys ([], deleted + n)
    else
      deletePage keys (batch, deleted)

def deletePages (pattern : String) (cursor : Nat) : Nat → List String × Int → Program (List String × Int)
  | 0, acc => return acc
  | left + 1, acc => do
    let keys ← Prog.call (Op.scanNext pattern cursor left)
    let acc ← deletePage keys acc
    deletePages pattern cursor left acc

/-- `_delete_matching` of the keys that begin with `pattern`. -/
def deleteMatching (pattern : String) : Program Int := do
  let page ← Prog.call (Op.scan pattern)
  let acc ← deletePage page.keys ([], 0)
  let (batch, deleted) ← deletePages pattern page.cursor page.left acc
  if batch = [] then
    return deleted
  else
    let n ← delete batch
    return deleted + n

namespace SemanticCache
variable (self : SemanticCache)

def nearest (ns : String) (vec : Vec) : Program (Option (String × ℚ)) :=
  match self.index with
  | .bruteForce => BruteForceIndex.nearest self.maxEntries ns vec
  | .rediSearch => RediSearchIndex.nearest ns vec

def lookup (tenantId : String) (request : ChatRequest) : Program (Option CacheHit) := do
  let ns := namespaceFor self.sha256 tenantId request
  let vec ← embed request.last.content
  match ← self.nearest ns vec with
  | none => return none
  | some (key, similarity) =>
    if similarity < self.threshold then
      return none
    match ← redis (.hget key "payload") with
    | .nil => return none
    | .bulk (.completion c) => return some ⟨c, round4 similarity⟩
    | _ => .throw .valueError

/-- The commands of the transaction in `store`. -/
def storeCmds (tenantId ns entryId : String) (vec : Vec) (completion : CachedCompletion) (now : ℚ) :
    List (Cmd Blob) :=
  [.hset (entryKey ns entryId) [("ns", .text ns), ("vec", .vec vec), ("payload", .completion completion),
     ("created", .num now)],
   .expire (entryKey ns entryId) self.ttl,
   .zadd (zsetKey ns) [(entryId, now)] false,
   .zremrangebyscore (zsetKey ns) (now - self.ttl),
   .zrange (zsetKey ns) 0 (-(self.maxEntries + 1)),
   .zremrangebyrank (zsetKey ns) 0 (-(self.maxEntries + 1)),
   .expire (zsetKey ns) self.ttl,
   .sadd (tenantKey tenantId) [ns],
   .expire (tenantKey tenantId) self.ttl]

def store (tenantId : String) (request : ChatRequest) (completion : CachedCompletion) : Program Unit := do
  let ns := namespaceFor self.sha256 tenantId request
  let vec ← embed request.last.content
  let entryId ← uuid4
  let now ← clock
  let results ← multi (self.storeCmds tenantId ns entryId vec completion now)
  match results.getD 4 .error with
  | .strings [] => return
  | .strings evicted => let _ ← delete (evicted.map (entryKey ns))
  | _ => .throw .redisError

def purgeNamespaces : List String → Int → Program Int
  | [], deleted => return deleted
  | ns :: namespaces, deleted => do
    let n ← deleteMatching (entryPrefix ns)
    let _ ← delete [zsetKey ns]
    purgeNamespaces namespaces (deleted + n)

def purgeTenant (_self : SemanticCache) (tenantId : String) : Program Int := do
  match ← redis (.smembers (tenantKey tenantId)) with
  | .strings namespaces =>
    let deleted ← purgeNamespaces namespaces 0
    let _ ← delete [tenantKey tenantId]
    return deleted
  | _ => .throw .redisError

def purgeAll (_self : SemanticCache) : Program Int := do
  let deleted ← deleteMatching "semcache:e:"
  let _ ← deleteMatching "semcache:z:"
  let _ ← deleteMatching "semcache:t:"
  return deleted

end SemanticCache

/-! ## The pool -/

inductive Call
  | lookup (tenantId : String) (request : ChatRequest)
  | store (tenantId : String) (request : ChatRequest) (completion : CachedCompletion)
  | purgeTenant (tenantId : String)
  | purgeAll
  deriving DecidableEq

inductive Result
  | found (hit : Option CacheHit)
  | stored
  | deleted (n : Int)
  deriving DecidableEq

/-- What the environment decides at an operation. -/
inductive Choice
  | ok
  /-- The connection is lost, before or after the commands took effect. -/
  | lost (applied : Bool)
  /-- The embedder raises. -/
  | fails
  | id (uuid : String)
  | time (q : ℚ)
  | page (left : Nat) (keys : List String)
  | doc (found : Option (String × ℚ))

structure State where
  now : Nat := 0
  store : Store Blob := ∅
  /-- The ids that `uuid4` has given out. -/
  drawn : List String := []
  /-- How many SCAN iterations have begun, and the keys that each of them has still to return. -/
  cursors : Nat := 0
  scans : Nat → List String := fun _ => []

namespace State

/-- The keys that begin with `pattern`. -/
def matching (s : State) (pattern : String) : List String :=
  (s.store.keys.filter fun k => pattern.toList.isPrefixOf k.toList).filter fun k => (live? s.now s.store k).isSome

/-- A SCAN need not return a key that was gone for a while. -/
def settle (s : State) : State :=
  { s with scans := fun c => (s.scans c).filter fun k => (live? s.now s.store k).isSome }

@[simp] theorem settle_now (s : State) : s.settle.now = s.now := rfl
@[simp] theorem settle_store (s : State) : s.settle.store = s.store := rfl
@[simp] theorem settle_drawn (s : State) : s.settle.drawn = s.drawn := rfl
@[simp] theorem settle_cursors (s : State) : s.settle.cursors = s.cursors := rfl

/-- The page has live keys only, and the last page whatever the iteration has not returned yet. -/
def allows (s : State) (pattern : String) (pending : List String) (left : Nat) (keys : List String) : Bool :=
  keys.all (· ∈ s.matching pattern) && (left != 0 || pending.all (· ∈ keys))

/-- Whether the search index can answer with `key`: an entry, maybe expired, that is tagged with `ns`. -/
def tagged (s : State) (ns key : String) : Bool :=
  "semcache:e:".toList.isPrefixOf key.toList && match s.store.lookup key with
    | some ⟨.hash h, _⟩ => h.lookup "ns" == some (.text ns)
    | _ => false

end State

/-- `uuid4().hex`: 32 lower-case hexadecimal digits. -/
def isUuidHex (s : String) : Bool := s.length == 32 && isHex s

def Reply.failed : Redis.Reply Blob → Bool
  | .error => true
  | _ => false

@[grind =] def exec (embedder : String → Vec) (op : Op) (choice : Choice) (s : State) : Option (Except Exn op.Reply × State) :=
  match op, choice with
  | .redis c, .ok =>
    let (r, store) := Redis.exec s.now c s.store
    some (if Reply.failed r then .error .redisError else .ok r, { s with store }.settle)
  | .redis c, .lost applied =>
    some (.error .redisError, if applied then { s with store := (Redis.exec s.now c s.store).2 }.settle else s)
  | .multi cs, .ok =>
    let (rs, store) := Redis.execAll s.now cs s.store
    some (if rs.any Reply.failed then .error .redisError else .ok rs, { s with store }.settle)
  | .multi cs, .lost applied =>
    some (.error .redisError, if applied then { s with store := (Redis.execAll s.now cs s.store).2 }.settle else s)
  | .scan pattern, .page left keys =>
    if s.allows pattern (s.matching pattern) left keys then
      some (.ok ⟨s.cursors, left, keys⟩, { s with
        cursors := s.cursors + 1
        scans := Function.update s.scans s.cursors ((s.matching pattern).filter (· ∉ keys)) })
    else none
  | .scan _, .lost _ => some (.error .redisError, s)
  | .scanNext pattern cursor left, .page _ keys =>
    if s.allows pattern (s.scans cursor) left keys then
      some (.ok keys, { s with scans := Function.update s.scans cursor ((s.scans cursor).filter (· ∉ keys)) })
    else none
  | .scanNext _ _ _, .lost _ => some (.error .redisError, s)
  | .embed text, .ok => some (.ok (embedder text), s)
  | .embed _, .fails => some (.error .embedderError, s)
  | .uuid, .id uuid =>
    if isUuidHex uuid && uuid ∉ s.drawn then some (.ok uuid, { s with drawn := uuid :: s.drawn }) else none
  | .clock, .time q => some (.ok q, s)
  | .search ns _, .doc found =>
    if found.all fun d => s.tagged ns d.1 then some (.ok found, s) else none
  | .search _ _, .lost _ => some (.error .redisError, s)
  | _, _ => none

/-- Any calls on any replicas; Redis' clock moves on by itself. -/
def system (cache : SemanticCache) : System where
  Op := Op
  Reply := Op.Reply
  Exn := Exn
  Result := Result
  State := State
  Call := Call
  Choice := Choice
  Env := Nat
  body
    | .lookup tenantId request => .found <$> cache.lookup tenantId request
    | .store tenantId request completion => (fun _ => .stored) <$> cache.store tenantId request completion
    | .purgeTenant tenantId => .deleted <$> cache.purgeTenant tenantId
    | .purgeAll => .deleted <$> cache.purgeAll
  admits _ _ := true
  exec := exec cache.embedder
  env ms s := some { s with now := s.now + ms }.settle
  place _ := 0
  sync _ := false
  mortal _ := true

abbrev Pool (cache : SemanticCache) := (system cache).World

/-- An empty Redis, and nobody at work. -/
def emptyPool (cache : SemanticCache) : Pool cache := { state := ({} : State) }

end NexusGate.Cache
