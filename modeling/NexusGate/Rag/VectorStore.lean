import Mathlib.Data.Rat.Defs
import NexusGate.Async.Pool
import NexusGate.Qdrant.Collection
import NexusGate.Rag.Chunking
import NexusGate.Text.Separator

/-! # The chunk store

`QdrantChunkStore` of `app/rag/vector_store.py`: one collection for all tenants, in which every point carries the
id of its tenant, and every read and delete a filter for it. Which points a query ranks how high is up to Qdrant, and
so is whether a request comes through; `D` is what a dense embedding is made of. -/

namespace NexusGate.Rag
open Async Qdrant

/-- Term ids with their weights. -/
abbrev SparseTerms := List (Nat × ℚ)

def isHexDigit (c : Char) : Bool := c.isDigit || ('a' ≤ c && c ≤ 'f')

/-- What `document_id` makes of a file: 24 hexadecimal digits. -/
structure DocumentId where
  hex : String
  length : hex.length = 24
  digits : hex.toList.all isHexDigit = true

/-! ## Points and filters -/

structure Payload where
  tenantId : String
  docId : String
  chunkIndex : Nat
  text : String
  title : String
  page : Option Nat
  heading : Option String
  deriving DecidableEq

structure Point (D : Type) where
  dense : D
  lexical : Option SparseTerms
  payload : Payload

/-- The payload fields that filters ask for. -/
inductive Field
  | tenantId
  | docId

def Payload.field (p : Payload) : Field → String
  | .tenantId => p.tenantId
  | .docId => p.docId

structure FieldCondition where
  key : Field
  value : String

abbrev Filter := List FieldCondition

def Filter.accepts (f : Filter) (p : Payload) : Bool := f.all fun c => p.field c.key == c.value

/-- `_tenant_filter`. -/
def tenantFilter (tenantId : String) (docId : Option String := none) : Filter :=
  { key := .tenantId, value := tenantId } :: docId.toList.map fun docId => { key := .docId, value := docId }

/-- The text that `point_id` hashes. -/
def pointName (tenantId docId : String) (chunkIndex : Nat) : String :=
  tenantId ++ "/" ++ docId ++ "/" ++ toString chunkIndex

structure Prefetch where
  filter : Filter
  limit : Nat

structure Query where
  prefetch : List Prefetch := []
  filter : Filter
  limit : Nat

structure Hit (D : Type) where
  id : String
  point : Point D
  score : ℚ

structure StoredChunk where
  docId : String
  chunkIndex : Nat
  text : String
  title : String
  page : Option Nat
  heading : Option String
  score : ℚ
  deriving DecidableEq

/-- `_stored`. -/
def stored {D : Type} (hit : Hit D) : StoredChunk where
  docId := hit.point.payload.docId
  chunkIndex := hit.point.payload.chunkIndex
  text := hit.point.payload.text
  title := hit.point.payload.title
  page := hit.point.payload.page
  heading := hit.point.payload.heading
  score := hit.score

/-! ## The client -/

/-- A hit is accepted by the filter of the query, and by that of one of the halves it is fused from. -/
def Query.accepts (q : Query) (p : Payload) : Bool :=
  q.filter.accepts p && (q.prefetch.isEmpty || q.prefetch.any fun half => half.filter.accepts p)

/-- What Qdrant answers if it ranks the points in this order: as many as it was asked for. -/
def Query.answer {D : Type} (q : Query) (c : Collection String (Point D)) (ranking : List (String × ℚ)) : List (Hit D) :=
  (ranking.filterMap fun (id, score) =>
    ((c id).filter fun p => q.accepts p.payload).map fun point => { id, point, score }).take q.limit

inductive Exn
  | unavailable
  | value (message : String)
  deriving DecidableEq

inductive Op (D : Type)
  | delete (f : Filter)
  | upsert (points : List (String × Point D))
  | queryPoints (q : Query)

abbrev Op.Reply {D : Type} : Op D → Type
  | .delete _ | .upsert _ => Unit
  | .queryPoints _ => List (Hit D)

/-- How Qdrant answers; a request that fails may have been carried out all the same. -/
inductive Choice
  | done
  | ranked (ranking : List (String × ℚ))
  | failed (carriedOut : Bool)

/-- What an operation does to the collection. -/
def Op.effect {D : Type} : Op D → Collection String (Point D) → Collection String (Point D)
  | .delete f, c => Qdrant.delete (fun p => f.accepts p.payload) c
  | .upsert points, c => Qdrant.upsert points c
  | .queryPoints _, c => c

def execQdrant {D : Type} (e : Op D) (choice : Choice) (c : Collection String (Point D)) :
    Option (Except Exn e.Reply × Collection String (Point D)) :=
  match e, choice with
  | .delete f, .done => some (.ok (), (Op.delete f : Op D).effect c)
  | .upsert points, .done => some (.ok (), (Op.upsert points).effect c)
  | .queryPoints q, .ranked ranking => some (.ok (q.answer c ranking), c)
  | e, .failed carriedOut => some (.error .unavailable, if carriedOut then e.effect c else c)
  | _, _ => none

/-! ## The store -/

/-- `uuid5` is the hash of a name in the namespace of the points, and `documentTerms` and `queryTerms` are those of
    `app/rag/lexical.py`. -/
structure QdrantChunkStore where
  lexical : Bool
  uuid5 : String → String
  documentTerms : String → SparseTerms
  queryTerms : String → SparseTerms

def prefetchFloor : Nat := 20

abbrev Program (D α : Type) := Prog (Op D) Op.Reply Exn α

namespace QdrantChunkStore
variable {D : Type} (self : QdrantChunkStore)

def pointId (tenantId docId : String) (chunkIndex : Nat) : String := self.uuid5 (pointName tenantId docId chunkIndex)

def payload (tenantId docId title : String) (c : Chunk) : Payload where
  tenantId := tenantId
  docId := docId
  chunkIndex := c.index
  text := c.text
  title := title
  page := c.page
  heading := c.heading

/-- The point of a chunk, with one vector or two (`_vectors`). -/
def point (tenantId docId title : String) (c : Chunk) (vec : D) : String × Point D :=
  (self.pointId tenantId docId c.index,
    { dense := vec
      lexical := if self.lexical then some (self.documentTerms c.text) else none
      payload := payload tenantId docId title c })

def deleteDocument (tenantId docId : String) : Program D Unit := Prog.call (Op.delete (tenantFilter tenantId (some docId)))

/-- `zip(chunks, vectors, strict=True)`. -/
def zipStrict {α β : Type} (xs : List α) (ys : List β) : Except Exn (List (α × β)) :=
  if ys.length < xs.length then .error (.value "zip() argument 2 is shorter than argument 1")
  else if xs.length < ys.length then .error (.value "zip() argument 2 is longer than argument 1")
  else .ok (xs.zip ys)

def upsertAll : List (List (String × Point D)) → Program D Unit
  | [] => return
  | batch :: rest => do
    Prog.call (Op.upsert batch)
    upsertAll rest

def replaceDocument (tenantId docId title : String) (chunks : List Chunk) (vectors : List D) : Program D Unit := do
  deleteDocument tenantId docId
  let pairs ← Prog.ofExcept (zipStrict chunks vectors)
  upsertAll (slices 256 (pairs.map fun x => self.point tenantId docId title x.1 x.2))

def search (tenantId : String) (limit : Nat) : Program D (List StoredChunk) := do
  let hits ← Prog.call (Op.queryPoints { filter := tenantFilter tenantId, limit })
  return hits.map stored

def hybridSearch (tenantId query : String) (limit : Nat) : Program D (List StoredChunk) :=
  if self.lexical then do
    let half : Prefetch := { filter := tenantFilter tenantId, limit := max limit prefetchFloor }
    let prefetch := if self.queryTerms query = [] then [half] else [half, half]
    let hits ← Prog.call (Op.queryPoints { prefetch, filter := tenantFilter tenantId, limit })
    return hits.map stored
  else search tenantId limit

/-! ## Any number of calls -/

inductive Call (D : Type)
  | replaceDocument (tenantId : String) (docId : DocumentId) (title : String) (chunks : List Chunk) (vectors : List D)
  | deleteDocument (tenantId docId : String)
  | search (tenantId : String) (limit : Nat)
  | hybridSearch (tenantId query : String) (limit : Nat)

def Call.tenantId : Call D → String
  | .replaceDocument t _ _ _ _ | .deleteDocument t _ | .search t _ | .hybridSearch t _ _ => t

inductive Result
  | done
  | found (chunks : List StoredChunk)

def body : Call D → Program D Result
  | .replaceDocument t docId title chunks vectors => (fun _ => .done) <$> self.replaceDocument t docId.hex title chunks vectors
  | .deleteDocument t docId => (fun _ => .done) <$> deleteDocument t docId
  | .search t limit => .found <$> search t limit
  | .hybridSearch t query limit => .found <$> self.hybridSearch t query limit

/-- The calls of all replicas, whose processes may die under them. -/
def system (D : Type) (self : QdrantChunkStore) : System where
  Op := Op D
  Reply := Op.Reply
  Exn := Exn
  Result := Result
  State := Collection String (Point D)
  Call := Call D
  Choice := Choice
  Env := Empty
  body := self.body
  admits _ _ := true
  exec := execQdrant
  env := nofun
  place _ := 0
  sync _ := false
  mortal _ := true

/-- A new collection. -/
def fresh (D : Type) (self : QdrantChunkStore) : (self.system D).World where
  state _ := none

end QdrantChunkStore
end NexusGate.Rag
