import NexusGate.Api.Admin
import NexusGate.Async.Eval
import NexusGate.Rag.Documents
import NexusGate.Rag.Ingestion
import NexusGate.Rag.VectorStore
import NexusGate.Redis.Store
import NexusGate.Text.Lines

/-! # The ingestion service

`IngestionService` of `app/rag/ingestion.py` and `DocumentRegistry` of `app/rag/documents.py`: the requests that go to the
chunk store and to Redis, one after the other, and the pool of all calls on the documents. Parsing, embedding and hashing are
parameters; a stored record is modelled by the record. -/

namespace NexusGate.Rag.Ingest
open Async Redis Text

/-- `Chunker.chunk`, which numbers the chunks from 0 on. -/
structure Chunker where
  chunk : List Section → String → List Chunk
  numbered : ∀ sections title, Numbered (chunk sections title)

inductive ChunkStrategy
  | fixed
  | sentence
  | structured
  deriving DecidableEq

/-- `build_chunker`. -/
def buildChunker (strategy : ChunkStrategy) (maxWords overlapWords : Nat) (positive : 0 < maxWords)
    (fits : overlapWords < maxWords) : Chunker :=
  if strategy = .fixed then
    let chunker : FixedWindowChunker := { maxWords, overlapWords, positive, fits }
    { chunk := fun sections _ => chunker.chunk sections, numbered := fun sections _ => chunker.numbered sections }
  else
    let chunker : SentenceChunker := { maxWords, overlapWords, structured := strategy = .structured, positive, fits }
    { chunk := fun sections title => chunker.chunk sections (some title)
      numbered := fun sections title => chunker.numbered sections (some title) }

/-- What Redis holds: a record, or the number of a counter. -/
inductive Blob
  | record (r : DocumentRecord)
  | num (q : ℚ)
  deriving DecidableEq

instance : Redis.Payload Blob where
  ofInt n := .num n
  int? _ := none
  ofRat := .num
  rat? := fun | .num q => some q | _ => none

inductive Exn
  | documentTooLarge (text : String)
  | unparsable (text : String)
  | embedder
  | store (e : Rag.Exn)
  | redisError
  | valueError
  | indexError
  deriving DecidableEq

/-! ## Operations -/

inductive Op (D : Type)
  | parse (upload : DocumentUpload)
  | embed (texts : List String)
  | qdrant (e : Rag.Op D)
  | redis (c : Cmd Blob)
  | multi (cs : List (Cmd Blob))
  | clock

abbrev Op.Reply {D : Type} : Op D → Type
  | .parse _ => List Section
  | .embed _ => List D
  | .qdrant e => e.Reply
  | .redis _ => Redis.Reply Blob
  | .multi _ => List (Redis.Reply Blob)
  | .clock => Nat

abbrev Program (D α : Type) := Prog (Op D) Op.Reply Exn α

/-- What the chunk store makes of an answer: its own exceptions it sees, the others pass through it. -/
def storeReply {ρ : Type} : Except Exn ρ → Except Exn (Except Rag.Exn ρ)
  | .ok a => .ok (.ok a)
  | .error (.store x) => .ok (.error x)
  | .error x => .error x

/-- A call of the chunk store. -/
def ofStore {D α : Type} : Rag.Program D α → Program D α
  | .ret a => .ret a
  | .throw x => .throw (.store x)
  | .op e k => .op (.qdrant e) fun r => (Prog.ofExcept (storeReply r)).bind fun r => ofStore (k r)

/-! ## `DocumentRegistry` -/

def recordKey (tenantId docId : String) : String := "ragdoc:" ++ tenantId ++ ":" ++ docId

def indexKey (tenantId : String) : String := "ragdocs:" ++ tenantId

namespace Registry
variable {D : Type}

/-- The score of the index is `created_at` in seconds. -/
def putCmds (tenantId : String) (record : DocumentRecord) : List (Cmd Blob) :=
  [.set (recordKey tenantId record.docId) (.record record) none false,
    .zadd (indexKey tenantId) [(record.docId, (record.createdAt : ℚ) / 1000)] false]

def put (tenantId : String) (record : DocumentRecord) : Program D Unit := do
  let _ ← Prog.call (Op.multi (putCmds tenantId record))

def get (tenantId docId : String) : Program D (Option DocumentRecord) := do
  match ← Prog.call (Op.redis (.get (recordKey tenantId docId))) with
  | .nil => return none
  | .bulk (.record r) => return some r
  | _ => .throw .valueError

/-- The records among the answers of `MGET`. -/
def records : List (Option Blob) → Except Exn (List DocumentRecord)
  | [] => .ok []
  | none :: bs => records bs
  | some (.record r) :: bs => (records bs).map (r :: ·)
  | some (.num _) :: _ => .error .valueError

def list (tenantId : String) : Program D (List DocumentRecord) := do
  match ← Prog.call (Op.redis (.zrevrange (indexKey tenantId) 0 (-1))) with
  | .strings [] => return []
  | .strings docIds =>
    match ← Prog.call (Op.redis (.mget (docIds.map (recordKey tenantId)))) with
    | .bulks raws => Prog.ofExcept (records raws)
    | _ => .throw .redisError
  | _ => .throw .redisError

def deleteCmds (tenantId docId : String) : List (Cmd Blob) :=
  [.del [recordKey tenantId docId], .zrem (indexKey tenantId) [docId]]

def delete (tenantId docId : String) : Program D Bool := do
  match ← Prog.call (Op.multi (deleteCmds tenantId docId)) with
  | [.int n, _] => return n != 0
  | _ => .throw .redisError

end Registry

/-! ## `IngestionService` -/

/-- `parse` is `parse_document`, `stem` is `PurePath(filename).stem`, and `documentId` the beginning of the SHA-256 of the
    bytes. -/
structure IngestionService (D : Type) where
  store : QdrantChunkStore
  parse : DocumentUpload → Except String (List Section)
  stem : String → String
  documentId : Bytes → DocumentId
  embed : String → D
  chunker : Chunker
  chunkerName : String
  maxBytes : Nat

namespace IngestionService
variable {D : Type} (self : IngestionService D)

/-- The service in a process that was configured with another chunker. -/
def withChunker (chunker : Chunker) : IngestionService D := { self with chunker }

/-- The title of an upload. -/
def title (upload : DocumentUpload) (sections : List Section) : Except Exn String :=
  let given := stripped (upload.title.getD "")
  if given ≠ "" then .ok given
  else match sections with
    | [] => .error .indexError
    | s :: _ => .ok (inferTitle s.text (self.stem upload.filename))

def record (upload : DocumentUpload) (title : String) (sections : List Section) (chunks : List Chunk) (now : Nat) :
    DocumentRecord where
  docId := (self.documentId upload.data).hex
  title
  filename := upload.filename
  contentType := upload.contentType
  sizeBytes := upload.data.length
  pages := (sections.filterMap Section.page).max?
  chunks := chunks.length
  chunker := self.chunkerName
  createdAt := now

def ingest (tenantId : String) (upload : DocumentUpload) : Program D DocumentRecord := do
  if self.maxBytes < upload.data.length then
    .throw (.documentTooLarge ("document exceeds " ++ toString self.maxBytes ++ " bytes"))
  else
    let sections ← Prog.call (Op.parse upload)
    let title ← Prog.ofExcept (self.title upload sections)
    let docId := self.documentId upload.data
    let chunks := self.chunker.chunk sections title
    let vectors ← Prog.call (Op.embed (chunks.map Chunk.text))
    ofStore (self.store.replaceDocument tenantId docId.hex title chunks vectors)
    let now ← Prog.call Op.clock
    let record := self.record upload title sections chunks now
    Registry.put tenantId record
    return record

def delete (_self : IngestionService D) (tenantId docId : String) : Program D Bool := do
  match ← Registry.get tenantId docId with
  | none => return false
  | some _ =>
    ofStore (QdrantChunkStore.deleteDocument tenantId docId)
    Registry.delete tenantId docId

end IngestionService

/-! ## The pool -/

/-- A call of `ingest` comes with the chunker of the process that serves it. -/
inductive Call
  | ingest (chunker : Chunker) (tenantId : String) (upload : DocumentUpload)
  | delete (tenantId docId : String)
  | list (tenantId : String)

def Call.tenantId : Call → String
  | .ingest _ t _ | .delete t _ | .list t => t

inductive Result
  | ingested (record : DocumentRecord)
  | deleted (found : Bool)
  | listed (records : List DocumentRecord)

structure State (D : Type) where
  points : Qdrant.Collection String (Point D) := fun _ => none
  now : Nat := 0
  redis : Store Blob := ∅

/-- What the environment decides at an operation. -/
inductive Choice
  | done
  /-- The operation fails, after it was carried out or before. -/
  | failed (carriedOut : Bool)
  | time (now : Nat)

def failed : Redis.Reply Blob → Bool
  | .error => true
  | _ => false

variable {D : Type}

/-- What an operation does to the two stores. -/
def Op.effect : Op D → State D → State D
  | .qdrant e, s => { s with points := e.effect s.points }
  | .redis c, s => { s with redis := (Redis.exec s.now c s.redis).2 }
  | .multi cs, s => { s with redis := (Redis.execAll s.now cs s.redis).2 }
  | _, s => s

/-- What it is answered when it does not fail. -/
def Op.answer (self : IngestionService D) : (e : Op D) → State D → Except Exn e.Reply
  | .parse upload, _ => (self.parse upload).mapError .unparsable
  | .embed texts, _ => .ok (texts.map self.embed)
  | .qdrant (.delete _), _ | .qdrant (.upsert _), _ => .ok ()
  | .qdrant (.queryPoints q), s => .ok (q.answer s.points [])
  | .redis c, s => let r := (Redis.exec s.now c s.redis).1; if failed r then .error .redisError else .ok r
  | .multi cs, s => let rs := (Redis.execAll s.now cs s.redis).1; if rs.any failed then .error .redisError else .ok rs
  | .clock, s => .ok s.now

/-- How an operation fails. -/
def Op.failure : Op D → Exn
  | .parse _ => .unparsable ""
  | .embed _ => .embedder
  | .qdrant _ => .store .unavailable
  | .redis _ | .multi _ | .clock => .redisError

def exec (self : IngestionService D) (e : Op D) (choice : Choice) (s : State D) : Option (Except Exn e.Reply × State D) :=
  match e, choice with
  | .clock, .time now => some (.ok now, s)
  | .clock, _ => none
  | e, .done => some (e.answer self s, e.effect s)
  | e, .failed carriedOut => some (.error e.failure, if carriedOut then e.effect s else s)
  | _, .time _ => none

/-- All calls, of processes that may die under them; Redis' clock moves on by itself. Tenants are named as the admin API
    names them. -/
def system (self : IngestionService D) : System where
  Op := Op D
  Reply := Op.Reply
  Exn := Exn
  Result := Result
  State := State D
  Call := Call
  Choice := Choice
  Env := Nat
  body
    | .ingest chunker t upload => .ingested <$> (self.withChunker chunker).ingest t upload
    | .delete t docId => .deleted <$> self.delete t docId
    | .list t => .listed <$> Registry.list t
  admits _ c := Api.tenantPattern c.tenantId
  exec := exec self
  env ms s := some { s with now := s.now + ms }
  place _ := 0
  sync _ := false
  mortal _ := true

/-- Surroundings in which no request fails, and nobody else is at work. -/
def answering (self : IngestionService D) : Handler (Op D) Op.Reply Exn (State D) := fun e s => (e.answer self s, e.effect s)

abbrev Pool (self : IngestionService D) := (system self).World

/-- Two empty stores, and nobody at work. -/
def emptyPool (self : IngestionService D) : Pool self := { state := {} }

end NexusGate.Rag.Ingest
