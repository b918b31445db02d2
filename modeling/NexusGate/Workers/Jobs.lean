import NexusGate.Async.Prog
import NexusGate.Rag.Documents
import NexusGate.Redis.Store

/-! # Ingestion job records, payloads and the dead-letter queue

`app/workers/jobs.py` and `app/workers/payloads.py`: which Redis commands each method sends, under which
keys. A stored JSON text is modelled by the value it was dumped from (`Blob`), so that validating it
succeeds exactly on the dump of a record of that kind. -/

namespace NexusGate.Workers
open Async Redis Rag

inductive JobStatus
  | queued
  | processing
  | done
  | failed
  deriving DecidableEq, Repr

def JobStatus.terminal : JobStatus → Bool
  | .done | .failed => true
  | .queued | .processing => false

structure IngestJob where
  jobId : String
  tenantId : String
  filename : String
  contentType : Option String := none
  title : Option String := none
  sizeBytes : Nat := 0
  status : JobStatus := .queued
  attempts : Int := 0
  docId : Option String := none
  chunks : Option Nat := none
  error : Option String := none
  retryable : Option Bool := none
  requestId : Option String := none
  createdAt : Nat
  updatedAt : Nat
  deriving DecidableEq, Repr

/-- What a Redis string or hash field holds. -/
inductive Blob
  | int (n : Int)
  | rat (q : ℚ)
  | bytes (data : Bytes)
  | job (job : IngestJob)
  deriving DecidableEq

instance : Payload Blob where
  ofInt := .int
  int? := fun | .int n => some n | _ => none
  ofRat := .rat
  rat? := fun | .rat q => some q | .int n => some n | _ => none

/-- What the code can raise here. The first three are the permanent errors. -/
inductive Exn
  | unsupportedDocument (text : String)
  | emptyDocument (text : String)
  | documentTooLarge (text : String)
  | transientJob (text : String)
  | other (typeName text : String)
  deriving DecidableEq, Repr

def validationError : Exn := .other "ValidationError" "not a job record"

def responseError : Exn := .other "ResponseError" "the command failed"

def connectionError : Exn := .other "ConnectionError" "the connection was lost"

/-! ## Operations -/

/-- Where a worker hands control to its surroundings. -/
inductive Op
  | redis (c : Cmd Blob)
  | multi (cs : List (Cmd Blob))
  | uuid
  | utcnow
  | perfCounter
  | enqueue (job : IngestJob) (payloadId : String)
  | ingest (tenantId : String) (upload : DocumentUpload)

abbrev Op.Reply : Op → Type
  | .redis _ => Redis.Reply Blob
  | .multi _ => List (Redis.Reply Blob)
  | .uuid => String
  | .utcnow => Nat
  | .perfCounter => ℚ
  | .enqueue _ _ => Unit
  | .ingest _ _ => DocumentRecord

abbrev Program := Prog Op Op.Reply Exn

def redis (c : Cmd Blob) : Program (Redis.Reply Blob) := .call (Op.redis c)

def multi (cs : List (Cmd Blob)) : Program (List (Redis.Reply Blob)) := .call (Op.multi cs)

def uuid4 : Program String := .call Op.uuid

def utcnow : Program Nat := .call Op.utcnow

def perfCounter : Program ℚ := .call Op.perfCounter

/-! ## Keys -/

def dlqKey : String := "ragjobs:dlq"

def statsKey : String := "ragjobs:stats"

def sequenceKey : String := "ragjobs:seq"

def jobKey (tenantId jobId : String) : String := "ragjob:" ++ tenantId ++ ":" ++ jobId

def indexKey (tenantId : String) : String := "ragjobs:" ++ tenantId

def attemptsKey (tenantId jobId : String) : String := jobKey tenantId jobId ++ ":attempts"

def payloadKey (payloadId : String) : String := "ragupload:" ++ payloadId

/-! ## `JobStore` -/

structure JobStore where
  retention : Nat

namespace JobStore

/-- The commands of the transaction in `save`. -/
def saveCmds (self : JobStore) (job : IngestJob) (sequence : Int) : List (Cmd Blob) :=
  [.set (jobKey job.tenantId job.jobId) (.job job) (some self.retention) false,
   .zadd (indexKey job.tenantId) [(job.jobId, sequence)] true,
   .expire (indexKey job.tenantId) self.retention]

/-- Store the record and return it as stored: `save` stamps `updated_at` on the caller's object. -/
def save (self : JobStore) (job : IngestJob) : Program IngestJob := do
  let now ← utcnow
  let job := { job with updatedAt := now }
  match ← redis (.incr sequenceKey) with
  | .int sequence =>
    let _ ← multi (self.saveCmds job sequence)
    return job
  | _ => .throw responseError

def get (_self : JobStore) (tenantId jobId : String) : Program (Option IngestJob) := do
  match ← redis (.get (jobKey tenantId jobId)) with
  | .bulk (.job job) => return some job
  | .bulk _ => .throw validationError
  | _ => return none

/-- Count this delivery and return the attempt number. -/
def startAttempt (self : JobStore) (tenantId jobId : String) : Program Int := do
  let key := attemptsKey tenantId jobId
  match ← multi [.incr key, .expire key self.retention] with
  | .int attempt :: _ => return attempt
  | _ => .throw responseError

def count (_self : JobStore) (outcome : String) : Program Unit := do
  let _ ← redis (.hincrby statsKey outcome 1)

def addDuration (_self : JobStore) (seconds : ℚ) : Program Unit := do
  let _ ← redis (.hincrbyfloat statsKey "duration_seconds" seconds)

end JobStore

/-! ## `DeadLetterQueue` and `PayloadStore` -/

structure DeadLetterQueue where
  maxEntries : Nat := 1000

def DeadLetterQueue.push (self : DeadLetterQueue) (job : IngestJob) : Program Unit := do
  let _ ← multi [.lpush dlqKey (.job job), .ltrim dlqKey 0 (self.maxEntries - 1)]

structure PayloadStore where
  ttl : Nat

namespace PayloadStore

def put (self : PayloadStore) (data : Bytes) : Program String := do
  let payloadId ← uuid4
  let _ ← redis (.set (payloadKey payloadId) (.bytes data) (some self.ttl) false)
  return payloadId

def get (_self : PayloadStore) (payloadId : String) : Program (Option Bytes) := do
  match ← redis (.get (payloadKey payloadId)) with
  | .bulk (.bytes data) => return some data
  | _ => return none

def delete (_self : PayloadStore) (payloadId : String) : Program Unit := do
  let _ ← redis (.del [payloadKey payloadId])

end PayloadStore
end NexusGate.Workers
