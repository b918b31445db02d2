import NexusGate.Async.Pool
import NexusGate.Workers.Jobs

/-! # Submitting and running ingestion jobs

`IngestionJobService` of `app/workers/service.py`, and the pool of everything that calls it: uploads that
submit a job, and deliveries of a job's message, any number of them and any number of times
(`task_acks_late`, `task_reject_on_worker_lost` and retries all hand the same message out again). A Redis
call can fail with or without having taken effect, and a worker can die at every await. -/

namespace NexusGate.Workers
open Async Redis Rag

/-- `isinstance(e, PERMANENT_ERRORS)`. -/
def Exn.permanent : Exn → Bool
  | .unsupportedDocument _ | .emptyDocument _ | .documentTooLarge _ => true
  | _ => false

/-- `f"{type(e).__name__}: {e}"`. -/
def Exn.describe : Exn → String
  | .unsupportedDocument text => "UnsupportedDocumentError: " ++ text
  | .emptyDocument text => "EmptyDocumentError: " ++ text
  | .documentTooLarge text => "DocumentTooLargeError: " ++ text
  | .transientJob text => "TransientJobError: " ++ text
  | .other typeName text => typeName ++ ": " ++ text

structure IngestionJobService where
  jobs : JobStore
  payloads : PayloadStore
  deadLetters : DeadLetterQueue
  maxAttempts : Int

namespace IngestionJobService

def submit (self : IngestionJobService) (tenantId : String) (upload : DocumentUpload) (requestId : Option String) :
    Program IngestJob := do
  let payloadId ← self.payloads.put upload.data
  let jobId ← uuid4
  let now ← utcnow
  let job ← self.jobs.save {
    jobId, tenantId, filename := upload.filename, contentType := upload.contentType, title := upload.title
    sizeBytes := upload.data.length, requestId, createdAt := now, updatedAt := now }
  self.jobs.count "submitted"
  Prog.call (Op.enqueue job payloadId)
  return job

/-- `_fail`. -/
def fail (self : IngestionJobService) (job : IngestJob) (error : String) (retryable : Bool) : Program IngestJob := do
  let job ← self.jobs.save { job with status := .failed, error := some error, retryable := some retryable }
  self.jobs.count "failed"
  self.deadLetters.push job
  return job

/-- What `execute` does once the document is ingested. -/
def finish (self : IngestionJobService) (job : IngestJob) (payloadId : String) (record : DocumentRecord)
    (started : ℚ) : Program IngestJob := do
  self.payloads.delete payloadId
  let job ← self.jobs.save { job with
    status := .done, docId := some record.docId, chunks := some record.chunks, error := none, retryable := none }
  self.jobs.count "done"
  let finished ← perfCounter
  self.jobs.addDuration (finished - started)
  return job

/-- What `execute` does with an exception of `ingest`. -/
def handle (self : IngestionJobService) (job : IngestJob) (attempt : Int) (e : Exn) : Program IngestJob := do
  if e.permanent then
    self.fail job e.describe false
  else if attempt ≥ self.maxAttempts then
    self.fail job e.describe true
  else
    let _ ← self.jobs.save { job with status := .queued, error := some e.describe }
    self.jobs.count "retried"
    .throw (.transientJob e.describe)

/-- Run one attempt. -/
def execute (self : IngestionJobService) (tenantId jobId payloadId : String) : Program (Option IngestJob) := do
  match ← self.jobs.get tenantId jobId with
  | none => return none
  | some job =>
    let attempt ← self.jobs.startAttempt tenantId jobId
    if attempt > self.maxAttempts then
      some <$> self.fail job ("job was delivered " ++ toString attempt ++ " times without completing; " ++
        "it may be killing its worker") false
    else
      let job ← self.jobs.save { job with status := .processing, attempts := attempt }
      match ← self.payloads.get payloadId with
      | none => some <$> self.fail job "uploaded file expired before a worker picked it up" false
      | some data =>
        let started ← perfCounter
        let outcome ← (Prog.call (Op.ingest tenantId {
          filename := job.filename, contentType := job.contentType, data, title := job.title }) :
          Program DocumentRecord).attempt
        match outcome with
        | .error e => some <$> self.handle job attempt e
        | .ok record => some <$> self.finish job payloadId record started

end IngestionJobService

/-! ## The pool -/

inductive Call
  | submit (tenantId : String) (upload : DocumentUpload) (requestId : Option String)
  | execute (tenantId jobId payloadId : String)
  deriving DecidableEq

/-- What the environment decides at an operation. -/
inductive Choice
  /-- The command is carried out and its reply arrives. -/
  | ok
  /-- The connection is lost, before or after the command took effect. -/
  | lost (applied : Bool)
  | id (uuid : String)
  | time (ms : Nat)
  | seconds (q : ℚ)
  | ingested (record : DocumentRecord)
  | raises (e : Exn)

structure State where
  now : Nat := 0
  store : Store Blob := ∅
  /-- The ids that `uuid4` has given out. -/
  drawn : List String := []
  /-- The messages that were enqueued: tenant, job and payload. -/
  messages : List (String × String × String) := []

/-- `uuid4().hex`: 32 lower-case hexadecimal digits. -/
def isUuidHex (s : String) : Bool := s.length == 32 && s.toList.all fun c => c.isDigit || ('a' ≤ c && c ≤ 'f')

def Reply.failed : Redis.Reply Blob → Bool
  | .error => true
  | _ => false

@[grind =] def exec (op : Op) (choice : Choice) (s : State) : Option (Except Exn op.Reply × State) :=
  match op, choice with
  | .redis c, .ok =>
    let (r, store) := Redis.exec s.now c s.store
    some (if Reply.failed r then .error responseError else .ok r, { s with store })
  | .redis c, .lost applied =>
    some (.error connectionError, if applied then { s with store := (Redis.exec s.now c s.store).2 } else s)
  | .multi cs, .ok =>
    let (rs, store) := Redis.execAll s.now cs s.store
    some (if rs.any Reply.failed then .error responseError else .ok rs, { s with store })
  | .multi cs, .lost applied =>
    some (.error connectionError, if applied then { s with store := (Redis.execAll s.now cs s.store).2 } else s)
  | .uuid, .id uuid =>
    if isUuidHex uuid && uuid ∉ s.drawn then some (.ok uuid, { s with drawn := uuid :: s.drawn }) else none
  | .utcnow, .time ms => some (.ok ms, s)
  | .perfCounter, .seconds q => some (.ok q, s)
  | .enqueue job payloadId, .ok =>
    some (.ok (), { s with messages := (job.tenantId, job.jobId, payloadId) :: s.messages })
  | .enqueue job payloadId, .lost applied =>
    some (.error connectionError,
      if applied then { s with messages := (job.tenantId, job.jobId, payloadId) :: s.messages } else s)
  | .ingest _ _, .ingested record => some (.ok record, s)
  | .ingest _ _, .raises e => some (.error e, s)
  | _, _ => none

/-- Uploads, and deliveries of every enqueued message; the server's clock moves on by itself. -/
def system (service : IngestionJobService) : System where
  Op := Op
  Reply := Op.Reply
  Exn := Exn
  Result := Option IngestJob
  State := State
  Call := Call
  Choice := Choice
  Env := Nat
  body
    | .submit tenantId upload requestId => some <$> service.submit tenantId upload requestId
    | .execute tenantId jobId payloadId => service.execute tenantId jobId payloadId
  admits s
    | .submit _ _ _ => true
    | .execute tenantId jobId payloadId => (tenantId, jobId, payloadId) ∈ s.messages
  exec := exec
  env ms s := some { s with now := s.now + ms }
  place _ := 0
  sync _ := false
  mortal _ := true

end NexusGate.Workers
