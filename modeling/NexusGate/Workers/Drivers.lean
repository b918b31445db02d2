import NexusGate.Workers.Service

/-! # What runs a job

The task `ingest_document` of `app/workers/celery_app.py` and `InlineJobQueue._run` of `app/workers/queue.py`, which
call `execute` again when it asks for a retry. Celery counts the retries in the message itself, and a copy of a message
stays with the broker until a worker is done with it: when the worker is lost, or takes too long, the copy is delivered
again as it is. The inline queue counts in its loop, and its tasks live and die with the process. -/

namespace NexusGate.Workers
open Async Redis Rag

/-- The arguments of a task, and `request.retries`. -/
structure Message where
  tenantId : String
  jobId : String
  payloadId : String
  retries : Nat := 0
  deriving DecidableEq

/-- The job that a message is about. -/
def Message.job (m : Message) : String × String := (m.tenantId, m.jobId)

inductive DriverKind
  | celery
  | inline
  deriving DecidableEq

/-- A deployment: the service, what runs its jobs, and `job_retry_backoff_seconds`. The settings are validated to be
    positive. -/
structure Driver where
  kind : DriverKind
  service : IngestionJobService
  backoff : ℚ
  attempts_pos : 0 < service.maxAttempts
  retention_pos : 0 < service.jobs.retention

/-- How a task ends that does not raise: with what `execute` returned, with a retry, after an exception that the inline
    queue logs, or with the last iteration of its loop. -/
inductive Outcome
  | ran (job : Option IngestJob)
  | retried (m : Message)
  | crashed
  | exhausted

/-! ## Operations -/

inductive DriverOp
  | job (e : Op)
  /-- A message is published, to be delivered when the countdown is over. -/
  | publish (m : Message) (countdown : ℚ)
  /-- The broker, or the set of tasks, lets go of this copy. -/
  | settle (tag : Nat)
  | sleep (seconds : ℚ)

abbrev DriverOp.Reply : DriverOp → Type
  | .job e => e.Reply
  | .publish _ _ | .settle _ | .sleep _ => Unit

abbrev DriverProgram := Prog DriverOp DriverOp.Reply Exn

/-- A coroutine of the service. -/
def ofJob {α : Type} : Program α → DriverProgram α
  | .ret a => .ret a
  | .throw x => .throw x
  | .op e k => .op (.job e) fun r => ofJob (k r)

namespace Driver
variable (self : Driver)

/-- `max_retries` of the task. -/
def maxRetries : Int := self.service.maxAttempts - 1

/-- `self.retry(exc=e, countdown=countdown)`. -/
def retry (m : Message) (e : Exn) (countdown : ℚ) : DriverProgram Outcome := do
  if (m.retries : Int) + 1 > self.maxRetries then .throw e
  else
    let m' := { m with retries := m.retries + 1 }
    let _ ← Prog.call (DriverOp.publish m' countdown)
    return .retried m'

/-- `execute`, for the job of a message. -/
def execute (m : Message) : DriverProgram (Option IngestJob) :=
  ofJob (self.service.execute m.tenantId m.jobId m.payloadId)

/-- `ingest_document`. -/
def ingestDocument (m : Message) : DriverProgram Outcome := do
  match ← (self.execute m).attempt with
  | .ok job => return .ran job
  | .error (.transientJob text) => self.retry m (.transientJob text) (self.backoff * 2 ^ m.retries)
  | .error e => .throw e

/-- The iterations of `_run` that are left, from the one with this `attempt` on. -/
def loop (m : Message) : Nat → Nat → DriverProgram Outcome
  | 0, _ => return .exhausted
  | n + 1, attempt => do
    match ← (self.execute m).attempt with
    | .ok job => return .ran job
    | .error (.transientJob _) =>
      let _ ← Prog.call (DriverOp.sleep (self.backoff * 2 ^ (attempt - 1)))
      loop m n (attempt + 1)
    | .error _ => return .crashed

/-- `_run`. -/
def runInline (m : Message) : DriverProgram Outcome := self.loop m self.service.maxAttempts.toNat 1

def task (m : Message) : DriverProgram Outcome :=
  match self.kind with
  | .celery => self.ingestDocument m
  | .inline => self.runInline m

/-- One delivery: the copy is let go of once the task has ended, in whatever way (`task_acks_late`). -/
def deliver (tag : Nat) (m : Message) : DriverProgram Outcome := do
  let r ← (self.task m).attempt
  let _ ← Prog.call (DriverOp.settle tag)
  Prog.ofExcept r

end Driver

/-! ## The pool -/

inductive DriverCall
  | submit (tenantId : String) (upload : DocumentUpload) (requestId : Option String)
  | run (tag : Nat) (m : Message)

/-- What Redis and the rest hold, and the copies of messages that are not settled. -/
structure Backend where
  jobs : State := {}
  copies : Nat → Option Message := fun _ => none
  /-- Tags from here on have not been used. -/
  next : Nat := 0

/-- A copy of `m` with a tag of its own. -/
def Backend.put (s : Backend) (m : Message) : Backend :=
  { s with copies := Function.update s.copies s.next (some m), next := s.next + 1 }

def Backend.settle (s : Backend) (tag : Nat) : Backend := { s with copies := Function.update s.copies tag none }

def driverExec (op : DriverOp) (choice : Choice) (s : Backend) : Option (Except Exn op.Reply × Backend) :=
  match op with
  | .job (.enqueue job payloadId) =>
    (exec (.enqueue job payloadId) choice s.jobs).map fun (r, jobs) =>
      (r, if jobs.messages = s.jobs.messages then { s with jobs }
        else { s with jobs }.put { tenantId := job.tenantId, jobId := job.jobId, payloadId })
  | .job e => (exec e choice s.jobs).map fun (r, jobs) => (r, { s with jobs })
  | .publish m _ => some (.ok (), s.put m)
  | .settle tag => some (.ok (), s.settle tag)
  | .sleep _ => some (.ok (), s)

inductive DriverEnv
  | wait (ms : Nat)
  /-- The broker takes a copy for lost, and has another delivered. -/
  | redeliver (tag : Nat)

/-- Uploads, and deliveries of the copies. A worker of Celery can die at every await; the inline queue has one process,
    and nothing that would deliver a job again. -/
def Driver.system (self : Driver) : System where
  Op := DriverOp
  Reply := DriverOp.Reply
  Exn := Exn
  Result := Outcome
  State := Backend
  Call := DriverCall
  Choice := Choice
  Env := DriverEnv
  body
    | .submit tenantId upload requestId => ofJob (self.service.submit tenantId upload requestId) >>= fun job => return .ran job
    | .run tag m => self.deliver tag m
  admits s
    | .submit _ _ _ => true
    | .run tag m => s.copies tag = some m
  exec := driverExec
  env
    | .wait ms, s => some { s with jobs := { s.jobs with now := s.jobs.now + ms } }
    | .redeliver tag, s => if self.kind = .celery then (s.copies tag).map s.put else none
  place _ := 0
  sync _ := false
  mortal
    | .submit _ _ _ => true
    | .run _ _ => self.kind = .celery

end NexusGate.Workers
