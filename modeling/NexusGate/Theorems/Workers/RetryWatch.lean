import NexusGate.Theorems.Workers.Attempts
import NexusGate.Workers.Drivers

/-! # How far a task has come

A task is watched through the runs of `execute` that it makes: how many retries came before the one under way, which
attempt that one was given, and whether it has stored `QUEUED` to be run again, or an end of the job. -/

namespace NexusGate.Workers
open Async Async.System Redis Rag

/-! ### Operations that matter -/

/-- `INCR` is answered with a number, unless it fails. -/
def Op.counted : (e : Op) → Except Exn e.Reply → Bool
  | .redis (.incr _), .ok (.int _) => true
  | .redis (.incr _), _ => false
  | _, _ => true

/-- The answer of a store that can be reached; `ingest` may raise anything. -/
structure Answered (e : Op) (r : Except Exn e.Reply) : Prop where
  ok : e.isIngest = false → succeeded r = true
  counted : e.counted r = true

/-- An operation that neither begins an attempt nor stores a record, nor counts a retry. -/
structure Op.Work (e : Op) : Prop where
  saves : e.saves = none
  attempts : e.attempts = false
  retried : e.counts "retried" = false
  reads : ∀ t j, e ≠ .redis (.get (jobKey t j))

/-! ### Legs -/

/-- Where a delivery stands between two retries. -/
inductive Leg
  /-- `execute` is called next, after `k` retries. -/
  | ready (k : Nat)
  /-- The record was read. -/
  | begun (k : Nat)
  /-- Attempt `a` is under way. -/
  | working (k : Nat) (a : Int)
  /-- `QUEUED` was stored, for the job to be run again. -/
  | raised (k : Nat) (a : Int)
  /-- The job has ended, or another copy of the message carries it on. -/
  | closed

section Monitor
variable (service : IngestionJobService) (m : Message)

/-- Where a save leads. -/
def Leg.saved (k : Nat) (a : Int) (job : IngestJob) : Leg :=
  if job.status.terminal then .closed else if job.status = .queued then .raised k a else .working k a

/-- The attempts at the job of `m`, against a store that can be reached and keeps the job's keys. -/
def legMonitor : Monitor Op Op.Reply Exn Leg where
  may
    | .ready _, e => e = .redis (.get (jobKey m.tenantId m.jobId))
    | .begun _, e => e = .multi [.incr (attemptsKey m.tenantId m.jobId), .expire (attemptsKey m.tenantId m.jobId) service.jobs.retention]
    | .working _ a, e => e.Work ∨ ∃ job n, e = .multi (service.jobs.saveCmds job n) ∧ (job.tenantId, job.jobId) = m.job ∧
        (job.status = .queued → a < service.maxAttempts)
    | .raised _ _, e => e = .redis (.hincrby statsKey "retried" 1)
    | .closed, e => e.Work
  next
    | .ready k, e, r, g => ∃ job, e.loaded r = some job ∧ (job.tenantId, job.jobId) = m.job ∧ g = .begun k
    | .begun k, e, r, g => ∃ a, e.number r = some a ∧ (k : Int) + 1 ≤ a ∧ g = .working k a
    | .working k a, e, r, g => Answered e r ∧ g = match e.saves with
        | some job => Leg.saved k a job
        | none => .working k a
    | g₀, e, r, g => Answered e r ∧ g = g₀

/-- The whole of a task. -/
def taskMonitor (tag : Nat) : Monitor DriverOp DriverOp.Reply Exn Leg where
  may
    | g, .job e => (legMonitor service m).may g e
    | g, .publish m' _ => ∃ k a, g = .raised k a ∧ m' = { m with retries := k + 1 }
    | g, .sleep _ => ∃ k a, g = .raised k a
    | g, .settle tag' => g = .closed ∧ tag' = tag
  next
    | g₀, .job e, r, g => (legMonitor service m).next g₀ e r g
    | .raised k _, .sleep _, r, g => r = .ok () ∧ g = .ready (k + 1)
    | _, _, r, g => (∃ u, r = .ok u) ∧ g = .closed

/-- A monitor for the operations of the service. -/
def onJob {G : Type} (M : Monitor Op Op.Reply Exn G) : Monitor DriverOp DriverOp.Reply Exn G where
  may
    | g, .job e => M.may g e
    | _, _ => True
  next
    | g₀, .job e, r, g => M.next g₀ e r g
    | g₀, _, _, g => g = g₀

end Monitor

/-- A coroutine of the service, watched by a monitor that says of its operations what `M` does. -/
theorem follows_ofJob {α G : Type} {M : Monitor Op Op.Reply Exn G} {M' : Monitor DriverOp DriverOp.Reply Exn G}
    {Q : Except Exn α → G → Prop} (hmay : ∀ g e, M.may g e → M'.may g (.job e))
    (hnext : ∀ g e r g', M'.next g (.job e) r g' → M.next g e r g') {p : Program α} :
    ∀ {g : G}, Follows M Q p g → Follows M' Q (ofJob p) g := by
  induction p with
  | ret a => exact fun h => h
  | throw x => exact fun h => h
  | op e k ih => exact fun h => ⟨hmay _ _ h.1, fun r g' hn => ih r (h.2 r g' (hnext _ _ _ _ hn))⟩

/-! ### One attempt -/

section Attempt
variable {service : IngestionJobService} {m : Message} {k : Nat} {a : Int}

/-- `r` is no exception, and `Q` holds of what it returns and of the leg. -/
def Returns {α : Type} (Q : α → Leg → Prop) : Except Exn α → Leg → Prop
  | .ok x, g => Q x g
  | .error _, _ => False

theorem Returns.of_succeeded {α : Type} {Q : α → Leg → Prop} {r : Except Exn α} {g : Leg} (hr : succeeded r = true)
    (hQ : ∀ x, r = .ok x → Q x g) : Returns Q r g := by
  cases r with
  | ok x => exact hQ x rfl
  | error _ => cases hr

theorem returns_bind {α β : Type} {M : Monitor Op Op.Reply Exn Leg} {P : α → Leg → Prop} {Q : Except Exn β → Leg → Prop}
    {p : Program α} {f : α → Program β} {g : Leg} (hp : Follows M (Returns P) p g)
    (hf : ∀ x g', P x g' → Follows M Q (f x) g') : Follows M Q (p.bind f) g :=
  hp.bind hf fun _ _ h => h.elim

theorem work_sequence : (Op.redis (.incr sequenceKey)).Work := ⟨rfl, rfl, rfl, nofun⟩
theorem work_utcnow : Op.utcnow.Work := ⟨rfl, rfl, rfl, nofun⟩
theorem work_perfCounter : Op.perfCounter.Work := ⟨rfl, rfl, rfl, nofun⟩
theorem work_ingest {t : String} {u : DocumentUpload} : (Op.ingest t u).Work := ⟨rfl, rfl, rfl, nofun⟩
theorem work_duration {q : ℚ} : (Op.redis (.hincrbyfloat statsKey "duration_seconds" q)).Work := ⟨rfl, rfl, rfl, nofun⟩
theorem work_delete {p : String} : (Op.redis (.del [payloadKey p])).Work := ⟨rfl, rfl, rfl, nofun⟩
theorem work_push {job : IngestJob} {stop : Int} : (Op.multi [.lpush dlqKey (.job job), .ltrim dlqKey 0 stop]).Work :=
  ⟨rfl, rfl, rfl, nofun⟩

theorem work_count {o : String} (h : o ≠ "retried") : (Op.redis (.hincrby statsKey o 1)).Work :=
  ⟨rfl, rfl, by simpa [Op.counts] using h, nofun⟩

theorem work_payload {p : String} : (Op.redis (.get (payloadKey p))).Work := by
  refine ⟨rfl, rfl, rfl, fun t j h => ?_⟩
  cases h

theorem working_call {e : Op} (he : e.Work) (hi : e.isIngest = false) :
    Follows (legMonitor service m) (Returns fun x g => e.counted (.ok x) = true ∧ g = .working k a) (.call e) (.working k a) := by
  refine Follows.call_iff.mpr ⟨Or.inl he, fun r g hn => ?_⟩
  obtain ⟨hr, hg⟩ := hn
  rw [he.saves] at hg
  exact .of_succeeded (hr.ok hi) fun x hx => ⟨hx ▸ hr.counted, hg⟩

theorem over_call {e : Op} (he : e.Work) (hi : e.isIngest = false) :
    Follows (legMonitor service m) (Returns fun _ g => g = .closed) (.call e) .closed := by
  refine Follows.call_iff.mpr ⟨he, fun r g hn => ?_⟩
  exact .of_succeeded (hn.1.ok hi) fun _ _ => hn.2

theorem save_legs {job : IngestJob} (hown : (job.tenantId, job.jobId) = m.job)
    (hqueued : job.status = .queued → a < service.maxAttempts) :
    Follows (legMonitor service m) (Returns fun job' g => (job'.tenantId, job'.jobId) = m.job ∧ g = Leg.saved k a job)
      (service.jobs.save job) (.working k a) := by
  refine returns_bind (working_call work_utcnow rfl) fun now g hg => ?_
  obtain ⟨-, rfl⟩ := hg
  refine returns_bind (working_call work_sequence rfl) fun r g hg => ?_
  obtain ⟨hr, rfl⟩ := hg
  split
  · refine Follows.bind_iff.mpr (Follows.call_iff.mpr ⟨Or.inr ⟨_, _, rfl, hown, hqueued⟩, fun r g hn => ?_⟩)
    obtain ⟨hr, rfl⟩ := hn
    cases r with
    | ok _ => exact ⟨hown, rfl⟩
    | error _ => cases hr.ok rfl
  · rename_i hint
    cases r with
    | int n => exact absurd rfl (hint n)
    | _ => cases hr

theorem count_over {o : String} (h : o ≠ "retried") :
    Follows (legMonitor service m) (Returns fun _ g => g = .closed) (service.jobs.count o) .closed :=
  returns_bind (over_call (work_count h) rfl) fun _ _ hg => hg

theorem fail_legs {job : IngestJob} {error : String} {retryable : Bool} (hown : (job.tenantId, job.jobId) = m.job) :
    Follows (legMonitor service m) (Returns fun _ g => g = .closed) (service.fail job error retryable) (.working k a) := by
  refine returns_bind (save_legs (by exact hown) fun h => by cases h) fun job' g hg => ?_
  obtain ⟨-, rfl⟩ := hg
  refine returns_bind (count_over (by decide)) fun _ g hg => ?_
  obtain rfl : g = .closed := hg
  refine returns_bind (P := fun _ g => g = Leg.closed) ?_ fun _ _ hg => hg
  exact returns_bind (over_call work_push rfl) fun _ _ hg => hg

theorem finish_legs {job : IngestJob} {payloadId : String} {record : DocumentRecord} {started : ℚ}
    (hown : (job.tenantId, job.jobId) = m.job) :
    Follows (legMonitor service m) (Returns fun _ g => g = .closed) (service.finish job payloadId record started) (.working k a) := by
  refine returns_bind (P := fun _ g => g = Leg.working k a) ?_ fun _ g hg => ?_
  · exact returns_bind (working_call work_delete rfl) fun _ _ hg => hg.2
  obtain rfl : g = .working k a := hg
  refine returns_bind (save_legs (by exact hown) fun h => by cases h) fun job' g hg => ?_
  obtain ⟨-, rfl⟩ := hg
  refine returns_bind (count_over (by decide)) fun _ g hg => ?_
  obtain rfl : g = .closed := hg
  refine returns_bind (over_call work_perfCounter rfl) fun _ g hg => ?_
  obtain rfl : g = .closed := hg
  refine returns_bind (P := fun _ g => g = Leg.closed) ?_ fun _ _ hg => hg
  exact returns_bind (over_call work_duration rfl) fun _ _ hg => hg

/-- The run ends the job, or asks for another. -/
def Retries (service : IngestionJobService) (k : Nat) (a : Int) {α : Type} : Except Exn α → Leg → Prop
  | .ok _, g => g = .closed
  | .error x, g => (∃ text, x = .transientJob text) ∧ g = .raised k a ∧ a < service.maxAttempts

theorem handle_legs {job : IngestJob} {e : Exn} (hown : (job.tenantId, job.jobId) = m.job) :
    Follows (legMonitor service m) (Retries service k a) (service.handle job a e) (.working k a) := by
  have hfail : ∀ {error : String} {retryable : Bool},
      Follows (legMonitor service m) (Retries service k a) (service.fail job error retryable) (.working k a) := fun {_ _} =>
    (fail_legs hown).mono fun r g hg => by
      cases r with
      | ok _ => exact hg
      | error _ => exact hg.elim
  unfold IngestionJobService.handle
  split
  · exact hfail
  · split
    · exact hfail
    · rename_i hlimit
      refine returns_bind (save_legs (by exact hown) fun _ => not_le.mp hlimit) fun job' g hg => ?_
      obtain ⟨-, rfl⟩ := hg
      refine returns_bind (P := fun _ g => g = Leg.raised k a) ?_ fun _ g hg => ?_
      · refine returns_bind (P := fun _ g => g = Leg.raised k a) ?_ fun _ _ hg => hg
        refine Follows.call_iff.mpr ⟨rfl, fun r g hn => ?_⟩
        exact .of_succeeded (hn.1.ok rfl) fun _ _ => hn.2
      · obtain rfl : g = .raised k a := hg
        exact ⟨⟨_, rfl⟩, rfl, not_le.mp hlimit⟩

theorem Retries.map {α β : Type} {r : Except Exn α} {g : Leg} {f : α → β} (h : Retries service k a r g) :
    Retries service k a (r.map f) g := by
  cases r with
  | ok _ => exact h
  | error _ => exact h

theorem Retries.of_returns {α : Type} {r : Except Exn α} {g : Leg} (h : Returns (fun _ g => g = .closed) r g) :
    Retries service k a r g := by
  cases r with
  | ok _ => exact h
  | error _ => exact h.elim

/-- One run of `execute` after `k` retries: it ends the job, or it was attempt `a`, with more than `k` attempts made and
    more to come. -/
theorem execute_legs {p : String} : Follows (legMonitor service m)
    (fun r g => ∃ a : Int, (k : Int) + 1 ≤ a ∧ Retries service k a r g) (service.execute m.tenantId m.jobId p) (.ready k) := by
  refine Follows.bind_iff.mpr (Follows.bind_iff.mpr (Follows.call_iff.mpr ⟨rfl, fun r g hn => ?_⟩))
  obtain ⟨job, hload, hown, rfl⟩ := hn
  unfold Op.loaded at hload
  split at hload
  swap
  · cases hload
  cases hload
  refine Follows.bind_iff.mpr (Follows.bind_iff.mpr (Follows.call_iff.mpr ⟨rfl, fun r g hn => ?_⟩))
  obtain ⟨a, hnumber, ha, rfl⟩ := hn
  unfold Op.number at hnumber
  split at hnumber
  swap
  · cases hnumber
  cases hnumber
  show Follows _ _ (ite _ _ _) _
  split
  · exact (Follows.map ((fail_legs hown).mono fun _ _ hg => Retries.map (.of_returns hg))).mono fun _ _ hg => ⟨a, ha, hg⟩
  refine returns_bind (save_legs (by exact hown) fun h => by cases h) fun job' g hg => ?_
  obtain ⟨hown', rfl⟩ := hg
  refine returns_bind (P := fun _ g => g = Leg.working k a) ?_ fun data g hg => ?_
  · refine returns_bind (working_call work_payload rfl) fun r g hg => ?_
    obtain ⟨-, rfl⟩ := hg
    split <;> rfl
  obtain rfl : g = .working k a := hg
  split
  · exact (Follows.map ((fail_legs hown').mono fun _ _ hg => Retries.map (.of_returns hg))).mono fun _ _ hg => ⟨a, ha, hg⟩
  refine returns_bind (working_call work_perfCounter rfl) fun started g hg => ?_
  obtain ⟨-, rfl⟩ := hg
  refine Follows.bind_iff.mpr (Follows.attempt_iff.mpr (Follows.call_iff.mpr ⟨Or.inl work_ingest, fun outcome g hn => ?_⟩))
  obtain ⟨-, rfl⟩ := hn
  cases outcome with
  | error e => exact (Follows.map ((handle_legs hown').mono fun _ _ hg => Retries.map hg)).mono fun _ _ hg => ⟨a, ha, hg⟩
  | ok record =>
    exact (Follows.map ((finish_legs hown').mono fun _ _ hg => Retries.map (.of_returns hg))).mono fun _ _ hg => ⟨a, ha, hg⟩

end Attempt

/-! ### A whole task -/

section Task
variable {q : Driver} {m : Message} {k tag : Nat}

theorem driver_execute : Follows (taskMonitor q.service m tag)
    (fun r g => ∃ a : Int, (k : Int) + 1 ≤ a ∧ Retries q.service k a r g) (q.execute m) (.ready k) :=
  follows_ofJob (fun _ _ h => h) (fun _ _ _ _ h => h) execute_legs

/-- How a task ends: it raises nothing, and has run out of nothing. -/
def Finished (r : Except Exn Outcome) : Prop := ∃ out, r = .ok out ∧ out ≠ .exhausted ∧ out ≠ .crashed

theorem ingestDocument_legs : Follows (taskMonitor q.service m tag) (fun r g => Finished r ∧ g = .closed) (q.ingestDocument m)
    (.ready m.retries) := by
  refine Follows.bind_iff.mpr (Follows.attempt_iff.mpr (driver_execute.mono fun r g hg => ?_))
  obtain ⟨a, ha, hg⟩ := hg
  cases r with
  | ok job => exact ⟨⟨_, rfl, nofun, nofun⟩, hg⟩
  | error x =>
    obtain ⟨⟨text, rfl⟩, rfl, hlimit⟩ := hg
    have hceiling : ¬((m.retries : Int) + 1 > q.maxRetries) := by
      unfold Driver.maxRetries
      omega
    show Follows _ _ (ite _ _ _) _
    rw [if_neg hceiling]
    refine Follows.bind_iff.mpr (Follows.call_iff.mpr ⟨⟨_, _, rfl, rfl⟩, fun r g hn => ?_⟩)
    obtain ⟨⟨u, rfl⟩, rfl⟩ : (∃ u, r = .ok u) ∧ g = .closed := hn
    exact ⟨⟨_, rfl, nofun, nofun⟩, rfl⟩

/-- The loop has as many iterations left as there may be attempts, and never comes to its end. -/
theorem loop_legs : ∀ {n k attempt : Nat}, (n + k : Int) = q.service.maxAttempts → 0 < n →
    Follows (taskMonitor q.service m tag) (fun r g => Finished r ∧ g = .closed) (q.loop m n attempt) (.ready k)
  | n + 1, k, attempt, hn, _ => by
    refine Follows.bind_iff.mpr (Follows.attempt_iff.mpr (driver_execute.mono fun r g hg => ?_))
    obtain ⟨a, ha, hg⟩ := hg
    cases r with
    | ok job => exact ⟨⟨_, rfl, nofun, nofun⟩, hg⟩
    | error x =>
      obtain ⟨⟨text, rfl⟩, rfl, hlimit⟩ := hg
      refine Follows.bind_iff.mpr (Follows.call_iff.mpr ⟨⟨_, _, rfl⟩, fun r g hnext => ?_⟩)
      obtain ⟨rfl, rfl⟩ : r = .ok () ∧ g = .ready (k + 1) := hnext
      exact loop_legs (by push_cast at hn ⊢; omega) (by push_cast at hn; omega)

theorem task_legs : Follows (taskMonitor q.service m tag) (fun r g => Finished r ∧ g = .closed) (q.task m)
    (match q.kind with
    | .celery => .ready m.retries
    | .inline => .ready 0) := by
  unfold Driver.task
  cases q.kind with
  | celery => exact ingestDocument_legs
  | inline =>
    have := q.attempts_pos
    exact loop_legs (by push_cast; omega) (by omega)

theorem deliver_legs : Follows (taskMonitor q.service m tag) (fun r g => Finished r ∧ g = .closed) (q.deliver tag m)
    (match q.kind with
    | .celery => .ready m.retries
    | .inline => .ready 0) := by
  refine Follows.bind_iff.mpr (Follows.attempt_iff.mpr (task_legs.mono fun r g hg => ?_))
  obtain ⟨hr, rfl⟩ := hg
  refine Follows.bind_iff.mpr (Follows.call_iff.mpr ⟨⟨rfl, rfl⟩, fun u g hn => ?_⟩)
  obtain ⟨⟨u, rfl⟩, rfl⟩ : (∃ v, u = .ok v) ∧ g = .closed := hn
  exact Follows.ofExcept_iff.mpr ⟨hr, rfl⟩

/-- A whole delivery, under a monitor that `execute` follows. -/
theorem deliver_follows {M : Monitor DriverOp DriverOp.Reply Exn Unit}
    (hexecute : Follows M (fun _ _ => True) (q.execute m) ()) (hpublish : ∀ n c, M.may () (.publish { m with retries := n } c))
    (hsleep : ∀ s, M.may () (.sleep s)) (hsettle : M.may () (.settle tag)) :
    Follows M (fun _ _ => True) (q.deliver tag m) () := by
  have hloop : ∀ {n attempt : Nat}, Follows M (fun _ _ => True) (q.loop m n attempt) () := by
    intro n
    induction n with
    | zero => exact fun {_} => trivial
    | succ n ih =>
      refine fun {attempt} => Follows.bind_iff.mpr (Follows.attempt_iff.mpr (hexecute.mono fun r g _ => ?_))
      match r with
      | .error (.transientJob _) =>
        refine Follows.bind_iff.mpr (Follows.call_iff.mpr ⟨hsleep _, fun r g _ => ?_⟩)
        cases r with
        | ok _ => exact ih
        | error _ => trivial
      | .ok _ | .error (.unsupportedDocument _) | .error (.emptyDocument _) | .error (.documentTooLarge _)
      | .error (.other _ _) => trivial
  have htask : Follows M (fun _ _ => True) (q.task m) () := by
    unfold Driver.task
    split
    · refine Follows.bind_iff.mpr (Follows.attempt_iff.mpr (hexecute.mono fun r g _ => ?_))
      match r with
      | .error (.transientJob _) =>
        show Follows _ _ (ite _ _ _) _
        split
        · trivial
        · exact Follows.bind_iff.mpr (Follows.call_iff.mpr ⟨hpublish _ _, fun r g _ => by cases r <;> trivial⟩)
      | .ok _ | .error (.unsupportedDocument _) | .error (.emptyDocument _) | .error (.documentTooLarge _)
      | .error (.other _ _) => trivial
    · exact hloop
  refine Follows.bind_iff.mpr (Follows.attempt_iff.mpr (htask.mono fun r g _ => ?_))
  refine Follows.bind_iff.mpr (Follows.call_iff.mpr ⟨hsettle, fun u g _ => ?_⟩)
  cases u with
  | ok _ => exact Follows.ofExcept_iff.mpr trivial
  | error _ => trivial

end Task

/-! ### Every call -/

section Watch
variable (q : Driver) (t j : String)

/-- An upload only uses the service. -/
def uploadOnly : Monitor DriverOp DriverOp.Reply Exn Unit where
  may
    | _, .job e => e.attempts = false
    | _, _ => False
  next _ _ _ _ := True

/-- A delivery works for its own job, on its own copy. -/
def ownMonitor (tag : Nat) (m : Message) : Monitor DriverOp DriverOp.Reply Exn Unit where
  may
    | _, .job e => (e.Quiet ∧ e.saves = none ∨
        ∃ job n, e = .multi (q.service.jobs.saveCmds job n) ∧ (job.tenantId, job.jobId) = m.job) ∧ (e.attempts = true →
        e = .multi [.incr (attemptsKey m.tenantId m.jobId), .expire (attemptsKey m.tenantId m.jobId) q.service.jobs.retention])
    | _, .publish m' _ => m' = { m with retries := m'.retries }
    | _, .settle tag' => tag' = tag
    | _, .sleep _ => True
  next
    | _, .job e, r, _ => ∀ job, e = .redis (.get (jobKey m.tenantId m.jobId)) → e.loaded r = some job →
        job.tenantId = m.tenantId ∧ job.jobId = m.jobId
    | _, _, _, _ => True

namespace DriverCall

/-- The same work on its own. -/
def call : DriverCall → Call
  | .submit t u r => .submit t u r
  | .run _ m => .execute m.tenantId m.jobId m.payloadId

/-- What a call does to the messages. -/
def own : DriverCall → Monitor DriverOp DriverOp.Reply Exn Unit
  | .submit _ _ _ => uploadOnly
  | .run tag m => ownMonitor q tag m

/-- What an upload does to the job; a delivery is followed elsewhere. -/
def upload : DriverCall → Monitor DriverOp DriverOp.Reply Exn Phase
  | .submit _ _ _ => onJob (uploadMonitor q.service)
  | .run _ _ => .idle

/-- Only the deliveries of one job are watched leg by leg. -/
def legs : DriverCall → Monitor DriverOp DriverOp.Reply Exn Leg
  | .submit _ _ _ => .idle
  | .run tag m => if m.job = (t, j) then taskMonitor q.service m tag else .idle

/-- The phase that a call begins in. -/
def firstPhase : DriverCall → Phase
  | .submit _ _ _ => .parking
  | .run _ _ => .leaving

/-- The leg that it begins in: Celery keeps the retries in the message, the loop in a variable. -/
def firstLeg : DriverCall → Leg
  | .submit _ _ _ => .closed
  | .run _ m => match q.kind with
    | .celery => .ready m.retries
    | .inline => .ready 0

end DriverCall

/-- How a call is watched: what it writes, what it works for, how far an upload is, and how far a delivery. -/
def driverWatch : Watch q.system where
  G := (Unit × Unit) × Phase × Leg
  monitor c := ((onJob ((keyWatch q.service).monitor c.call)).both (c.own q)).both ((c.upload q).both (c.legs q t j))
  first c := (((), ()), c.firstPhase, c.firstLeg q)
  last c r g := ∀ tag m, c = .run tag m → m.job = (t, j) → Finished r ∧ g.2.2 = .closed

end Watch

section Sound
variable {q : Driver} {t j : String}

theorem delivery_goes_on {service : IngestionJobService} {t j : String} {g : Phase} {e : Op} {r : Except Exn e.Reply}
    (hmay : (deliveryMonitor service t j).may g e)
    (hload : ∀ job, e = .redis (.get (jobKey t j)) → e.loaded r = some job → job.tenantId = t ∧ job.jobId = j) :
    ∃ g', (deliveryMonitor service t j).next g e r g' := by
  cases g with
  | waiting =>
    have hget : e = .redis (.get (jobKey t j)) := hmay
    cases hl : e.loaded r with
    | none => exact ⟨.leaving, by simp only [deliveryMonitor, hl]⟩
    | some job => exact ⟨.live, by simpa only [deliveryMonitor, hl, and_true] using hload job hget hl⟩
  | live =>
    cases hs : e.saves with
    | none => exact ⟨.live, by simp only [deliveryMonitor, hs]⟩
    | some job => exact ⟨if succeeded r then Phase.afterSave job else .leaving, by simp only [deliveryMonitor, hs]⟩
  | closing failed counted pushed => exact ⟨_, rfl⟩
  | _ => exact hmay.elim

theorem attempt_goes_on {service : IngestionJobService} {t j : String} {g : Stage} {e : Op} {r : Except Exn e.Reply}
    (hmay : (attemptMonitor service t j).may g e)
    (hload : ∀ job, e = .redis (.get (jobKey t j)) → e.loaded r = some job → job.tenantId = t ∧ job.jobId = j) :
    ∃ g', (attemptMonitor service t j).next g e r g' := by
  cases g with
  | waiting =>
    rcases hmay with rfl | rfl
    · exact ⟨.waiting, rfl, fun job hl => hload job rfl hl⟩
    · exact ⟨_, rfl⟩
  | _ => exact ⟨_, rfl⟩

/-- What `execute` writes is its own job's. -/
theorem own_execute {tag : Nat} {m : Message} : Follows (ownMonitor q tag m) (fun _ _ => True) (q.execute m) () := by
  let own : Monitor Op Op.Reply Exn Unit :=
    { may _ e := (ownMonitor q tag m).may () (.job e), next _ e r _ := (ownMonitor q tag m).next () (.job e) r () }
  have hown : Follows own (fun _ _ => True) (q.service.execute m.tenantId m.jobId m.payloadId) () := by
    refine Follows.forget ?_ ?_ (Follows.both (@execute_follows q.service m.tenantId m.jobId m.payloadId) execute_attempts)
    · rintro ⟨g, g'⟩ e ⟨hdelivery, hattempt⟩
      refine ⟨?_, fun he => (starts_of_attempts hattempt he).2⟩
      cases g with
      | waiting =>
        obtain rfl : e = _ := hdelivery
        exact Or.inl ⟨fun _ _ _ => List.not_mem_nil, rfl⟩
      | live =>
        rcases hdelivery with ⟨hplain, hnone⟩ | ⟨job', n, rfl, ht, hj⟩
        · exact Or.inl ⟨hplain.quiet, hnone⟩
        · exact Or.inr ⟨job', n, rfl, Prod.ext ht hj⟩
      | closing failed counted pushed => exact Or.inl ⟨hdelivery.1, hdelivery.2.1⟩
      | _ => exact hdelivery.elim
    · rintro ⟨g, g'⟩ e r ⟨hdelivery, hattempt⟩ hload
      obtain ⟨p, hp⟩ := delivery_goes_on hdelivery hload
      obtain ⟨st, hst⟩ := attempt_goes_on hattempt hload
      exact ⟨(p, st), hp, hst⟩
  exact follows_ofJob (fun _ _ h => h) (fun _ _ _ _ h => h) hown

theorem driverWatch_sound : (driverWatch q t j).Sound := by
  intro c
  cases c with
  | submit tenantId upload requestId =>
    have hkey : Follows (onJob ((keyWatch q.service).monitor (.submit tenantId upload requestId))) (fun _ _ => True)
        (ofJob (q.service.submit tenantId upload requestId)) () :=
      follows_ofJob (fun _ _ h => h) (fun _ _ _ _ h => h) submit_by
    have hown : Follows ((DriverCall.submit tenantId upload requestId).own q) (fun _ _ => True)
        (ofJob (q.service.submit tenantId upload requestId)) () :=
      follows_ofJob (fun _ _ h => h) (fun _ _ _ _ h => h) (submit_blind.mono fun _ h => h.attempts)
    have hupload : Follows (onJob (uploadMonitor q.service)) (fun _ _ => True)
        (ofJob (q.service.submit tenantId upload requestId)) .parking :=
      follows_ofJob (fun _ _ h => h) (fun _ _ _ _ h => h) submit_follows
    refine Follows.bind (((hkey.both hown).both (hupload.both Follows.idle)).mono fun _ _ h => h) (fun job g _ => ?_) fun x g _ => ?_
    · exact fun _ _ hc => by cases hc
    · exact fun _ _ hc => by cases hc
  | run tag m =>
    have hkey : Follows (onJob ((keyWatch q.service).monitor (.execute m.tenantId m.jobId m.payloadId))) (fun _ _ => True)
        (q.deliver tag m) () :=
      deliver_follows (follows_ofJob (fun _ _ h => h) (fun _ _ _ _ h => h) execute_by) (fun _ _ => trivial) (fun _ => trivial) trivial
    have hown : Follows (ownMonitor q tag m) (fun _ _ => True) (q.deliver tag m) () :=
      deliver_follows own_execute (fun _ _ => rfl) (fun _ => trivial) rfl
    have hlegs : Follows ((DriverCall.run tag m).legs q t j) (fun r g => m.job = (t, j) → Finished r ∧ g = .closed)
        (q.deliver tag m) ((DriverCall.run tag m).firstLeg q) := by
      unfold DriverCall.legs
      dsimp only
      split
      · exact deliver_legs.mono fun _ _ h _ => h
      · rename_i hm
        exact Follows.idle.mono fun _ _ _ h => absurd h hm
    refine ((hkey.both hown).both (Follows.idle.both hlegs)).mono fun r g h tag' m' hc hm' => ?_
    cases hc
    exact h.2.2 hm'

end Sound
end NexusGate.Workers
