import NexusGate.Theorems.Workers.Lifecycle

/-! # What the calls of a tenant write

Every operation of an upload or a delivery, under the keys it is carried out on: the tenant's own, or the
global ones through the commands that are made for them. -/

namespace NexusGate.Workers
open Async Async.System Redis Rag

section By
variable (service : IngestionJobService)

/-- The operations of a call that works for tenant `t`. -/
inductive Op.By (t : String) : Op → Prop
  | payload {c p} (h : ∀ k ∈ c.writes, k = payloadKey p) : By t (.redis c)
  | sequence : By t (.redis (.incr sequenceKey))
  | count {o} : By t (.redis (.hincrby statsKey o 1))
  | duration {q} : By t (.redis (.hincrbyfloat statsKey "duration_seconds" q))
  | save {job n} (ht : job.tenantId = t) (hj : isUuidHex job.jobId = true) :
    By t (.multi (service.jobs.saveCmds job n))
  | attempt {j} (hj : isUuidHex j = true) :
    By t (.multi [.incr (attemptsKey t j), .expire (attemptsKey t j) service.jobs.retention])
  | push {job} : By t (.multi [.lpush dlqKey (.job job), .ltrim dlqKey 0 (service.deadLetters.maxEntries - 1)])
  | enqueue {job p} (ht : job.tenantId = t) (hj : isUuidHex job.jobId = true) : By t (.enqueue job p)
  | uuid : By t .uuid
  | utcnow : By t .utcnow
  | perfCounter : By t .perfCounter
  | ingest {t' u} : By t (.ingest t' u)

/-- The id that an answer carries. -/
def Op.drew : (e : Op) → Except Exn e.Reply → Option String
  | .uuid, .ok id => some id
  | _, _ => none

/-- The calls of a tenant, with job `j` for a delivery: what is read as the record of the job is one. -/
def keyMonitor (t j : String) : Monitor Op Op.Reply Exn Unit where
  may _ e := isUuidHex j = true → Op.By service t e
  next _ e r _ :=
    (e = .redis (.get (jobKey t j)) → ∀ job, e.loaded r = some job → job.tenantId = t ∧ job.jobId = j) ∧
    ∀ id, e.drew r = some id → isUuidHex id = true

/-- The tenant that a call is made for. -/
def Call.tenant : Call → String
  | .submit t _ _ | .execute t _ _ => t

/-- Any job id serves for an upload, which reads no record. -/
def keyWatch : Watch (system service) where
  G := Unit
  monitor
    | .submit t _ _ => keyMonitor service t "00000000000000000000000000000000"
    | .execute t j _ => keyMonitor service t j
  first _ := ()
  last _ _ _ := True

end By

section Follow
variable {service : IngestionJobService} {t j : String}

theorem by_call {e : Op} (he : isUuidHex j = true → Op.By service t e) :
    Follows (keyMonitor service t j) (fun _ _ => True) (.call e) () :=
  Follows.call_iff.mpr ⟨he, fun _ _ _ => trivial⟩

theorem save_by {job : IngestJob} (ht : job.tenantId = t) (hj : isUuidHex j = true → isUuidHex job.jobId = true) :
    Follows (keyMonitor service t j) (fun r _ => match r with
      | .ok job' => job'.tenantId = t ∧ job'.jobId = job.jobId
      | .error _ => True) (service.jobs.save job) () := by
  refine (by_call fun _ => .utcnow).bind (fun now g _ => ?_) fun _ _ _ => trivial
  refine (by_call fun _ => .sequence).bind (fun r g _ => ?_) fun _ _ _ => trivial
  split
  · refine Follows.bind_iff.mpr (Follows.call_iff.mpr ⟨fun hu => .save ht (hj hu), fun r g _ => ?_⟩)
    cases r with
    | ok _ => exact ⟨ht, rfl⟩
    | error _ => trivial
  · trivial

theorem fail_by {job : IngestJob} {error : String} {retryable : Bool} (ht : job.tenantId = t)
    (hj : isUuidHex j = true → isUuidHex job.jobId = true) :
    Follows (keyMonitor service t j) (fun _ _ => True) (service.fail job error retryable) () := by
  refine (save_by (by exact ht) (by exact hj)).bind (fun _ _ _ => ?_) fun _ _ _ => trivial
  refine Follows.bind (P := fun _ _ => True) ?_ (fun _ _ _ => ?_) fun _ _ _ => trivial
  · exact (by_call fun _ => .count).bind (fun _ _ _ => trivial) fun _ _ _ => trivial
  · refine Follows.bind (P := fun _ _ => True) ?_ (fun _ _ _ => trivial) fun _ _ _ => trivial
    exact (by_call fun _ => .push).bind (fun _ _ _ => trivial) fun _ _ _ => trivial

theorem count_by {o : String} : Follows (keyMonitor service t j) (fun _ _ => True) (service.jobs.count o) () :=
  (by_call fun _ => .count).bind (fun _ _ _ => trivial) fun _ _ _ => trivial

theorem payload_by {c : Cmd Blob} {p : String} (h : ∀ k ∈ c.writes, k = payloadKey p) :
    Follows (keyMonitor service t j) (fun _ _ => True) (redis c) () :=
  by_call fun _ => .payload h

theorem finish_by {job : IngestJob} {payloadId : String} {record : DocumentRecord} {started : ℚ}
    (ht : job.tenantId = t) (hj : isUuidHex j = true → isUuidHex job.jobId = true) :
    Follows (keyMonitor service t j) (fun _ _ => True) (service.finish job payloadId record started) () := by
  refine Follows.bind (P := fun _ _ => True) ?_ (fun _ _ _ => ?_) fun _ _ _ => trivial
  · exact (payload_by (p := payloadId) (by simp [Cmd.writes])).bind (fun _ _ _ => trivial) fun _ _ _ => trivial
  refine (save_by (by exact ht) (by exact hj)).bind (fun _ _ _ => ?_) fun _ _ _ => trivial
  refine count_by.bind (fun _ _ _ => ?_) fun _ _ _ => trivial
  refine (by_call fun _ => .perfCounter).bind (fun _ _ _ => ?_) fun _ _ _ => trivial
  refine Follows.bind (P := fun _ _ => True) ?_ (fun _ _ _ => trivial) fun _ _ _ => trivial
  exact (by_call fun _ => .duration).bind (fun _ _ _ => trivial) fun _ _ _ => trivial

theorem handle_by {job : IngestJob} {attempt : Int} {e : Exn} (ht : job.tenantId = t)
    (hj : isUuidHex j = true → isUuidHex job.jobId = true) :
    Follows (keyMonitor service t j) (fun _ _ => True) (service.handle job attempt e) () := by
  unfold IngestionJobService.handle
  split
  · exact fail_by ht hj
  · split
    · exact fail_by ht hj
    · refine (save_by (by exact ht) (by exact hj)).bind (fun _ _ _ => ?_) fun _ _ _ => trivial
      exact count_by.bind (fun _ _ _ => trivial) fun _ _ _ => trivial

/-- What a read of the record hands on. -/
def Owned (t j : String) : Except Exn (Option IngestJob) → Prop
  | .ok (some job) => job.tenantId = t ∧ job.jobId = j
  | _ => True

theorem execute_by {payloadId : String} :
    Follows (keyMonitor service t j) (fun _ _ => True) (service.execute t j payloadId) () := by
  refine Follows.bind (P := fun r _ => Owned t j r) ?_ (fun found g hg => ?_) fun _ _ _ => trivial
  · refine Follows.bind_iff.mpr (Follows.call_iff.mpr
      ⟨fun _ => .payload (p := payloadId) (by simp [Cmd.writes]), fun r g hn => ?_⟩)
    cases r with
    | error x => trivial
    | ok reply =>
      cases reply with
      | bulk b =>
        cases b with
        | job job => exact hn.1 rfl job rfl
        | _ => trivial
      | _ => trivial
  cases found with
  | none => trivial
  | some job =>
    obtain ⟨ht, hj⟩ := hg
    have hu : isUuidHex j = true → isUuidHex job.jobId = true := fun h => hj ▸ h
    refine Follows.bind (P := fun _ _ => True) ?_ (fun attempt g _ => ?_) fun _ _ _ => trivial
    · refine (by_call fun h => .attempt h).bind (fun rs g _ => ?_) fun _ _ _ => trivial
      split <;> trivial
    split
    · exact Follows.map (fail_by ht hu)
    · refine (save_by (by exact ht) (by exact hu)).bind (fun job' g hg => ?_) fun _ _ _ => trivial
      obtain ⟨ht', hj'⟩ := hg
      have hu' : isUuidHex j = true → isUuidHex job'.jobId = true := fun h => hj' ▸ hu h
      refine Follows.bind (P := fun _ _ => True) ?_ (fun data g _ => ?_) fun _ _ _ => trivial
      · refine (payload_by (p := payloadId) (by simp [Cmd.writes])).bind (fun r g _ => ?_) fun _ _ _ => trivial
        split <;> trivial
      split
      · exact Follows.map (fail_by ht' hu')
      · refine (by_call fun _ => .perfCounter).bind (fun _ _ _ => ?_) fun _ _ _ => trivial
        refine Follows.bind (P := fun _ _ => True)
          (Follows.attempt_iff.mpr ((by_call fun _ => .ingest).mono fun _ _ _ => trivial)) (fun outcome g _ => ?_)
          fun _ _ _ => trivial
        cases outcome with
        | error e => exact Follows.map (handle_by ht' hu')
        | ok record => exact Follows.map (finish_by ht' hu')

theorem submit_by {upload : DocumentUpload} {requestId : Option String} :
    Follows (keyMonitor service t j) (fun _ _ => True) (service.submit t upload requestId) () := by
  refine Follows.bind (P := fun _ _ => True) ?_ (fun payloadId g _ => ?_) fun _ _ _ => trivial
  · refine (by_call fun _ => .uuid).bind (fun payloadId _ _ => ?_) fun _ _ _ => trivial
    exact (payload_by (p := payloadId) (by simp [Cmd.writes])).bind (fun _ _ _ => trivial) fun _ _ _ => trivial
  refine Follows.bind_iff.mpr (Follows.call_iff.mpr ⟨fun _ => .uuid, fun r g hn => ?_⟩)
  match r, hn with
  | .error _, _ => trivial
  | .ok jobId, hn =>
    have hid : isUuidHex jobId = true := hn.2 jobId rfl
    refine (by_call fun _ => .utcnow).bind (fun now g _ => ?_) fun _ _ _ => trivial
    refine (save_by (by rfl) (by exact fun _ => hid)).bind (fun job g hg => ?_) fun _ _ _ => trivial
    obtain ⟨ht, hj⟩ := hg
    refine count_by.bind (fun _ _ _ => ?_) fun _ _ _ => trivial
    exact (by_call fun _ => .enqueue ht (by rw [hj]; exact hid)).bind (fun _ _ _ => trivial) fun _ _ _ => trivial

theorem keyWatch_sound : (keyWatch service).Sound := by
  rintro (⟨t, u, q⟩ | ⟨t, j, p⟩)
  · exact submit_by.map
  · exact execute_by

end Follow
end NexusGate.Workers
