import NexusGate.Workers.Keys

/-! # What a delivery does to its job's record

Each call of the pool is watched through the phases of its work. A delivery loads the record, may save it
any number of times, and after it saved a terminal status it only counts that status once and, for a
failed job, pushes it to the dead-letter queue once. An upload draws a fresh id, saves the record of that
id, and enqueues its message. No other operation touches a job record. -/

namespace NexusGate.Workers
open Async Redis Rag

/-! ### Operations that matter -/

/-- The job whose record an operation saves. -/
@[grind =] def Op.saves : Op → Option IngestJob
  | .multi (.set _ (.job job) _ _ :: _) => some job
  | _ => none

/-- The job that an operation pushes to the dead-letter queue. -/
@[grind =] def Op.pushes : Op → Option IngestJob
  | .multi (.lpush k (.job job) :: _) => if k = dlqKey then some job else none
  | _ => none

/-- Whether an operation counts `outcome`. -/
@[grind =] def Op.counts (outcome : String) : Op → Bool
  | .redis (.hincrby k f _) => k == statsKey && f == outcome
  | _ => false

/-- The record that an answer carries. -/
@[grind =] def Op.loaded : (e : Op) → Except Exn e.Reply → Option IngestJob
  | .redis _, .ok (.bulk (.job job)) => some job
  | _, _ => none

/-- The operation has not failed. -/
def succeeded {α : Type} : Except Exn α → Bool
  | .ok _ => true
  | .error _ => false

/-- The operation writes no job record and draws and sends nothing. -/
@[grind =] def Op.Quiet : Op → Prop
  | .redis c => ∀ t j, isUuidHex j = true → jobKey t j ∉ c.writes
  | .multi cs => ∀ c ∈ cs, ∀ t j, isUuidHex j = true → jobKey t j ∉ c.writes
  | .uuid | .enqueue _ _ => False
  | .utcnow | .perfCounter | .ingest _ _ => True

/-- Quiet, and it neither counts an end of the job nor pushes it. -/
structure Op.Plain (e : Op) : Prop where
  quiet : e.Quiet
  pushes : e.pushes = none
  done : e.counts "done" = false
  failed : e.counts "failed" = false

/-! ### Phases -/

/-- Where a call stands with its job. -/
inductive Phase
  /-- A delivery that has not loaded the record. -/
  | waiting
  /-- A delivery that works on the record it loaded. -/
  | live
  /-- A delivery that stored a terminal status; whether it has counted and pushed it. -/
  | closing (failed counted pushed : Bool)
  /-- A call with nothing left to do. -/
  | leaving
  /-- An upload before it draws the payload id, and after. -/
  | parking
  | drawing
  /-- An upload that drew the job id `j`, before and after it saved the record. -/
  | holds (j : String)
  | saved (j : String)

/-- The job id that an upload has drawn. -/
def Phase.owns : Phase → Option String
  | .holds j | .saved j => some j
  | _ => none

/-- Where a delivery is after a save of `job`. -/
def Phase.afterSave (job : IngestJob) : Phase :=
  if job.status.terminal then .closing (job.status == .failed) false false else .live

variable (service : IngestionJobService)

/-- What a delivery may do to its job in each phase. -/
def deliveryMonitor (t j : String) : Monitor Op Op.Reply Exn Phase where
  may
    | .waiting, e => e = .redis (.get (jobKey t j))
    | .live, e => e.Plain ∧ e.saves = none ∨
        ∃ job n, e = .multi (service.jobs.saveCmds job n) ∧ job.tenantId = t ∧ job.jobId = j
    | .closing failed counted pushed, e => e.Quiet ∧ e.saves = none ∧
        (∀ job, e.pushes = some job → failed = true ∧ pushed = false ∧ job.tenantId = t ∧ job.jobId = j) ∧
        (e.counts "done" = true → failed = false ∧ counted = false) ∧
        (e.counts "failed" = true → failed = true ∧ counted = false)
    | _, _ => False
  next
    | .waiting, e, r, g => match e.loaded r with
      | some job => job.tenantId = t ∧ job.jobId = j ∧ g = .live
      | none => g = .leaving
    | .live, e, r, g => match e.saves with
      | some job => g = if succeeded r then Phase.afterSave job else .leaving
      | none => g = .live
    | .closing failed counted pushed, e, _, g =>
      g = .closing failed (counted || e.counts "done" || e.counts "failed") (pushed || e.pushes.isSome)
    | _, _, _, _ => False

/-- What an upload may do in each phase. -/
def uploadMonitor : Monitor Op Op.Reply Exn Phase where
  may
    | .parking, e => e = .uuid
    | .drawing, e => e.Plain ∧ e.saves = none ∨ e = .uuid
    | .holds j, e => e.Plain ∧ e.saves = none ∨
        ∃ job n, e = .multi (service.jobs.saveCmds job n) ∧ job.jobId = j ∧ job.status.terminal = false
    | .saved j, e => e.Plain ∧ e.saves = none ∨ ∃ job p, e = .enqueue job p ∧ job.jobId = j
    | _, _ => False
  next
    | .parking, e, _, g => e = .uuid → g = .drawing
    | .drawing, e, r, g => match e, r with
      | .uuid, .ok j => g = .holds j
      | _, _ => g = .drawing
    | .holds j, e, r, g => g = if e.saves.isSome then if succeeded r then .saved j else .leaving else .holds j
    | .saved j, _, _, g => g = .saved j
    | _, _, _, _ => False

/-- Every call is watched for its job. -/
def watch : System.Watch (system service) where
  G := Phase
  monitor
    | .submit _ _ _ => uploadMonitor service
    | .execute t j _ => deliveryMonitor service t j
  first
    | .submit _ _ _ => .parking
    | .execute _ _ _ => .waiting
  last _ _ _ := True

/-! ### Plain operations -/

section Plain

theorem plain_incr : (Op.redis (.incr sequenceKey)).Plain where
  quiet _ _ _ := by simp [Cmd.writes, jobKey_ne_sequenceKey]
  pushes := rfl
  done := rfl
  failed := rfl

theorem plain_count {o : String} {n : Int} (hd : o ≠ "done") (hf : o ≠ "failed") :
    (Op.redis (.hincrby statsKey o n)).Plain where
  quiet _ _ _ := by simp [Cmd.writes, jobKey_ne_statsKey]
  pushes := rfl
  done := by simp [Op.counts, hd]
  failed := by simp [Op.counts, hf]

theorem plain_duration {f : String} {q : ℚ} : (Op.redis (.hincrbyfloat statsKey f q)).Plain where
  quiet _ _ _ := by simp [Cmd.writes, jobKey_ne_statsKey]
  pushes := rfl
  done := rfl
  failed := rfl

theorem plain_attempt {t j : String} {n : Nat} :
    (Op.multi [.incr (attemptsKey t j), .expire (attemptsKey t j) n]).Plain where
  quiet c hc t' j' hj := by
    simp only [List.mem_cons, List.not_mem_nil, or_false] at hc
    rcases hc with rfl | rfl <;> simpa [Cmd.writes] using jobKey_ne_attemptsKey hj
  pushes := rfl
  done := rfl
  failed := rfl

theorem plain_payload {c : Cmd Blob} {p : String} (hc : ∀ k ∈ c.writes, k = payloadKey p)
    (hd : (Op.redis c).counts "done" = false) (hf : (Op.redis c).counts "failed" = false) :
    (Op.redis c).Plain where
  quiet _ _ _ h := jobKey_ne_payloadKey (hc _ h)
  pushes := rfl
  done := hd
  failed := hf

theorem plain_utcnow : Op.utcnow.Plain := ⟨trivial, rfl, rfl, rfl⟩
theorem plain_perfCounter : Op.perfCounter.Plain := ⟨trivial, rfl, rfl, rfl⟩
theorem plain_ingest {t : String} {u : DocumentUpload} : (Op.ingest t u).Plain := ⟨trivial, rfl, rfl, rfl⟩

end Plain

/-! ### Deliveries -/

section Delivery
variable {service : IngestionJobService} {t j : String}

theorem live_call {e : Op} (he : e.Plain) (hs : e.saves = none) :
    Follows (deliveryMonitor service t j) (fun _ g => g = .live) (.call e) .live := by
  refine Follows.call_iff.mpr ⟨Or.inl ⟨he, hs⟩, fun r g' hn => ?_⟩
  simpa only [deliveryMonitor, hs] using hn

theorem closing_call {e : Op} {failed counted pushed : Bool} (he : e.Plain) (hs : e.saves = none) :
    Follows (deliveryMonitor service t j) (fun _ g => g = .closing failed counted pushed) (.call e)
      (.closing failed counted pushed) := by
  refine Follows.call_iff.mpr ⟨⟨he.quiet, hs, ?_, ?_, ?_⟩, fun r g' hn => ?_⟩
  · simp [he.pushes]
  · simp [he.done]
  · simp [he.failed]
  · simpa [deliveryMonitor, he.pushes, he.done, he.failed] using hn

theorem get_follows : Follows (deliveryMonitor service t j) (fun r g => match r with
      | .ok (some job) => job.tenantId = t ∧ job.jobId = j ∧ g = .live
      | .ok none => g = .leaving
      | .error _ => True) (service.jobs.get t j) .waiting := by
  refine Follows.bind_iff.mpr (Follows.call_iff.mpr ⟨rfl, fun r g hn => ?_⟩)
  match r, hn with
  | .ok (.bulk (.job job)), hn => exact hn
  | .ok (.bulk (.int _)), _ | .ok (.bulk (.rat _)), _ | .ok (.bulk (.bytes _)), _ => trivial
  | .ok .nil, hn | .ok .ok, hn | .ok (.int _), hn | .ok (.bulks _), hn | .ok (.strings _), hn | .ok .error, hn =>
    exact hn
  | .error _, _ => trivial

theorem save_follows {job : IngestJob} (ht : job.tenantId = t) (hj : job.jobId = j) :
    Follows (deliveryMonitor service t j) (fun r g => match r with
      | .ok job' => job'.tenantId = t ∧ job'.jobId = j ∧ g = Phase.afterSave job
      | .error _ => True) (service.jobs.save job) .live := by
  refine (live_call plain_utcnow rfl).bind (fun now g hg => ?_) fun _ _ _ => trivial
  subst hg
  refine (live_call plain_incr rfl).bind (fun r g hg => ?_) fun _ _ _ => trivial
  subst hg
  split
  · refine Follows.bind_iff.mpr (Follows.call_iff.mpr ⟨Or.inr ⟨_, _, rfl, ht, hj⟩, fun r g hn => ?_⟩)
    cases r with
    | ok rs => exact ⟨ht, hj, hn⟩
    | error x => trivial
  · trivial

theorem count_follows {o : String} (hd : o ≠ "done") (hf : o ≠ "failed") :
    Follows (deliveryMonitor service t j) (fun _ g => g = .live) (service.jobs.count o) .live :=
  (live_call (plain_count hd hf) rfl).bind (fun _ _ hg => hg) fun _ _ hg => hg

theorem fail_follows {job : IngestJob} {error : String} {retryable : Bool} (ht : job.tenantId = t)
    (hj : job.jobId = j) :
    Follows (deliveryMonitor service t j) (fun _ _ => True) (service.fail job error retryable) .live := by
  refine (save_follows (by exact ht) (by exact hj)).bind (fun job' g hg => ?_) fun _ _ _ => trivial
  obtain ⟨ht', hj', rfl⟩ := hg
  refine Follows.bind (P := fun r g => match r with
    | .ok _ => g = .closing true true false
    | .error _ => True) ?_ (fun _ g hg => ?_) fun _ _ _ => trivial
  · refine Follows.bind_iff.mpr (Follows.call_iff.mpr ⟨⟨?_, rfl, ?_, ?_, ?_⟩, fun r g hn => ?_⟩)
    · exact (plain_count (o := "retried") (n := 1) (by decide) (by decide)).quiet
    · simp [Op.pushes]
    · simp [Op.counts]
    · simp
    · cases r with
      | ok _ => exact hn
      | error _ => trivial
  · subst hg
    refine Follows.bind_iff.mpr (Follows.bind_iff.mpr (Follows.call_iff.mpr ⟨⟨?_, rfl, ?_, ?_, ?_⟩, fun r g _ => ?_⟩))
    · intro c hc t' j' _
      simp only [List.mem_cons, List.not_mem_nil, or_false] at hc
      rcases hc with rfl | rfl <;> simpa [Cmd.writes] using jobKey_ne_dlqKey
    · simp only [Op.pushes, ↓reduceIte, Option.some.injEq, forall_eq', true_and]
      exact ⟨ht', hj'⟩
    · simp [Op.counts]
    · simp [Op.counts]
    · cases r <;> trivial

theorem finish_follows {job : IngestJob} {payloadId : String} {record : DocumentRecord} {started : ℚ}
    (ht : job.tenantId = t) (hj : job.jobId = j) :
    Follows (deliveryMonitor service t j) (fun _ _ => True) (service.finish job payloadId record started) .live := by
  refine Follows.bind (P := fun _ g => g = .live) ?_ (fun _ g hg => ?_) fun _ _ _ => trivial
  · exact (live_call (plain_payload (p := payloadId) (by simp [Cmd.writes]) rfl rfl) rfl).bind (fun _ _ hg => hg)
      fun _ _ hg => hg
  subst hg
  refine (save_follows (by exact ht) (by exact hj)).bind (fun job' g hg => ?_) fun _ _ _ => trivial
  obtain ⟨-, -, rfl⟩ := hg
  refine Follows.bind (P := fun _ g => g = .closing false true false) ?_ (fun _ g hg => ?_) fun _ _ _ => trivial
  · refine Follows.bind_iff.mpr (Follows.call_iff.mpr ⟨⟨?_, rfl, ?_, ?_, ?_⟩, fun r g hn => ?_⟩)
    · exact (plain_count (o := "retried") (n := 1) (by decide) (by decide)).quiet
    · simp [Op.pushes]
    · simp
    · simp [Op.counts]
    · cases r <;> exact hn
  subst hg
  refine (closing_call plain_perfCounter rfl).bind (fun _ g hg => ?_) fun _ _ _ => trivial
  subst hg
  refine Follows.bind (P := fun _ _ => True) ?_ (fun _ _ _ => trivial) fun _ _ _ => trivial
  exact (closing_call plain_duration rfl).bind (fun _ _ _ => trivial) fun _ _ _ => trivial

theorem handle_follows {job : IngestJob} {attempt : Int} {e : Exn} (ht : job.tenantId = t) (hj : job.jobId = j) :
    Follows (deliveryMonitor service t j) (fun _ _ => True) (service.handle job attempt e) .live := by
  unfold IngestionJobService.handle
  split
  · exact fail_follows ht hj
  · split
    · exact fail_follows ht hj
    · refine (save_follows (by exact ht) (by exact hj)).bind (fun job' g hg => ?_) fun _ _ _ => trivial
      obtain ⟨-, -, rfl⟩ := hg
      exact (count_follows (by decide) (by decide)).bind (fun _ _ _ => trivial) fun _ _ _ => trivial

theorem execute_follows {payloadId : String} :
    Follows (deliveryMonitor service t j) (fun _ _ => True) (service.execute t j payloadId) .waiting := by
  refine get_follows.bind (fun found g hg => ?_) fun _ _ _ => trivial
  match found, hg with
  | none, _ => trivial
  | some job, hg =>
    obtain ⟨ht, hj, rfl⟩ := hg
    refine Follows.bind (P := fun _ g => g = .live) ?_ (fun attempt g hg => ?_) fun _ _ _ => trivial
    · refine (live_call plain_attempt rfl).bind (fun rs g hg => ?_) fun _ _ hg => hg
      split <;> exact hg
    subst hg
    split
    · exact Follows.map (fail_follows ht hj)
    · refine (save_follows (by exact ht) (by exact hj)).bind (fun job g hg => ?_) fun _ _ _ => trivial
      obtain ⟨ht, hj, rfl⟩ := hg
      refine Follows.bind (P := fun _ g => g = .live) ?_ (fun data g hg => ?_) fun _ _ _ => trivial
      · refine (live_call (plain_payload (p := payloadId) (by simp [Cmd.writes]) rfl rfl) rfl).bind
          (fun r g hg => ?_) fun _ _ hg => hg
        split <;> exact hg
      subst hg
      split
      · exact Follows.map (fail_follows ht hj)
      · refine (live_call plain_perfCounter rfl).bind (fun _ g hg => ?_) fun _ _ _ => trivial
        subst hg
        refine Follows.bind (P := fun _ g => g = .live)
          (Follows.attempt_iff.mpr ((live_call plain_ingest rfl).mono fun _ _ hg => hg)) (fun outcome g hg => ?_)
          fun _ _ _ => trivial
        subst hg
        cases outcome with
        | error e => exact Follows.map (handle_follows ht hj)
        | ok record => exact Follows.map (finish_follows ht hj)

end Delivery

/-! ### Uploads -/

section Upload
variable {service : IngestionJobService}

theorem saved_call {e : Op} {j : String} (he : e.Plain) (hs : e.saves = none) :
    Follows (uploadMonitor service) (fun _ g => g = .saved j) (.call e) (.saved j) :=
  Follows.call_iff.mpr ⟨Or.inl ⟨he, hs⟩, fun _ _ hn => hn⟩

theorem holds_call {e : Op} {j : String} (he : e.Plain) (hs : e.saves = none) :
    Follows (uploadMonitor service) (fun _ g => g = .holds j) (.call e) (.holds j) := by
  refine Follows.call_iff.mpr ⟨Or.inl ⟨he, hs⟩, fun r g hn => ?_⟩
  simpa [uploadMonitor, hs] using hn

theorem submit_follows {tenantId : String} {upload : DocumentUpload} {requestId : Option String} :
    Follows (uploadMonitor service) (fun _ _ => True) (service.submit tenantId upload requestId) .parking := by
  refine Follows.bind (P := fun _ g => g = .drawing) ?_ (fun payloadId g hg => ?_) fun _ _ _ => trivial
  · refine Follows.bind_iff.mpr (Follows.call_iff.mpr ⟨rfl, fun r g hn => ?_⟩)
    obtain rfl := hn rfl
    cases r with
    | error _ => rfl
    | ok payloadId =>
      refine Follows.bind_iff.mpr (Follows.call_iff.mpr
        ⟨Or.inl ⟨plain_payload (p := payloadId) (by simp [Cmd.writes]) rfl rfl, rfl⟩, fun r g hn => ?_⟩)
      cases r <;> exact hn
  subst hg
  refine Follows.bind_iff.mpr (Follows.call_iff.mpr ⟨Or.inr rfl, fun r g hn => ?_⟩)
  match r, hn with
  | .error _, _ => trivial
  | .ok jobId, hn =>
    subst hn
    refine (holds_call plain_utcnow rfl).bind (fun now g hg => ?_) fun _ _ _ => trivial
    subst hg
    refine Follows.bind (P := fun r g => match r with
      | .ok job => job.jobId = jobId ∧ g = .saved jobId
      | .error _ => True) ?_ (fun job g hg => ?_) fun _ _ _ => trivial
    · refine (holds_call plain_utcnow rfl).bind (fun now' g hg => ?_) fun _ _ _ => trivial
      subst hg
      refine (holds_call plain_incr rfl).bind (fun r g hg => ?_) fun _ _ _ => trivial
      subst hg
      split
      · refine Follows.bind_iff.mpr (Follows.call_iff.mpr ⟨Or.inr ⟨_, _, rfl, rfl, rfl⟩, fun r g hn => ?_⟩)
        cases r with
        | error _ => trivial
        | ok _ => exact ⟨rfl, hn⟩
      · trivial
    · obtain ⟨rfl, rfl⟩ := hg
      refine Follows.bind (P := fun _ g => g = .saved job.jobId) ?_ (fun _ g hg => ?_) fun _ _ _ => trivial
      · exact (saved_call (plain_count (by decide) (by decide)) rfl).bind (fun _ _ hg => hg) fun _ _ hg => hg
      subst hg
      refine Follows.bind_iff.mpr (Follows.call_iff.mpr ⟨Or.inr ⟨job, payloadId, rfl, rfl⟩, fun r g _ => ?_⟩)
      cases r <;> trivial

end Upload

theorem watch_sound (service : IngestionJobService) : (watch service).Sound := by
  rintro (⟨t, u, q⟩ | ⟨t, j, p⟩)
  · show Follows (uploadMonitor service) (fun _ _ => True) (some <$> service.submit t u q) .parking
    exact submit_follows.map
  · exact execute_follows

end NexusGate.Workers
