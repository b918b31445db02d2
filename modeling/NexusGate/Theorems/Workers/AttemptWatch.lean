import NexusGate.Theorems.Workers.KeySpaces

/-! # How far a delivery has come

Each delivery is watched through its attempt: it is waiting for its number, it was cleared to run, it is about to
call `ingest`, it has done so, or its number was over the limit and all that is left to do is to fail the job. -/

namespace NexusGate.Workers
open Async Async.System Redis Rag

/-! ### Operations that matter -/

/-- The operation of `start_attempt`. -/
def Op.attempts : Op → Bool
  | .multi (.incr _ :: _) => true
  | _ => false

/-- The operation is the call of `ingest`. -/
def Op.isIngest : Op → Bool
  | .ingest _ _ => true
  | _ => false

/-- The operation reads the clock that times an attempt. -/
def Op.isClock : Op → Bool
  | .perfCounter => true
  | _ => false

/-- The number that `start_attempt` reads off an answer. -/
def Op.number : (e : Op) → Except Exn e.Reply → Option Int
  | .multi (.incr _ :: _), .ok (.int a :: _) => some a
  | _, _ => none

/-- The operation neither starts an attempt nor ingests. -/
structure Op.Aside (e : Op) : Prop where
  attempts : e.attempts = false
  ingest : e.isIngest = false

/-- Nor does it read the clock. -/
structure Op.Blind (e : Op) : Prop extends e.Aside where
  clock : e.isClock = false

/-! ### Stages -/

/-- Where an attempt at a job stands. -/
inductive Stage
  /-- No number yet. -/
  | waiting
  /-- The number is within the limit. -/
  | cleared
  /-- The clock was read: `ingest` is called next. -/
  | entered
  /-- `ingest` has ended. -/
  | past
  /-- The number is over the limit; whether `FAILED` is stored, and whether the job is pushed. -/
  | refused (failed pushed : Bool)
  /-- A call that runs no attempt. -/
  | leaving

section Watch
variable (service : IngestionJobService)

/-- Where a number leads. -/
def Stage.numbered (a : Int) : Stage := if a > service.maxAttempts then .refused false false else .cleared

/-- What an attempt may do at each of its stages. -/
def attemptMonitor (t j : String) : Monitor Op Op.Reply Exn Stage where
  may
    | .waiting, e => e = .redis (.get (jobKey t j)) ∨
        e = .multi [.incr (attemptsKey t j), .expire (attemptsKey t j) service.jobs.retention]
    | .entered, e => e.isIngest = true
    | .refused _ _, e => e.Blind ∧ (∀ job, e.saves = some job → job.tenantId = t ∧ job.jobId = j ∧ job.status = .failed) ∧
        ∀ job, e.pushes = some job → job.tenantId = t ∧ job.jobId = j
    | .leaving, e => e.Blind
    | _, e => e.Aside
  next
    | .waiting, e, r, g => if e.attempts then g = match e.number r with
        | some a => Stage.numbered service a
        | none => .leaving
      else g = .waiting ∧ ∀ job, e.loaded r = some job → job.tenantId = t ∧ job.jobId = j
    | .cleared, e, _, g => g = if e.isClock then .entered else .cleared
    | .refused failed pushed, e, r, g =>
      g = .refused (failed || e.saves.isSome && succeeded r) (pushed || e.pushes.isSome && succeeded r)
    | .entered, _, _, g => g = .past
    | .past, _, _, g => g = .past
    | .leaving, _, _, g => g = .leaving

/-- The job that a call works on: an upload has none yet. -/
def Call.job : Call → String × String
  | .submit t _ _ => (t, "")
  | .execute t j _ => (t, j)

/-- Every call is watched for its attempt; an upload has none. -/
def attemptWatch : Watch (system service) where
  G := Stage
  monitor c := attemptMonitor service c.job.1 c.job.2
  first
    | .submit _ _ _ => .leaving
    | .execute _ _ _ => .waiting
  last _ r g := ∀ failed pushed, g = .refused failed pushed → succeeded r = true → failed = true ∧ pushed = true

end Watch

/-! ### What the methods hand out -/

section Hands
variable {service : IngestionJobService} {jobs : JobStore}

theorem save_blind {job : IngestJob} : Hands Op.Blind (jobs.save job) := by
  refine (Hands.call ⟨⟨rfl, rfl⟩, rfl⟩).bind fun now => (Hands.call ⟨⟨rfl, rfl⟩, rfl⟩).bind fun r => ?_
  split
  · exact (Hands.call ⟨⟨rfl, rfl⟩, rfl⟩).bind fun _ => trivial
  · trivial

theorem count_blind {o : String} : Hands Op.Blind (jobs.count o) :=
  (Hands.call ⟨⟨rfl, rfl⟩, rfl⟩).bind fun _ => trivial

theorem fail_blind {job : IngestJob} {error : String} {retryable : Bool} :
    Hands Op.Blind (service.fail job error retryable) := by
  refine save_blind.bind fun job => count_blind.bind fun _ => Hands.bind ?_ fun _ => trivial
  exact (Hands.call ⟨⟨rfl, rfl⟩, rfl⟩).bind fun _ => trivial

theorem finish_aside {job : IngestJob} {payloadId : String} {record : DocumentRecord} {started : ℚ} :
    Hands Op.Aside (service.finish job payloadId record started) := by
  have haside : ∀ e : Op, e.Blind → e.Aside := fun _ h => h.toAside
  refine Hands.bind ((Hands.call ⟨rfl, rfl⟩).bind fun _ => trivial) fun _ => ?_
  refine (save_blind.mono haside).bind fun job => (count_blind.mono haside).bind fun _ => ?_
  refine (Hands.call ⟨rfl, rfl⟩).bind fun _ => Hands.bind ?_ fun _ => trivial
  exact (Hands.call ⟨rfl, rfl⟩).bind fun _ => trivial

theorem handle_blind {job : IngestJob} {attempt : Int} {e : Exn} : Hands Op.Blind (service.handle job attempt e) := by
  unfold IngestionJobService.handle
  split
  · exact fail_blind
  · split
    · exact fail_blind
    · exact save_blind.bind fun _ => count_blind.bind fun _ => trivial

theorem payload_blind {payloads : PayloadStore} {payloadId : String} : Hands Op.Blind (payloads.get payloadId) := by
  refine (Hands.call ⟨⟨rfl, rfl⟩, rfl⟩).bind fun r => ?_
  split <;> trivial

theorem submit_blind {t : String} {upload : DocumentUpload} {requestId : Option String} :
    Hands Op.Blind (service.submit t upload requestId) := by
  refine Hands.bind ((Hands.call ⟨⟨rfl, rfl⟩, rfl⟩).bind fun _ => (Hands.call ⟨⟨rfl, rfl⟩, rfl⟩).bind fun _ => trivial)
    fun payloadId => (Hands.call ⟨⟨rfl, rfl⟩, rfl⟩).bind fun jobId => (Hands.call ⟨⟨rfl, rfl⟩, rfl⟩).bind fun now => ?_
  refine save_blind.bind fun job => count_blind.bind fun _ => ?_
  exact (Hands.call ⟨⟨rfl, rfl⟩, rfl⟩).bind fun _ => trivial

end Hands

/-! ### The bodies -/

section Follow
variable {service : IngestionJobService} {t j : String}

/-- Work on the side does not change how far a delivery has come. -/
theorem past_follows {α : Type} {p : Program α} (hp : Hands Op.Aside p) :
    Follows (attemptMonitor service t j) (fun _ g => g = .past) p .past :=
  hp.follows (I := fun g => g = Stage.past) (fun g e hg he => by cases hg; exact he)
    (fun g e r g' hg _ hn => by cases hg; exact hn) (fun _ _ hg => hg) rfl

theorem leaving_follows {α : Type} {p : Program α} (hp : Hands Op.Blind p) :
    Follows (attemptMonitor service t j) (fun _ g => g = .leaving) p .leaving :=
  hp.follows (I := fun g => g = Stage.leaving) (fun g e hg he => by cases hg; exact he)
    (fun g e r g' hg _ hn => by cases hg; exact hn) (fun _ _ hg => hg) rfl

theorem cleared_follows {α : Type} {p : Program α} (hp : Hands Op.Blind p) :
    Follows (attemptMonitor service t j) (fun _ g => g = .cleared) p .cleared := by
  refine hp.follows (I := fun g => g = Stage.cleared) (fun g e hg he => ?_) (fun g e r g' hg he hn => ?_) (fun _ _ hg => hg) rfl
  · cases hg
    exact he.toAside
  · cases hg
    have hn : g' = if e.isClock then Stage.entered else .cleared := hn
    rw [hn, he.clock]
    rfl

/-- An operation of `_fail` that neither saves nor pushes. -/
theorem refused_call {e : Op} (he : e.Blind) (hs : e.saves = none) (hp : e.pushes = none) {failed pushed : Bool} :
    Follows (attemptMonitor service t j) (fun _ g => g = .refused failed pushed) (.call e) (.refused failed pushed) := by
  refine Follows.call_iff.mpr ⟨⟨he, fun job h => ?_, fun job h => ?_⟩, fun r g hn => ?_⟩
  · rw [hs] at h
    cases h
  · rw [hp] at h
    cases h
  · simpa [attemptMonitor, hs, hp] using hn

/-- What saving the failed record comes to. -/
def SavedFailed (t j : String) : Except Exn IngestJob → Stage → Prop
  | .ok job, g => g = .refused true false ∧ job.tenantId = t ∧ job.jobId = j
  | .error _, g => g = .refused false false

/-- `_fail` of a job whose number is over the limit. -/
theorem refused_follows {job : IngestJob} {error : String} {retryable : Bool} (ht : job.tenantId = t) (hj : job.jobId = j) :
    Follows (attemptMonitor service t j) (fun r g => ∃ failed pushed, g = .refused failed pushed ∧
      (succeeded r = true → failed = true ∧ pushed = true)) (service.fail job error retryable) (.refused false false) := by
  have hraised : ∀ {failed pushed : Bool} {x : Exn}, ∃ f p, Stage.refused failed pushed = .refused f p ∧
      (succeeded (.error x : Except Exn IngestJob) = true → f = true ∧ p = true) :=
    ⟨_, _, rfl, fun h => by cases h⟩
  refine Follows.bind (P := SavedFailed t j) ?_ (fun job' g hg => ?_) fun x g hg => by obtain rfl : g = .refused false false := hg; exact hraised
  · refine (refused_call ⟨⟨rfl, rfl⟩, rfl⟩ rfl rfl).bind (fun now g hg => ?_) fun x g hg => hg
    cases hg
    refine (refused_call ⟨⟨rfl, rfl⟩, rfl⟩ rfl rfl).bind (fun r g hg => ?_) fun x g hg => hg
    cases hg
    split
    · refine Follows.bind_iff.mpr (Follows.call_iff.mpr ⟨⟨⟨⟨rfl, rfl⟩, rfl⟩, fun saved hs => ?_, fun _ h => by cases h⟩,
        fun r g hn => ?_⟩)
      · cases hs
        exact ⟨ht, hj, rfl⟩
      · cases r with
        | ok _ => exact ⟨hn, ht, hj⟩
        | error _ => exact hn
    · rfl
  obtain ⟨rfl, ht', hj'⟩ := hg
  refine Follows.bind (P := fun _ g => g = .refused true false) ?_ (fun _ g hg => ?_) fun x g hg => by rw [hg]; exact hraised
  · exact (refused_call ⟨⟨rfl, rfl⟩, rfl⟩ rfl rfl).bind (fun _ _ hg => hg) fun _ _ hg => hg
  cases hg
  refine Follows.bind_iff.mpr (Follows.bind_iff.mpr (Follows.call_iff.mpr
    ⟨⟨⟨⟨rfl, rfl⟩, rfl⟩, (fun job' hs => by cases hs), fun pushed hp => ?_⟩, fun r g hn => ?_⟩))
  · cases hp
    exact ⟨ht', hj'⟩
  · cases r with
    | ok _ => exact ⟨true, true, hn, fun _ => ⟨rfl, rfl⟩⟩
    | error _ => exact ⟨true, false, hn, fun h => by cases h⟩

theorem startAttempt_follows {jobs : JobStore} (hjobs : jobs = service.jobs) :
    Follows (attemptMonitor service t j) (fun r g => match r with
      | .ok a => g = Stage.numbered service a
      | .error _ => g = .leaving) (jobs.startAttempt t j) .waiting := by
  subst hjobs
  refine Follows.bind_iff.mpr (Follows.call_iff.mpr ⟨Or.inr rfl, fun r g hn => ?_⟩)
  match r, hn with
  | .ok (.int a :: _), hn => exact hn
  | .ok [], hn | .ok (.nil :: _), hn | .ok (.ok :: _), hn | .ok (.bulk _ :: _), hn | .ok (.bulks _ :: _), hn
  | .ok (.strings _ :: _), hn | .ok (.error :: _), hn => exact hn
  | .error _, hn => exact hn

theorem execute_attempts {payloadId : String} :
    Follows (attemptMonitor service t j) ((attemptWatch service).last (.execute t j payloadId))
      (service.execute t j payloadId) .waiting := by
  have hlast : ∀ {r : Except Exn (Option IngestJob)} {g : Stage}, (∀ failed pushed, g ≠ .refused failed pushed) →
      (attemptWatch service).last (.execute t j payloadId) r g := fun hg f p h => absurd h (hg f p)
  refine Follows.bind (P := fun r g => g = .waiting ∧ ∀ job, r = .ok (some job) → job.tenantId = t ∧ job.jobId = j) ?_
    (fun found g hg => ?_) fun x g hg => hlast (by rw [hg.1]; nofun)
  · refine Follows.bind_iff.mpr (Follows.call_iff.mpr ⟨Or.inl rfl, fun r g hn => ?_⟩)
    obtain ⟨rfl, hown⟩ : g = .waiting ∧ ∀ job, Op.loaded (.redis (.get (jobKey t j))) r = some job → _ := hn
    match r, hown with
    | .ok (.bulk (.job job)), hown => exact ⟨rfl, fun job' h => by cases h; exact hown job rfl⟩
    | .ok (.bulk (.int _)), _ | .ok (.bulk (.rat _)), _ | .ok (.bulk (.bytes _)), _ => exact ⟨rfl, fun _ h => by cases h⟩
    | .ok .nil, _ | .ok .ok, _ | .ok (.int _), _ | .ok (.bulks _), _ | .ok (.strings _), _ | .ok .error, _ =>
      exact ⟨rfl, fun _ h => by cases h⟩
    | .error _, _ => exact ⟨rfl, fun _ h => by cases h⟩
  obtain ⟨rfl, hown⟩ := hg
  match found, hown with
  | none, _ => exact hlast (by nofun)
  | some job, hown =>
    obtain ⟨ht, hj⟩ := hown job rfl
    refine (startAttempt_follows rfl).bind (fun attempt g hg => ?_) fun x g hg => hlast (by rw [hg]; nofun)
    have hg : g = Stage.numbered service attempt := hg
    unfold Stage.numbered at hg
    split
    · rw [if_pos ‹_›] at hg
      subst hg
      refine Follows.map ((refused_follows ht hj).mono fun r g hg f p hgf hr => ?_)
      obtain ⟨f', p', rfl, hdone⟩ := hg
      cases hgf
      refine hdone ?_
      cases r with
      | ok _ => rfl
      | error _ => cases hr
    · rw [if_neg ‹_›] at hg
      subst hg
      refine (cleared_follows save_blind).bind (fun job' g hg => ?_) fun x g hg => hlast (by rw [hg]; nofun)
      cases hg
      refine (cleared_follows payload_blind).bind (fun data g hg => ?_) fun x g hg => hlast (by rw [hg]; nofun)
      cases hg
      split
      · exact Follows.map ((cleared_follows fail_blind).mono fun _ _ hg => hlast (by rw [hg]; nofun))
      · refine Follows.bind_iff.mpr (Follows.call_iff.mpr ⟨⟨rfl, rfl⟩, fun started g hn => ?_⟩)
        have hn : g = .entered := hn
        subst hn
        cases started with
        | error x => exact hlast (by nofun)
        | ok started =>
          refine Follows.bind (P := fun _ g => g = Stage.past) (Follows.attempt_iff.mpr (Follows.call_iff.mpr
            ⟨rfl, fun r g hn => hn⟩)) (fun outcome g hg => ?_) fun x g hg => hlast (by rw [hg]; nofun)
          cases hg
          cases outcome with
          | error e =>
            exact Follows.map ((past_follows (handle_blind.mono fun _ h => h.toAside)).mono fun _ _ hg => hlast (by rw [hg]; nofun))
          | ok record => exact Follows.map ((past_follows finish_aside).mono fun _ _ hg => hlast (by rw [hg]; nofun))

theorem attemptWatch_sound : (attemptWatch service).Sound := by
  rintro (⟨t, u, q⟩ | ⟨t, j, p⟩)
  · exact Follows.map ((leaving_follows submit_blind).mono fun _ _ hg f p h => by rw [hg] at h; cases h)
  · exact execute_attempts

end Follow
end NexusGate.Workers
