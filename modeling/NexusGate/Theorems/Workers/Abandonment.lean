import NexusGate.Theorems.Workers.Absorbing
import NexusGate.Theorems.Workers.Calls

/-! # Deliveries that are cut short

One delivery on its own, with any of its calls to Redis failing. Only what `ingest` raises is turned into a retry:
an error of any other call leaves `execute` as it is, and neither queue driver runs the job again for it. -/

namespace NexusGate.Workers
open Async Redis Rag

/-- A delivery of a job whose record exists: what it finds under the keys it reads. -/
structure Delivery (service : IngestionJobService) (s : State) where
  tenantId : String
  jobId : String
  payloadId : String
  job : IngestJob
  /-- The deliveries counted before. -/
  count : Int
  data : Option Bytes
  retained : 0 < service.jobs.retention
  generated : isUuidHex jobId = true
  record : s.record? tenantId jobId = some job
  own : job.tenantId = tenantId ∧ job.jobId = jobId
  counted : int? s.now s.store (attemptsKey tenantId jobId) = some count
  parked : value? s.now s.store (payloadKey payloadId) = data.map fun d => .str (.bytes d)
  kinds : Kinds tenantId s

/-- Both queue drivers run a job again on `TransientJobError`, and on nothing else. -/
def runsAgain {α : Type} : Except Exn α → Bool
  | .error (.transientJob _) => true
  | _ => false

/-- The job has ended, or the queue runs it again and attempts are left. -/
def Carried (service : IngestionJobService) (t j : String) (r : Except Exn (Option IngestJob)) (s : State) : Prop :=
  (∃ job, s.record? t j = some job ∧ job.status.terminal = true) ∨
  (runsAgain r = true ∧ ∃ n, int? s.now s.store (attemptsKey t j) = some n ∧ n < service.maxAttempts)

namespace Delivery
variable {service : IngestionJobService} {s : State} (d : Delivery service s)

/-- No call fails before the terminal record is written or the retry is counted. -/
def undisturbed (f : Faults) : Bool :=
  if service.maxAttempts < d.count + 1 then f.clear 2 && f.writes 2
  else match d.data, f.ingested with
    | none, _ => f.clear 5 && f.writes 5
    | some _, .error e => if e.permanent || service.maxAttempts ≤ d.count + 1 then f.clear 5 && f.writes 5 else f.clear 8
    | some _, .ok _ => f.clear 6 && f.writes 6

/-- The job has ended before, and the delivery fails before it writes `PROCESSING`, or comes to write `FAILED`. -/
def late (f : Faults) : Bool :=
  d.job.status.terminal && (service.maxAttempts < d.count + 1 || !(f.clear 2 && f.writes 2))

/-- What is known of the state in the middle of the delivery. -/
structure Stage (job : IngestJob) (count : Int) (s' : State) : Prop where
  kinds : Kinds d.tenantId s'
  record : s'.record? d.tenantId d.jobId = some job
  counted : int? s'.now s'.store (attemptsKey d.tenantId d.jobId) = some count

/-- The record is one of this job. -/
def Owns (job : IngestJob) : Prop := job.tenantId = d.tenantId ∧ job.jobId = d.jobId

end Delivery

/-! ### The methods that a delivery calls -/

namespace Delivery
variable {service : IngestionJobService} {s s' s'' : State} {d : Delivery service s} {job : IngestJob} {count : Int}

theorem attempts_ne_job : attemptsKey d.tenantId d.jobId ≠ jobKey d.tenantId d.jobId :=
  (jobKey_ne_attemptsKey d.generated).symm

theorem attempts_ne_ragjobs {x : String} : attemptsKey d.tenantId d.jobId ≠ "ragjobs:" ++ x :=
  attemptsKey_eq ▸ jobKey_ne_ragjobs

theorem Stage.start (d : Delivery service s) : d.Stage d.job d.count s := ⟨d.kinds, d.record, d.counted⟩

/-- A call that writes keys of other kinds. -/
theorem Stage.apart (h : d.Stage job count s') {ks : List String} (hkinds : Kinds d.tenantId s'') (ha : Apart ks s' s'')
    (hjob : jobKey d.tenantId d.jobId ∉ ks) (hattempts : attemptsKey d.tenantId d.jobId ∉ ks) : d.Stage job count s'' :=
  ⟨hkinds, (ha.record hjob).trans h.record, (ha.int hattempts).trans h.counted⟩

/-- The delivery is counted. -/
theorem Stage.counts (h : d.Stage job count s') :
    let out := Redis.execAll s'.now [.incr (attemptsKey d.tenantId d.jobId),
      .expire (attemptsKey d.tenantId d.jobId) service.jobs.retention] s'.store
    (∃ m, out.1 = [.int (count + 1), .int m]) ∧ d.Stage job (count + 1) { s' with store := out.2 } ∧
      Apart [attemptsKey d.tenantId d.jobId] s' { s' with store := out.2 } := by
  intro out
  obtain ⟨hr, hv⟩ := exec_incr_int h.counted
  obtain ⟨m, hm⟩ := @exec_expire_int _ _ s'.now service.jobs.retention
    (Redis.exec s'.now (.incr (attemptsKey d.tenantId d.jobId)) s'.store).2 (attemptsKey d.tenantId d.jobId)
  have happart : Apart [attemptsKey d.tenantId d.jobId] s' { s' with store := out.2 } := .store fun k hk =>
    execAll_frame (by simpa [Cmd.writes] using hk)
  refine ⟨⟨m, ?_⟩, ⟨h.kinds.apart happart ?_ ?_ ?_, ?_, ?_⟩, happart⟩
  · simp only [out, execAll_cons_fst, hr, hm]
    rfl
  · exact fun hmem => attempts_ne_ragjobs (x := "seq") (List.mem_singleton.mp hmem).symm
  · exact fun hmem => attempts_ne_ragjobs (List.mem_singleton.mp hmem).symm
  · exact fun hmem => attempts_ne_ragjobs (x := "stats") (List.mem_singleton.mp hmem).symm
  · exact (happart.record (by simpa using attempts_ne_job.symm)).trans h.record
  · show int? s'.now out.2 _ = _
    have : value? s'.now out.2 (attemptsKey d.tenantId d.jobId) = some (.str (.int (count + 1))) :=
      (exec_expire_keeps d.retained).trans hv
    rw [int?, this]
    rfl

section Methods
variable {f : Faults} {a : Alone}

/-- The record is read. -/
theorem get_ends (h : d.Stage job count a.toState) {Q : Except Exn (Option IngestJob) → Alone → Prop}
    (hok : f.lost a.calls = none → Q (.ok (some job)) ⟨a.toState, a.calls + 1⟩)
    (hlost : f.lost a.calls ≠ none → Q (.error connectionError) ⟨a.toState, a.calls + 1⟩) :
    Ends f.answer (service.jobs.get d.tenantId d.jobId) a Q := by
  have hget : Redis.exec a.now (.get (jobKey d.tenantId d.jobId)) a.store = (.bulk (.job job), a.store) := by
    have hrecord := h.record
    unfold State.record? at hrecord
    split at hrecord
    · rename_i hv
      cases hrecord
      simp only [Redis.exec, hv]
    · cases hrecord
  refine Ends.bind_iff.mpr (Faults.redis_ends (fun hl => ?_) (fun hl => ?_) fun hl => ?_)
  · rw [hget]
    exact hok hl
  · exact hlost (by simp [hl])
  · rw [hget]
    exact hlost (by simp [hl])

/-- The delivery is counted, or its command is lost before or after that. -/
theorem startAttempt_ends (h : d.Stage job count a.toState) {Q : Except Exn Int → Alone → Prop}
    (hok : f.lost a.calls = none → ∀ a', d.Stage job (count + 1) a'.toState → a'.calls = a.calls + 1 →
      value? a'.now a'.store (payloadKey d.payloadId) = value? a.now a.store (payloadKey d.payloadId) → Q (.ok (count + 1)) a')
    (hlost : f.lost a.calls ≠ none → ∀ count' a', d.Stage job count' a'.toState → Q (.error connectionError) a') :
    Ends f.answer (service.jobs.startAttempt d.tenantId d.jobId) a Q := by
  obtain ⟨⟨m, hm⟩, hstage, happart⟩ := h.counts
  refine Ends.bind_iff.mpr (Faults.multi_ends (fun hl => ?_) (fun hl => hlost (by simp [hl]) _ _ h) fun hl =>
    hlost (by simp [hl]) _ _ hstage)
  rw [hm]
  exact hok hl _ hstage rfl (happart.value (by simp [attemptsKey_eq, jobKey_ne_payloadKey.symm]))

/-- A save draws a number and writes the record; either step can fail. -/
theorem save_ends (h : d.Stage job count a.toState) {job' : IngestJob} (hown : d.Owns job')
    {Q : Except Exn IngestJob → Alone → Prop}
    (hok : f.lost a.calls = none → f.lost (a.calls + 1) = none →
      ∀ a', d.Stage { job' with updatedAt := f.date } count a'.toState → a'.calls = a.calls + 2 →
        value? a'.now a'.store (payloadKey d.payloadId) = value? a.now a.store (payloadKey d.payloadId) →
        Q (.ok { job' with updatedAt := f.date }) a')
    (hlate : f.lost a.calls = none → f.lost (a.calls + 1) = some true →
      ∀ a', d.Stage { job' with updatedAt := f.date } count a'.toState → Q (.error connectionError) a')
    (hlost : f.writes a.calls = false → ∀ a', d.Stage job count a'.toState → Q (.error connectionError) a') :
    Ends f.answer (service.jobs.save job') a Q := by
  obtain ⟨ht, hj⟩ := hown
  have hattempts : attemptsKey d.tenantId d.jobId ∉ [sequenceKey, jobKey d.tenantId d.jobId, indexKey d.tenantId] := by
    have hsequence := attempts_ne_ragjobs (d := d) (x := "seq")
    have hindex := attempts_ne_ragjobs (d := d) (x := d.tenantId)
    simp only [List.mem_cons, List.not_mem_nil, or_false, not_or]
    exact ⟨hsequence, attempts_ne_job, hindex⟩
  have hpayload : payloadKey d.payloadId ∉ [sequenceKey, jobKey d.tenantId d.jobId, indexKey d.tenantId] := by
    simp only [List.mem_cons, List.not_mem_nil, or_false, not_or]
    exact ⟨payloadKey_ne_ragjobs (x := "seq"), jobKey_ne_payloadKey.symm, payloadKey_ne_ragjobs⟩
  refine h.kinds.save_ends d.retained ht (fun h₀ h₁ a' hk hr ha hn => ?_) (fun h₀ h₁ a' hk hr ha => ?_) fun hw a' hk ha => ?_
  · rw [hj] at ha
    exact hok h₀ h₁ a' ⟨hk, hj ▸ hr.record, (ha.int hattempts).trans h.counted⟩ hn (ha.value hpayload)
  · rw [hj] at ha
    exact hlate h₀ h₁ a' ⟨hk, hj ▸ hr.record, (ha.int hattempts).trans h.counted⟩
  · exact hlost hw a' (h.apart hk ha (by simp [jobKey_ne_sequenceKey]) fun hmem => hattempts (by simp [List.mem_singleton.mp hmem]))

theorem count_ends (h : d.Stage job count a.toState) {o : String} (ho : o ∈ outcomes) {Q : Except Exn Unit → Alone → Prop}
    (hok : f.lost a.calls = none → ∀ a', d.Stage job count a'.toState → a'.calls = a.calls + 1 → Q (.ok ()) a')
    (hlost : f.lost a.calls ≠ none → ∀ a', d.Stage job count a'.toState → Q (.error connectionError) a') :
    Ends f.answer (service.jobs.count o) a Q := by
  obtain ⟨n, hn⟩ := h.kinds.stats o ho
  have keep : ∀ {a' : Alone}, Kinds d.tenantId a'.toState → Apart [statsKey] a.toState a'.toState → d.Stage job count a'.toState :=
    fun hk ha => h.apart hk ha (by simp [jobKey_ne_statsKey]) fun hmem =>
      attempts_ne_ragjobs (x := "stats") (List.mem_singleton.mp hmem)
  exact h.kinds.count_ends hn (fun hl a' hk _ ha hc => hok hl a' (keep hk ha) hc) fun applied hl a' hk _ ha =>
    hlost (by simp [hl]) a' (keep hk ha)

/-- The uploaded bytes are read, if they are there. -/
theorem payload_ends (h : d.Stage job count a.toState)
    (hp : value? a.now a.store (payloadKey d.payloadId) = d.data.map fun bytes => .str (.bytes bytes))
    {Q : Except Exn (Option Bytes) → Alone → Prop}
    (hok : f.lost a.calls = none → ∀ a', d.Stage job count a'.toState → a'.calls = a.calls + 1 → Q (.ok d.data) a')
    (hlost : f.lost a.calls ≠ none → ∀ a', d.Stage job count a'.toState → Q (.error connectionError) a') :
    Ends f.answer (service.payloads.get d.payloadId) a Q := by
  have hget : Redis.exec a.now (.get (payloadKey d.payloadId)) a.store =
      (d.data.elim .nil fun bytes => .bulk (.bytes bytes), a.store) := by
    simp only [Redis.exec, hp]
    cases d.data <;> rfl
  refine Ends.bind_iff.mpr (Faults.redis_ends (fun hl => ?_) (fun hl => hlost (by simp [hl]) _ h) fun hl => ?_)
  · rw [hget]
    have hfound := hok hl ⟨a.toState, a.calls + 1⟩ h rfl
    cases hd : d.data <;> rw [hd] at hfound <;> exact hfound
  · rw [hget]
    exact hlost (by simp [hl]) _ h

theorem delete_ends (h : d.Stage job count a.toState) {Q : Except Exn Unit → Alone → Prop}
    (hok : f.lost a.calls = none → ∀ a', d.Stage job count a'.toState → a'.calls = a.calls + 1 → Q (.ok ()) a')
    (hlost : f.lost a.calls ≠ none → ∀ a', d.Stage job count a'.toState → Q (.error connectionError) a') :
    Ends f.answer (service.payloads.delete d.payloadId) a Q := by
  have happart : Apart [payloadKey d.payloadId] a.toState
      { a.toState with store := (Redis.exec a.now (.del [payloadKey d.payloadId]) a.store).2 } := .store fun k hk => exec_frame hk
  have hstage : d.Stage job count _ := h.apart (h.kinds.apart happart
      (fun hmem => payloadKey_ne_ragjobs (x := "seq") (List.mem_singleton.mp hmem).symm)
      (fun hmem => payloadKey_ne_ragjobs (List.mem_singleton.mp hmem).symm)
      fun hmem => payloadKey_ne_ragjobs (x := "stats") (List.mem_singleton.mp hmem).symm)
    happart (by simpa using jobKey_ne_payloadKey) (by simpa [attemptsKey_eq] using jobKey_ne_payloadKey)
  refine Ends.bind_iff.mpr (Faults.redis_ends (fun hl => ?_) (fun hl => hlost (by simp [hl]) _ h) fun hl =>
    hlost (by simp [hl]) _ hstage)
  exact hok hl _ hstage rfl

/-- What a delivery does after it has ended the job changes no record. -/
theorem quiet_ends {α : Type} {p : Program α} (hp : Hands Op.Quiet p) (h : a.toState.record? d.tenantId d.jobId = some job)
    {Q : Except Exn α → Alone → Prop} (hq : ∀ r a', a'.toState.record? d.tenantId d.jobId = some job → Q r a') :
    Ends f.answer p a Q := by
  refine (Ends.hands (I := fun a => a.toState.record? d.tenantId d.jobId = some job) (fun e a he ha => ?_) hp h).mono hq
  unfold Faults.answer
  split
  · rename_i r s' hex
    obtain ⟨hrest, hsame⟩ := exec_quiet he hex
    rw [State.record?] at ha ⊢
    rw [hrest.now, value?_congr (hsame _ _ d.generated)]
    exact ha
  · exact ha

theorem count_quiet {o : String} : Hands Op.Quiet (service.jobs.count o) :=
  (Hands.call fun t j _ => by simpa [Cmd.writes] using jobKey_ne_statsKey).bind fun _ => trivial

theorem push_quiet {job : IngestJob} : Hands Op.Quiet (service.deadLetters.push job) := by
  refine (Hands.call fun c hc t j _ => ?_).bind fun _ => trivial
  simp only [List.mem_cons, List.not_mem_nil, or_false] at hc
  rcases hc with rfl | rfl <;> simpa [Cmd.writes] using jobKey_ne_dlqKey

/-- The job has ended. -/
def Ended (d : Delivery service s) (s' : State) : Prop :=
  ∃ job, s'.record? d.tenantId d.jobId = some job ∧ job.status.terminal = true

theorem fail_ends (h : d.Stage job count a.toState) (hown : d.Owns job) {error : String} {retryable : Bool}
    {Q : Except Exn IngestJob → Alone → Prop} (hended : f.writes a.calls = true → ∀ r a', d.Ended a'.toState → Q r a')
    (hlost : f.writes a.calls = false → ∀ a', d.Stage job count a'.toState → Q (.error connectionError) a') :
    Ends f.answer (service.fail job error retryable) a Q := by
  have hquiet : ∀ job, Hands Op.Quiet (do
      service.jobs.count "failed"
      service.deadLetters.push job
      return job : Program IngestJob) := fun job =>
    Hands.bind count_quiet fun _ => Hands.bind push_quiet fun _ => trivial
  refine Ends.bind_iff.mpr (save_ends h (by exact hown) (fun h₀ h₁ a' ha' _ _ => ?_) (fun h₀ h₁ a' ha' => ?_) hlost)
  · exact quiet_ends (hquiet _) ha'.record fun r a'' hr => hended (by simp [Faults.writes, h₀, h₁]) r a'' ⟨_, hr, rfl⟩
  · exact hended (by simp [Faults.writes, h₀, h₁]) _ a' ⟨_, ha'.record, rfl⟩

theorem finish_ends (h : d.Stage job count a.toState) (hown : d.Owns job) {record : DocumentRecord} {started : ℚ}
    {Q : Except Exn IngestJob → Alone → Prop}
    (hended : f.lost a.calls = none → f.writes (a.calls + 1) = true → ∀ r a', d.Ended a'.toState → Q r a')
    (hlost : ((f.lost a.calls).isNone && f.writes (a.calls + 1)) = false →
      ∀ a', d.Stage job count a'.toState → Q (.error connectionError) a') :
    Ends f.answer (service.finish job d.payloadId record started) a Q := by
  refine Ends.bind_iff.mpr (delete_ends h (fun hl a₁ h₁ hn₁ => ?_) fun hl a' ha' => hlost (by simp [hl]) a' ha')
  have hquiet : ∀ job, Hands Op.Quiet (do
      service.jobs.count "done"
      let finished ← perfCounter
      service.jobs.addDuration (finished - started)
      return job : Program IngestJob) := fun job => by
    refine Hands.bind count_quiet fun _ => Hands.bind (Hands.call trivial) fun _ => Hands.bind ?_ fun _ => trivial
    exact (Hands.call fun t j _ => by simpa [Cmd.writes] using jobKey_ne_statsKey).bind fun _ => trivial
  refine Ends.bind_iff.mpr (save_ends h₁ (by exact hown) (fun h₀ h₁ a' ha' _ _ => ?_) (fun h₀ h₁ a' ha' => ?_) fun hw a' ha' => ?_)
  · rw [hn₁] at h₀ h₁
    exact quiet_ends (hquiet _) ha'.record fun r a'' hr => hended hl (by simp [Faults.writes, h₀, h₁]) r a'' ⟨_, hr, rfl⟩
  · rw [hn₁] at h₀ h₁
    exact hended hl (by simp [Faults.writes, h₀, h₁]) _ a' ⟨_, ha'.record, rfl⟩
  · rw [hn₁] at hw
    exact hlost (by simp [hw]) a' ha'

/-- What `ingest` raised ends the job, or hands it back to the queue. -/
theorem handle_ends (h : d.Stage job count a.toState) (hown : d.Owns job) (hopen : job.status.terminal = false) {e : Exn}
    {Q : Except Exn IngestJob → Alone → Prop}
    (hended : (e.permanent || decide (service.maxAttempts ≤ count)) = true → f.writes a.calls = true →
      ∀ r a', d.Ended a'.toState → Q r a')
    (hretried : (e.permanent || decide (service.maxAttempts ≤ count)) = false → (∀ i < 3, f.lost (a.calls + i) = none) →
      ∀ job' text a', d.Stage job' count a'.toState → Q (.error (.transientJob text)) a')
    (hlost : (if e.permanent || decide (service.maxAttempts ≤ count) then f.writes a.calls = false else
        ∃ i < 3, f.lost (a.calls + i) ≠ none) →
      ∀ job' a', job'.status.terminal = false → d.Stage job' count a'.toState → Q (.error connectionError) a') :
    Ends f.answer (service.handle job count e) a Q := by
  unfold IngestionJobService.handle
  cases hp : e.permanent with
  | true =>
    simp only [hp, Bool.true_or, if_true, forall_true_left] at hended hlost ⊢
    exact fail_ends h hown hended fun hw a' => hlost hw job a' hopen
  | false =>
    simp only [hp, Bool.false_or, decide_eq_true_eq, decide_eq_false_iff_not, Bool.false_eq_true, if_false] at hended hretried hlost ⊢
    show Ends _ (ite _ _ _) _ _
    split
    · rename_i hlimit
      rw [if_pos hlimit] at hlost
      exact fail_ends h hown (hended hlimit) fun hw a' => hlost hw job a' hopen
    · rename_i hlimit
      rw [if_neg hlimit] at hlost
      refine Ends.bind_iff.mpr (save_ends h (by exact hown) (fun h₀ h₁ a₁ ha₁ hn₁ _ => ?_) (fun h₀ h₁ a₁ ha₁ => ?_) fun hw a₁ ha₁ => ?_)
      · refine Ends.bind_iff.mpr (count_ends ha₁ (by simp [outcomes]) (fun hl a₂ ha₂ _ => ?_) fun hl a₂ ha₂ => ?_)
        · rw [hn₁] at hl
          refine hretried hlimit (fun i hi => ?_) _ _ a₂ ha₂
          match i, hi with
          | 0, _ => exact h₀
          | 1, _ => exact h₁
          | 2, _ => exact hl
        · exact hlost ⟨2, by decide, hn₁ ▸ hl⟩ _ a₂ rfl ha₂
      · exact hlost ⟨1, by decide, by simp [h₁]⟩ _ a₁ rfl ha₁
      · have : ∃ i < 3, f.lost (a.calls + i) ≠ none := by
          by_contra hall
          have hnone : ∀ i < 3, f.lost (a.calls + i) = none := fun i hi => by_contra fun hne => hall ⟨i, hi, hne⟩
          have h₀ : f.lost a.calls = none := hnone 0 (by decide)
          have h₁ : f.lost (a.calls + 1) = none := hnone 1 (by decide)
          simp [Faults.writes, h₀, h₁] at hw
        exact hlost this _ a₁ hopen ha₁

end Methods

/-! ### The whole delivery -/

/-- How a delivery on its own ends, and what it leaves. -/
def outcome (d : Delivery service s) (f : Faults) : Except Exn (Option IngestJob) × Alone :=
  (service.execute d.tenantId d.jobId d.payloadId).run f.answer { toState := s }

section Outcome
variable {f : Faults} {a : Alone}

theorem Stage.carried (h : d.Stage job count s') {r : Except Exn (Option IngestJob)} :
    Carried service d.tenantId d.jobId r s' ↔ job.status.terminal = true ∨ (runsAgain r = true ∧ count < service.maxAttempts) := by
  unfold Carried
  rw [h.record, h.counted]
  simp

theorem Ended.carried (h : d.Ended s') {r : Except Exn (Option IngestJob)} : Carried service d.tenantId d.jobId r s' :=
  Or.inl h

/-- Whatever the delivery comes to do, it has to get to its third call, and to the sixth if it may ingest. -/
theorem clear_of_undisturbed (h : d.undisturbed f = true) : f.clear 2 = true ∧ f.writes 2 = true ∧
    (d.count + 1 ≤ service.maxAttempts → f.clear 5 = true) := by
  have hfive : f.clear 5 = true → f.clear 2 = true ∧ f.writes 2 = true ∧ (d.count + 1 ≤ service.maxAttempts → f.clear 5 = true) :=
    fun h => ⟨clear_mono h (by omega), writes_of_clear (clear_mono h (by omega)), fun _ => h⟩
  unfold undisturbed at h
  split at h
  · rename_i hover
    rw [Bool.and_eq_true] at h
    exact ⟨h.1, h.2, fun hle => absurd hle (by omega)⟩
  · split at h
    · exact hfive (Bool.and_eq_true_iff.mp h).1
    · split at h
      · exact hfive (Bool.and_eq_true_iff.mp h).1
      · exact hfive (clear_mono h (by omega))
    · exact hfive (clear_mono (Bool.and_eq_true_iff.mp h).1 (by omega))

theorem carried_iff (d : Delivery service s) (f : Faults) :
    Carried service d.tenantId d.jobId (d.outcome f).1 (d.outcome f).2.toState ↔ d.undisturbed f = true ∨ d.late f = true := by
  -- The delivery fails before it changes the record.
  have before : ∀ {count s' r}, d.Stage d.job count s' → runsAgain r = false → (f.clear 2 && f.writes 2) = false →
      (Carried service d.tenantId d.jobId r s' ↔ d.undisturbed f = true ∨ d.late f = true) := fun hs hr hf => by
    have hnot : ¬d.undisturbed f = true := fun h => by
      obtain ⟨h₁, h₂, -⟩ := clear_of_undisturbed h
      simp [h₁, h₂] at hf
    rw [hs.carried, or_iff_right hnot, hr, late, hf]
    simp
  -- It fails after it has written `PROCESSING`.
  have after : ∀ {job' count s' r}, d.Stage job' count s' → job'.status.terminal = false → runsAgain r = false →
      d.late f = false → d.undisturbed f = false →
      (Carried service d.tenantId d.jobId r s' ↔ d.undisturbed f = true ∨ d.late f = true) := fun hs ht hr hl hu => by
    rw [hs.carried, ht, hr, hl, hu]
    simp
  show Ends f.answer (service.execute d.tenantId d.jobId d.payloadId) { toState := s } fun r a' =>
    Carried service d.tenantId d.jobId r a'.toState ↔ d.undisturbed f = true ∨ d.late f = true
  refine Ends.bind_iff.mpr (get_ends (Stage.start d) (fun hl₀ => ?_) fun hl₀ => ?_)
  rotate_left
  · exact before (Stage.start d) rfl (by rw [Bool.and_eq_false_iff]; exact Or.inl (Bool.eq_false_iff.mpr fun h => hl₀ (clear_iff.mp h 0 (by omega))))
  refine Ends.bind_iff.mpr (startAttempt_ends (Stage.start d) (fun hl₁ a₁ h₁ hn₁ hp₁ => ?_) fun hl₁ count' a' h' => ?_)
  rotate_left
  · exact before h' rfl (by rw [Bool.and_eq_false_iff]; exact Or.inl (Bool.eq_false_iff.mpr fun h => hl₁ (clear_iff.mp h 1 (by omega))))
  have hclear₂ : f.clear 2 = true := clear_succ (clear_succ (clear_iff.mpr fun i hi => absurd hi (by omega)) hl₀) hl₁
  show Ends _ (ite _ _ _) _ _
  split
  · rename_i hover
    have hu : d.undisturbed f = (f.clear 2 && f.writes 2) := if_pos hover
    refine Ends.bind_iff.mpr (fail_ends h₁ d.own (fun hw r a' hended => ?_) fun hw a' h' => ?_)
    · rw [hn₁] at hw
      have hdone : d.undisturbed f = true := by rw [hu, hclear₂, hw]; rfl
      cases r <;> exact iff_of_true hended.carried (Or.inl hdone)
    · rw [hn₁] at hw
      exact before h' rfl (by rw [hw, Bool.and_false])
  · rename_i hover
    refine Ends.bind_iff.mpr (save_ends h₁ (by exact d.own) (fun hl₂ hl₃ a₂ h₂ hn₂ hp₂ => ?_) (fun hl₂ hl₃ a' h' => ?_) fun hw a' h' => ?_)
    rotate_left
    · rw [hn₁] at hl₂ hl₃
      have hw : f.writes 2 = true := by simp [Faults.writes, show f.lost 2 = none from hl₂, show f.lost 3 = some true from hl₃]
      have hlate : d.late f = false := by simp [late, hover, hclear₂, hw]
      refine after h' rfl rfl hlate (Bool.eq_false_iff.mpr fun h => ?_)
      have hl₃' : f.lost 3 = none := clear_iff.mp ((clear_of_undisturbed h).2.2 (by omega)) 3 (by omega)
      exact absurd (hl₃.symm.trans hl₃') (by simp)
    · rw [hn₁] at hw
      exact before h' rfl (by rw [hw, Bool.and_false])
    rw [hn₁] at hl₂ hl₃ hn₂
    have hclear₄ : f.clear 4 = true := clear_succ (clear_succ hclear₂ hl₂) hl₃
    have hlate : d.late f = false := by
      have hw : f.writes 2 = true := writes_of_clear hclear₄
      simp [late, hover, hclear₂, hw]
    refine Ends.bind_iff.mpr (payload_ends h₂ ((hp₂.trans hp₁).trans d.parked) (fun hl₄ a₃ h₃ hn₃ => ?_) fun hl₄ a' h' => ?_)
    rotate_left
    · rw [hn₂] at hl₄
      refine after h' rfl rfl hlate (Bool.eq_false_iff.mpr fun h => hl₄ ?_)
      exact clear_iff.mp ((clear_of_undisturbed h).2.2 (by omega)) 4 (by omega)
    rw [hn₂] at hl₄ hn₃
    have hclear₅ : f.clear 5 = true := clear_succ hclear₄ hl₄
    cases hd : d.data with
    | none =>
      have hu : d.undisturbed f = (f.clear 5 && f.writes 5) := by simp only [undisturbed, hd]; exact if_neg hover
      refine Ends.bind_iff.mpr (fail_ends h₃ (by exact d.own) (fun hw r a' hended => ?_) fun hw a' h' => ?_)
      · rw [hn₃] at hw
        have hdone : d.undisturbed f = true := by rw [hu, hclear₅, hw]; rfl
        cases r <;> exact iff_of_true hended.carried (Or.inl hdone)
      · rw [hn₃] at hw
        exact after h' rfl rfl hlate (by rw [hu, hw, Bool.and_false])
    | some data =>
      refine Ends.bind_iff.mpr (Faults.perfCounter_ends (Ends.bind_iff.mpr (.attempt (Faults.ingest_ends ?_))))
      cases hi : f.ingested with
      | error e =>
        have hu : d.undisturbed f = if e.permanent || decide (service.maxAttempts ≤ d.count + 1) then f.clear 5 && f.writes 5
            else f.clear 8 := by simp only [undisturbed, hd, hi]; exact if_neg hover
        refine Ends.bind_iff.mpr (handle_ends h₃ (by exact d.own) rfl (fun hc hw r a' hended => ?_) (fun hc hall job' text a' h' => ?_)
          fun hc job' a' hopen h' => ?_)
        · rw [hn₃] at hw
          have hdone : d.undisturbed f = true := by rw [hu, if_pos hc, hclear₅, hw]; rfl
          cases r <;> exact iff_of_true hended.carried (Or.inl hdone)
        · rw [hn₃] at hall
          have hclear₈ : f.clear 8 = true :=
            clear_succ (clear_succ (clear_succ hclear₅ (hall 0 (by omega))) (hall 1 (by omega))) (hall 2 (by omega))
          have hdone : d.undisturbed f = true := by rw [hu, hc]; exact hclear₈
          have hleft : d.count + 1 < service.maxAttempts := by simpa using (Bool.or_eq_false_iff.mp hc).2
          exact iff_of_true (h'.carried.mpr (Or.inr ⟨rfl, hleft⟩)) (Or.inl hdone)
        · rw [hn₃] at hc
          refine after h' hopen rfl hlate ?_
          rw [hu]
          split at hc
          · rename_i hend
            rw [if_pos hend, hc, Bool.and_false]
          · rename_i hend
            obtain ⟨i, hi3, hne⟩ := hc
            rw [if_neg hend]
            exact Bool.eq_false_iff.mpr fun h => hne (clear_iff.mp h (5 + i) (by omega))
      | ok record =>
        have hu : d.undisturbed f = (f.clear 6 && f.writes 6) := by simp only [undisturbed, hd, hi]; exact if_neg hover
        refine Ends.bind_iff.mpr (finish_ends h₃ (by exact d.own) (fun hl₅ hw r a' hended => ?_) fun hw a' h' => ?_)
        · rw [hn₃] at hl₅ hw
          have hdone : d.undisturbed f = true := by rw [hu, clear_succ hclear₅ hl₅, hw]; rfl
          cases r <;> exact iff_of_true hended.carried (Or.inl hdone)
        · rw [hn₃] at hw
          refine after h' rfl rfl hlate ?_
          rw [hu, Bool.and_eq_false_iff]
          rcases Bool.and_eq_false_iff.mp hw with hl₅ | hw
          · refine Or.inl (Bool.eq_false_iff.mpr fun h => ?_)
            rw [clear_iff.mp h 5 (by omega)] at hl₅
            cases hl₅
          · exact Or.inr hw

end Outcome
end Delivery

/-! ### A blip of Redis -/

namespace Blip
open Redelivery (service payload upload)

/-- What an upload meets that nothing goes wrong for. -/
def calm : Faults := { uuid := fun n => if n = 0 then payload else Redelivery.job, ingested := .ok Redelivery.record }

/-- The state after the upload. -/
def uploaded : State := ((service.submit "acme" upload none).run calm.answer {}).2.toState

/-- The record that the upload stored. -/
def queued : IngestJob where
  jobId := Redelivery.job
  tenantId := "acme"
  filename := "a.md"
  sizeBytes := 1
  createdAt := 0
  updatedAt := 0

theorem stats_int : (outcomes.all fun o => (uploaded.tally o).isSome) = true := by decide +kernel

theorem kinds : Kinds "acme" uploaded where
  accepted := by decide
  sequence := ⟨1, by decide +kernel⟩
  index := Option.isSome_iff_exists.mp (by decide +kernel)
  stats o ho := Option.isSome_iff_exists.mp (List.all_eq_true.mp stats_int o ho)

/-- The first delivery of the message. -/
def first : Delivery service uploaded where
  tenantId := "acme"
  jobId := Redelivery.job
  payloadId := payload
  job := queued
  count := 0
  data := some [65]
  retained := by decide
  generated := by decide
  record := by decide +kernel
  own := ⟨rfl, rfl⟩
  counted := by decide +kernel
  parked := rfl
  kinds := kinds

/-- The connection is lost while the uploaded bytes are read. -/
def blip : Faults := { lost := fun n => if n = 4 then some false else none, ingested := .ok Redelivery.record }

theorem left_processing : (first.outcome blip).2.toState.record? "acme" Redelivery.job =
    some { queued with status := .processing, attempts := 1 } := by decide +kernel

theorem not_run_again : runsAgain (first.outcome blip).1 = false := by decide +kernel

/-- The job is left in `PROCESSING`, and nobody runs it again. -/
theorem not_carried : ¬Carried service "acme" Redelivery.job (first.outcome blip).1 (first.outcome blip).2.toState := by
  rintro (⟨job, hjob, hterminal⟩ | ⟨hruns, -⟩)
  · rw [left_processing] at hjob
    cases hjob
    cases hterminal
  · rw [not_run_again] at hruns
    cases hruns

/-- The vector store cannot be reached, and neither can Redis once the retry is counted. -/
def outage : Faults := { lost := fun n => if 8 ≤ n then some false else none, ingested := .error connectionError }

/-- The job is run again. -/
theorem carried_on : Carried service "acme" Redelivery.job (first.outcome outage).1 (first.outcome outage).2.toState :=
  (first.carried_iff outage).mpr (.inl (by decide))

end Blip
end NexusGate.Workers
