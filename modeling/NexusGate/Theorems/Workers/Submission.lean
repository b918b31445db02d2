import NexusGate.Theorems.Workers.Absorbing
import NexusGate.Theorems.Workers.Calls

/-! # Uploads that are cut short

One `submit` on its own, with any of its calls to Redis and the broker failing. Nothing is undone when a step fails:
what the steps before it left stays until it expires. -/

namespace NexusGate.Workers
open Async Redis Rag

/-- An upload that is submitted: the ids that it draws are new. -/
structure Submission (service : IngestionJobService) (s : State) (f : Faults) where
  tenantId : String
  upload : DocumentUpload
  requestId : Option String
  /-- The submissions counted before. -/
  count : Int
  retained : 0 < service.jobs.retention
  parked : 0 < service.payloads.ttl
  kinds : Kinds tenantId s
  counted : s.tally "submitted" = some count
  payload : isUuidHex (f.uuid 0) = true ∧ f.uuid 0 ∉ s.drawn
  job : isUuidHex (f.uuid 1) = true ∧ f.uuid 1 ∉ f.uuid 0 :: s.drawn
  unsaved : s.record? tenantId (f.uuid 1) = none

namespace Submission
variable {service : IngestionJobService} {s : State} {f : Faults} (u : Submission service s f)

/-- The record of the submission, as it is stored and returned. -/
def record : IngestJob where
  jobId := f.uuid 1
  tenantId := u.tenantId
  filename := u.upload.filename
  contentType := u.upload.contentType
  title := u.upload.title
  sizeBytes := u.upload.data.length
  requestId := u.requestId
  createdAt := f.date
  updatedAt := f.date

/-- The message that hands the job to a worker. -/
def message : String × String × String := (u.tenantId, f.uuid 1, f.uuid 0)

/-- How the upload ends, and what it leaves. -/
def outcome : Except Exn IngestJob × Alone :=
  (service.submit u.tenantId u.upload u.requestId).run f.answer { toState := s }

/-- Submitting is all or nothing. -/
def AllOrNothing (r : Except Exn IngestJob) (s' : State) : Prop :=
  match r with
  | .error _ => (∀ job, s'.record? u.tenantId (f.uuid 1) = some job → job.status.terminal = true) ∧
      (s'.tally "submitted" = some u.count ∨ u.message ∈ s'.messages)
  | .ok job => s'.record? u.tenantId (f.uuid 1) = some job ∧ s'.messages = u.message :: s.messages ∧
      value? s'.now s'.store (payloadKey (f.uuid 0)) = some (.str (.bytes u.upload.data))

/-- The `n`th call takes effect: those before it return, and it is not lost on its way there. -/
def Takes (f : Faults) (n : Nat) : Bool := f.clear n && f.lost n != some false

/-- What `submit` leaves: what its steps did up to the one that failed. -/
structure Leaves (r : Except Exn IngestJob) (s' : State) : Prop where
  /-- It returns when no step fails. -/
  returns : (∃ job, r = .ok job) ↔ f.clear 5 = true
  returned : ∀ job, r = .ok job → job = u.record
  record : s'.record? u.tenantId (f.uuid 1) = if f.clear 1 && f.writes 1 then some u.record else none
  expires : (f.clear 1 && f.writes 1) = true → s'.Saved service.jobs u.tenantId u.record
  counted : s'.tally "submitted" = some (if Takes f 3 then u.count + 1 else u.count)
  sent : s'.messages = if Takes f 4 then u.message :: s.messages else s.messages
  payload : f.clear 1 = true → value? s'.now s'.store (payloadKey (f.uuid 0)) = some (.str (.bytes u.upload.data))

section Steps
variable {u} {a : Alone}

/-- Nothing but the bytes has been stored. -/
structure Parked (u : Submission service s f) (a : Alone) : Prop where
  kinds : Kinds u.tenantId a.toState
  counted : a.toState.tally "submitted" = some u.count
  unsaved : a.toState.record? u.tenantId (f.uuid 1) = none
  sent : a.messages = s.messages
  drawn : f.uuid 1 ∉ a.drawn

theorem put_ends (u : Submission service s f) {Q : Except Exn String → Alone → Prop}
    (hok : f.lost 0 = none → ∀ a', u.Parked a' → a'.calls = 1 →
      value? a'.now a'.store (payloadKey (f.uuid 0)) = some (.str (.bytes u.upload.data)) → Q (.ok (f.uuid 0)) a')
    (hlost : f.lost 0 ≠ none → ∀ a', u.Parked a' → Q (.error connectionError) a') :
    Ends f.answer (service.payloads.put u.upload.data) { toState := s } Q := by
  let s₁ : State := { s with drawn := f.uuid 0 :: s.drawn }
  let st := s.store.insert (payloadKey (f.uuid 0)) ⟨.str (.bytes u.upload.data), some (deadline s.now service.payloads.ttl)⟩
  have hset : Redis.exec s.now (.set (payloadKey (f.uuid 0)) (.bytes u.upload.data) (some service.payloads.ttl) false) s.store = (.ok, st) :=
    exec_set u.parked
  have happart : Apart [payloadKey (f.uuid 0)] s₁ { s₁ with store := st } := .store fun k hk => AList.lookup_insert_ne (by simpa using hk)
  have hbefore : u.Parked ⟨s₁, 1⟩ := ⟨⟨u.kinds.accepted, u.kinds.sequence, u.kinds.index, u.kinds.stats⟩, u.counted, u.unsaved, rfl, u.job.2⟩
  have hafter : u.Parked ⟨{ s₁ with store := st }, 1⟩ := by
    refine ⟨hbefore.kinds.apart happart ?_ ?_ ?_, (happart.tally ?_ _).trans hbefore.counted,
      (happart.record (by simpa using jobKey_ne_payloadKey)).trans hbefore.unsaved, rfl, u.job.2⟩
    · exact fun hmem => payloadKey_ne_ragjobs (x := "seq") (List.mem_singleton.mp hmem).symm
    · exact fun hmem => payloadKey_ne_ragjobs (List.mem_singleton.mp hmem).symm
    · exact fun hmem => payloadKey_ne_ragjobs (x := "stats") (List.mem_singleton.mp hmem).symm
    · exact fun hmem => payloadKey_ne_ragjobs (x := "stats") (List.mem_singleton.mp hmem).symm
  refine Ends.bind_iff.mpr (@Faults.uuid_ends f { toState := s } u.payload.1 u.payload.2 _ (Ends.bind_iff.mpr ?_))
  refine Faults.redis_ends (fun hl => ?_) (fun hl => ?_) fun hl => ?_
  · dsimp only
    rw [hset]
    refine hok hl ⟨{ s₁ with store := st }, 1⟩ hafter rfl ?_
    have hlive : (⟨.str (.bytes u.upload.data), some (deadline s.now service.payloads.ttl)⟩ : Entry Blob).live s.now = true := by
      simp [Entry.live, deadline, u.parked]
    show value? s.now st _ = _
    rw [value?, live?_insert hlive]
    rfl
  · exact hlost (by simp [hl]) ⟨s₁, 1⟩ hbefore
  · dsimp only
    rw [hset]
    exact hlost (by simp [hl]) ⟨{ s₁ with store := st }, 1⟩ hafter

theorem not_clear {m n : Nat} (hm : f.lost m ≠ none) (hmn : m < n) : f.clear n = false :=
  Bool.eq_false_iff.mpr fun h => hm (clear_iff.mp h m hmn)

/-- A call after the one that fails does not take effect. -/
theorem not_takes {m n : Nat} (hm : f.lost m ≠ none) (hmn : m < n) : Takes f n = false := by
  rw [Takes, not_clear hm hmn, Bool.false_and]

/-- A step fails before the record is written. -/
theorem Leaves.early {x : Exn} {s' : State} {n : Nat} (hn : f.lost n ≠ none) (hn3 : n < 3) (hw : (f.clear 1 && f.writes 1) = false)
    (hunsaved : s'.record? u.tenantId (f.uuid 1) = none) (hcounted : s'.tally "submitted" = some u.count)
    (hsent : s'.messages = s.messages)
    (hpayload : f.clear 1 = true → value? s'.now s'.store (payloadKey (f.uuid 0)) = some (.str (.bytes u.upload.data))) :
    u.Leaves (.error x) s' where
  returns := iff_of_false (fun ⟨_, h⟩ => nomatch h) fun h => hn (clear_iff.mp h n (by omega))
  returned _ h := by cases h
  record := by rw [hw]; exact hunsaved
  expires h := by rw [hw] at h; cases h
  counted := by rw [not_takes hn hn3]; exact hcounted
  sent := by rw [not_takes hn (by omega)]; exact hsent
  payload := hpayload

/-- The record is written. -/
theorem Leaves.late {r : Except Exn IngestJob} {s' : State} (hw : (f.clear 1 && f.writes 1) = true)
    (hr : match r with
      | .ok job => f.clear 5 = true ∧ job = u.record
      | .error _ => f.clear 5 = false)
    (hsaved : s'.Saved service.jobs u.tenantId u.record)
    (hcounted : s'.tally "submitted" = some (if Takes f 3 then u.count + 1 else u.count))
    (hsent : s'.messages = if Takes f 4 then u.message :: s.messages else s.messages)
    (hpayload : value? s'.now s'.store (payloadKey (f.uuid 0)) = some (.str (.bytes u.upload.data))) : u.Leaves r s' where
  returns := by
    cases r with
    | ok job => exact iff_of_true ⟨job, rfl⟩ hr.1
    | error x => exact iff_of_false (fun ⟨_, h⟩ => nomatch h) (by rw [hr]; exact Bool.false_ne_true)
  returned job h := by
    subst h
    exact hr.2
  record := by rw [hw]; exact hsaved.record
  expires _ := hsaved
  counted := hcounted
  sent := hsent
  payload _ := hpayload

end Steps

theorem submit_ends (u : Submission service s f) :
    Ends f.answer (service.submit u.tenantId u.upload u.requestId) { toState := s } fun r a => u.Leaves r a.toState := by
  refine Ends.bind_iff.mpr (put_ends u (fun hl₀ a₁ h₁ hn₁ hp₁ => ?_) fun hl₀ a' h' => ?_)
  rotate_left
  · have hclear : f.clear 1 = false := Bool.eq_false_iff.mpr fun h => hl₀ (clear_iff.mp h 0 (by omega))
    exact .early hl₀ (by omega) (by rw [hclear]; rfl) h'.unsaved h'.counted h'.sent fun h => absurd (hclear.symm.trans h) Bool.false_ne_true
  obtain ⟨s₁, n₁⟩ := a₁
  obtain rfl : n₁ = 1 := hn₁
  have hclear₁ : f.clear 1 = true := clear_succ (clear_iff.mpr fun i hi => absurd hi (by omega)) hl₀
  refine Ends.bind_iff.mpr (@Faults.uuid_ends f ⟨s₁, 1⟩ u.job.1 h₁.drawn _ (Ends.bind_iff.mpr (Faults.utcnow_ends (Ends.bind_iff.mpr ?_))))
  have hkinds : Kinds u.tenantId { s₁ with drawn := f.uuid 1 :: s₁.drawn } :=
    ⟨h₁.kinds.accepted, h₁.kinds.sequence, h₁.kinds.index, h₁.kinds.stats⟩
  have hcounted : ({ s₁ with drawn := f.uuid 1 :: s₁.drawn } : State).tally "submitted" = some u.count := h₁.counted
  have hpayload : payloadKey (f.uuid 0) ∉ [sequenceKey, jobKey u.tenantId (f.uuid 1), indexKey u.tenantId] := by
    simp only [List.mem_cons, List.not_mem_nil, or_false, not_or]
    exact ⟨payloadKey_ne_ragjobs (x := "seq"), jobKey_ne_payloadKey.symm, payloadKey_ne_ragjobs⟩
  have hstats : statsKey ∉ [sequenceKey, jobKey u.tenantId (f.uuid 1), indexKey u.tenantId] := by
    simp only [List.mem_cons, List.not_mem_nil, or_false, not_or]
    exact ⟨by decide, jobKey_ne_statsKey.symm, hkinds.index_ne.2.symm⟩
  refine hkinds.save_ends u.retained (by rfl) (fun hl₁ hl₂ a₂ hk₂ hr₂ ha₂ hn₂ => ?_) (fun hl₁ hl₂ a' _ hr ha => ?_) fun hw a' _ ha => ?_
  rotate_left
  · have hl₂ : f.lost 2 = some true := hl₂
    have hlost₂ : f.lost 2 ≠ none := by simp [hl₂]
    have hw : f.writes 1 = true := by simp [Faults.writes, show f.lost 1 = none from hl₁, hl₂]
    refine .late (by rw [hclear₁, hw]; rfl) (not_clear hlost₂ (by omega)) hr ?_ ?_ ((ha.value hpayload).trans hp₁)
    · rw [not_takes hlost₂ (by omega)]
      exact (ha.tally hstats _).trans hcounted
    · rw [not_takes hlost₂ (by omega)]
      exact ha.messages.trans h₁.sent
  · have hw : f.writes 1 = false := hw
    obtain ⟨n, hn, hn3⟩ : ∃ n, f.lost n ≠ none ∧ n < 3 := by
      by_contra hall
      have hnone : ∀ n, n < 3 → f.lost n = none := fun n hn => by_contra fun hne => hall ⟨n, hne, hn⟩
      simp [Faults.writes, hnone 1 (by omega), hnone 2 (by omega)] at hw
    refine .early hn hn3 (by rw [hw, Bool.and_false]) ((ha.record (by simp [jobKey_ne_sequenceKey])).trans h₁.unsaved)
      ((ha.tally (by decide) _).trans hcounted) (ha.messages.trans h₁.sent) fun _ => (ha.value ?_).trans hp₁
    exact fun hmem => payloadKey_ne_ragjobs (x := "seq") (List.mem_singleton.mp hmem)
  have hl₁ : f.lost 1 = none := hl₁
  have hl₂ : f.lost 2 = none := hl₂
  have hn₂ : a₂.calls = 3 := hn₂
  have hr₂ : a₂.toState.Saved service.jobs u.tenantId u.record := hr₂
  have hclear₃ : f.clear 3 = true := clear_succ (clear_succ hclear₁ hl₁) hl₂
  have hw : (f.clear 1 && f.writes 1) = true := by rw [hclear₁, writes_of_clear hclear₃]; rfl
  have hp₂ := (ha₂.value hpayload).trans hp₁
  have hsent₂ : a₂.messages = s.messages := ha₂.messages.trans h₁.sent
  have hotherkeys : jobKey u.tenantId (f.uuid 1) ∉ [statsKey] ∧ payloadKey (f.uuid 0) ∉ [statsKey] :=
    ⟨by simp [jobKey_ne_statsKey], fun hmem => payloadKey_ne_ragjobs (x := "stats") (List.mem_singleton.mp hmem)⟩
  refine Ends.bind_iff.mpr (hk₂.count_ends ((ha₂.tally hstats _).trans hcounted) (fun hl₃ a₃ hk₃ ht₃ ha₃ hn₃ => ?_) fun applied hl₃ a' _ ht ha => ?_)
  rotate_left
  · rw [hn₂] at hl₃
    have hlost₃ : f.lost 3 ≠ none := by simp [hl₃]
    have htakes : Takes f 3 = applied := by cases applied <;> simp [Takes, hclear₃, hl₃]
    refine .late hw (not_clear hlost₃ (by omega)) (hr₂.kept ha hotherkeys.1) ?_ ?_ ((ha.value hotherkeys.2).trans hp₂)
    · rw [htakes]
      exact ht
    · rw [not_takes hlost₃ (by omega)]
      exact ha.messages.trans hsent₂
  rw [hn₂] at hl₃ hn₃
  have hclear₄ : f.clear 4 = true := clear_succ hclear₃ hl₃
  have htakes₃ : Takes f 3 = true := by simp [Takes, hclear₃, hl₃]
  have hr₃ := hr₂.kept ha₃ hotherkeys.1
  have hp₃ := (ha₃.value hotherkeys.2).trans hp₂
  have hsent₃ : a₃.messages = s.messages := ha₃.messages.trans hsent₂
  have ht₃ : a₃.toState.tally "submitted" = some (if Takes f 3 then u.count + 1 else u.count) := by
    rw [htakes₃]
    exact ht₃
  have hmessage : (u.tenantId, f.uuid 1, f.uuid 0) :: a₃.messages = u.message :: s.messages := congrArg _ hsent₃
  refine Ends.bind_iff.mpr (Faults.enqueue_ends (fun hl₄ => ?_) (fun hl₄ => ?_) fun hl₄ => ?_) <;> rw [hn₃] at hl₄
  · refine .late hw ⟨clear_succ hclear₄ hl₄, rfl⟩ hr₃ ht₃ ?_ hp₃
    rw [show Takes f 4 = true by simp [Takes, hclear₄, hl₄]]
    exact hmessage
  · refine .late hw (not_clear (m := 4) (by simp [hl₄]) (by omega)) hr₃ ht₃ ?_ hp₃
    rw [show Takes f 4 = false by simp [Takes, hl₄]]
    exact hsent₃
  · refine .late hw (not_clear (m := 4) (by simp [hl₄]) (by omega)) hr₃ ht₃ ?_ hp₃
    rw [show Takes f 4 = true by simp [Takes, hclear₄, hl₄]]
    exact hmessage

theorem submit_leaves (u : Submission service s f) : u.Leaves u.outcome.1 u.outcome.2.toState := submit_ends u

end Submission

namespace Broken
open Redelivery (service upload)

/-- The broker cannot be reached when the job is sent. -/
def broker : Faults where
  lost n := if n = 4 then some false else none
  uuid n := if n = 0 then Redelivery.payload else Redelivery.job
  ingested := .ok Redelivery.record

theorem retention_positive : 0 < service.jobs.retention := by decide
theorem fresh_payload : isUuidHex (broker.uuid 0) = true ∧ broker.uuid 0 ∉ [] := by decide
theorem fresh_job : isUuidHex (broker.uuid 1) = true ∧ broker.uuid 1 ∉ [broker.uuid 0] := by decide

/-- A first upload, to an empty store. -/
def first : Submission service {} broker where
  tenantId := "acme"
  upload := upload
  requestId := none
  count := 0
  retained := retention_positive
  parked := by decide
  kinds := ⟨by decide, ⟨0, rfl⟩, ⟨_, rfl⟩, fun _ _ => ⟨0, rfl⟩⟩
  counted := rfl
  payload := fresh_payload
  job := fresh_job
  unsaved := rfl

theorem raised : first.outcome.1 = .error connectionError := by decide +kernel

theorem left_queued : first.outcome.2.toState.record? "acme" Redelivery.job = some first.record := by decide +kernel

/-- The upload fails, and its tenant sees a job that waits for a worker. -/
theorem not_allOrNothing : ¬first.AllOrNothing first.outcome.1 first.outcome.2.toState := by
  rw [raised]
  rintro ⟨hterminal, -⟩
  cases hterminal _ left_queued

/-- What is left of it is what the steps before have done. -/
theorem leaves_queued : first.outcome.1 = .error connectionError ∧ first.Leaves first.outcome.1 first.outcome.2.toState :=
  ⟨raised, first.submit_leaves⟩

end Broken
end NexusGate.Workers
