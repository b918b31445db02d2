import NexusGate.Async.Solo
import NexusGate.Theorems.Workers.Absorbing
import NexusGate.Theorems.Workers.KeySpaces

/-! # When the key spaces are separate

An upload and the first delivery of its message, carried out without a failure, leave an attempts counter
behind. Its key is a record key for one job id, so the condition on job ids is needed, not only enough. -/

namespace NexusGate.Workers
open Async Async.System Redis Rag Api Text

/-! ### Parts that succeed -/

section Parts
variable {service : IngestionJobService} {s : State}

theorem exec_ok {c : Cmd Blob} {r : Redis.Reply Blob} {st : Store Blob} (h : Redis.exec s.now c s.store = (r, st))
    (hr : Reply.failed r = false) : exec (.redis c) .ok s = some (.ok r, { s with store := st }) := by
  simp [exec, h, hr]

theorem redis_part {c : Cmd Blob} {r : Redis.Reply Blob} {st : Store Blob}
    (h : Redis.exec s.now c s.store = (r, st)) (hr : Reply.failed r = false) :
    Stretch (system service) (redis c) s (.ok r) { s with store := st } :=
  .call (S := system service) .ok (exec_ok h hr)

theorem multi_part {cs : List (Cmd Blob)} (hr : (Redis.execAll s.now cs s.store).1.any Reply.failed = false) :
    Stretch (system service) (multi cs) s (.ok (Redis.execAll s.now cs s.store).1)
      { s with store := (Redis.execAll s.now cs s.store).2 } :=
  .call (S := system service) .ok (by
    show exec (.multi cs) .ok s = _
    simp only [exec, hr, Bool.false_eq_true, if_false]
    rfl)

theorem uuid_part (service : IngestionJobService) {id : String} (hid : isUuidHex id = true) (hnew : id ∉ s.drawn) :
    Stretch (system service) uuid4 s (.ok id) { s with drawn := id :: s.drawn } :=
  .call (S := system service) (.id id) (by simp [system, exec, hid, hnew])

theorem utcnow_part : Stretch (system service) utcnow s (.ok 0) s :=
  .call (S := system service) (.time 0) rfl

theorem put_part (service : IngestionJobService) {pid : String} (data : Bytes) (hid : isUuidHex pid = true) (hnew : pid ∉ s.drawn)
    (hp : 0 < service.payloads.ttl) : ∃ st, Stretch (system service) (service.payloads.put data) s (.ok pid)
      { s with drawn := pid :: s.drawn, store := st } ∧
      ∀ k, k ≠ payloadKey pid → st.lookup k = s.store.lookup k := by
  refine ⟨_, Stretch.bind (uuid_part service hid hnew) (Stretch.bind (redis_part (exec_set hp) rfl) .ret), fun k hk => ?_⟩
  exact AList.lookup_insert_ne hk

theorem save_part (service : IngestionJobService) (job : IngestJob) (hr : 0 < service.jobs.retention)
    (hseq : value? s.now s.store sequenceKey = none) (hidx : value? s.now s.store (indexKey job.tenantId) = none)
    (hfree : indexKey job.tenantId ≠ sequenceKey) :
    ∃ st job', Stretch (system service) (service.jobs.save job) s (.ok job') { s with store := st } ∧
      job'.tenantId = job.tenantId ∧ job'.jobId = job.jobId ∧
      value? s.now st (jobKey job.tenantId job.jobId) = some (.str (.job job')) ∧
      ∀ k, k ≠ sequenceKey → k ≠ jobKey job.tenantId job.jobId → k ≠ indexKey job.tenantId →
        st.lookup k = s.store.lookup k := by
  let job' := { job with updatedAt := 0 }
  let st₁ := s.store.insert sequenceKey ⟨.str (Payload.ofInt 1), none⟩
  let st₂ := st₁.insert (jobKey job.tenantId job.jobId) ⟨.str (.job job'), some (deadline s.now service.jobs.retention)⟩
  have hset : Redis.exec s.now (.set (jobKey job.tenantId job.jobId) (.job job') (some service.jobs.retention) false) st₁ =
      (.ok, st₂) := exec_set hr
  have hidx₂ : value? s.now st₂ (indexKey job.tenantId) = none := by
    rw [← hidx]
    exact value?_congr ((AList.lookup_insert_ne jobKey_ne_indexKey.symm).trans (AList.lookup_insert_ne hfree))
  have hok : (Redis.execAll s.now (service.jobs.saveCmds job' 1) st₁).1.any Reply.failed = false := by
    let st₃ := (Redis.exec s.now (.zadd (indexKey job'.tenantId) [(job'.jobId, 1)] true) st₂).2
    obtain ⟨n, hn⟩ : ∃ n, (Redis.exec s.now (.zadd (indexKey job'.tenantId) [(job'.jobId, 1)] true) st₂).1 = .int n :=
      exec_zadd_new hidx₂
    obtain ⟨m, hm⟩ : ∃ m, (Redis.exec s.now (.expire (indexKey job'.tenantId) service.jobs.retention) st₃).1 = .int m :=
      exec_expire_int
    simp only [JobStore.saveCmds, execAll_cons_fst, Int.cast_one]
    rw [show Redis.exec s.now _ st₁ = _ from hset, hn, hm]
    rfl
  have hframe : ∀ k, k ≠ indexKey job.tenantId →
      (Redis.execAll s.now (service.jobs.saveCmds job' 1) st₁).2.lookup k = st₂.lookup k := fun k hk => by
    refine (execAll_cons_frame fun c hc => ?_).trans (by rw [hset])
    simp only [List.mem_cons, List.not_mem_nil, or_false] at hc
    rcases hc with rfl | rfl <;> simpa [Cmd.writes] using hk
  refine ⟨_, job', Stretch.bind utcnow_part (Stretch.bind (redis_part (exec_incr_new hseq) rfl)
    (Stretch.bind (multi_part hok) .ret)), rfl, rfl, ?_, fun k h₁ h₂ h₃ => ?_⟩
  · rw [value?_congr (hframe _ jobKey_ne_indexKey)]
    simp [value?, live?, st₂, Entry.live, deadline, hr]
  · rw [hframe k h₃, AList.lookup_insert_ne h₂, AList.lookup_insert_ne h₁]

theorem count_part (service : IngestionJobService) (o : String) (hs : value? s.now s.store statsKey = none) :
    ∃ st, Stretch (system service) (service.jobs.count o) s (.ok ()) { s with store := st } ∧
      ∀ k, k ≠ statsKey → st.lookup k = s.store.lookup k := by
  have hok : Reply.failed (Redis.exec s.now (.hincrby statsKey o 1) s.store).1 = false := by
    simp only [Redis.exec, onHash, Redis.modify, hs]
    rfl
  exact ⟨_, Stretch.bind (redis_part rfl hok) .ret,
    fun k hk => exec_frame (c := .hincrby statsKey o 1) (by simpa [Cmd.writes])⟩

theorem enqueue_part {job : IngestJob} {pid : String} : Stretch (system service) (.call (Op.enqueue job pid) : Program Unit) s (.ok ())
    { s with messages := (job.tenantId, job.jobId, pid) :: s.messages } :=
  .call (S := system service) .ok rfl

/-- An upload of a tenant with a free name leaves its record and its message. -/
theorem submit_part (service : IngestionJobService) {t pid id : String} (upload : DocumentUpload) (hr : 0 < service.jobs.retention)
    (hp : 0 < service.payloads.ttl) (hpid : isUuidHex pid = true) (hid : isUuidHex id = true) (hne : id ≠ pid)
    (ht : t ∉ reservedTenants) : ∃ job s, Stretch (system service) (service.submit t upload none) {} (.ok job) s ∧
      (t, id, pid) ∈ s.messages ∧ value? s.now s.store (jobKey t id) = some (.str (.job job)) ∧
      value? s.now s.store (attemptsKey t id) = none := by
  have hglobal : indexKey t ∉ globalKeys := mt indexKey_mem_globalKeys.mp ht
  have hidx : indexKey t ≠ sequenceKey ∧ indexKey t ≠ statsKey := by
    simp only [globalKeys, List.mem_cons, not_or] at hglobal
    exact ⟨hglobal.2.2.1, hglobal.2.1⟩
  have hseq : sequenceKey ≠ statsKey := by decide
  have hfresh : ∀ x, "ragjobs:" ++ x ≠ payloadKey pid := fun x => payloadKey_ne_ragjobs.symm
  obtain ⟨st₁, h₁, f₁⟩ := put_part service (s := {}) upload.data hpid (by simp) hp
  have e₁ : ∀ k, k ≠ payloadKey pid → st₁.lookup k = none := fun k hk => (f₁ k hk).trans rfl
  have gone : ∀ {st : Store Blob} {k}, st.lookup k = none → value? 0 st k = none := fun h => by simp [value?, live?, h]
  have huuid := uuid_part service (s := { drawn := [pid], store := st₁ }) hid (by simpa using hne)
  obtain ⟨st₂, job, h₂, htj, hij, hrec, f₂⟩ := save_part service
    (s := { drawn := [id, pid], store := st₁ })
    { jobId := id, tenantId := t, filename := upload.filename, contentType := upload.contentType, title := upload.title
      sizeBytes := upload.data.length, requestId := none, createdAt := 0, updatedAt := 0 }
    hr (gone (e₁ _ (hfresh "seq"))) (gone (e₁ _ (hfresh t))) hidx.1
  obtain ⟨st₃, h₃, f₃⟩ := count_part service (s := { drawn := [id, pid], store := st₂ }) "submitted"
    (gone ((f₂ _ hseq.symm jobKey_ne_statsKey.symm hidx.2.symm).trans (e₁ _ (hfresh "stats"))))
  refine ⟨job, _, h₁.bind (huuid.bind (utcnow_part.bind (h₂.bind (h₃.bind (enqueue_part.bind .ret))))), ?_, ?_, ?_⟩
  · simp [htj, hij]
  · exact (value?_congr (f₃ _ jobKey_ne_statsKey)).trans hrec
  · have hself : attemptsKey t id ≠ jobKey t id := (jobKey_ne_attemptsKey hid).symm
    rw [attemptsKey_eq] at hself ⊢
    exact gone ((f₃ _ jobKey_ne_statsKey).trans ((f₂ _ jobKey_ne_sequenceKey hself jobKey_ne_indexKey).trans
      (e₁ _ jobKey_ne_payloadKey)))

/-- The first thing a delivery leaves is a counter. -/
theorem attempt_solo {t id : String} (pid : String) {job : IngestJob}
    (hrec : value? s.now s.store (jobKey t id) = some (.str (.job job)))
    (hnew : value? s.now s.store (attemptsKey t id) = none) (hr : 0 < service.jobs.retention) :
    ∃ q st, Solo (system service) (service.execute t id pid) s q { s with store := st } ∧
      value? s.now st (attemptsKey t id) = some (.str (.int 1)) := by
  have hget : Redis.exec s.now (.get (jobKey t id)) s.store = (.bulk (.job job), s.store) := by
    simp only [Redis.exec, hrec]
  have hincr := exec_incr_new hnew
  have hexp := exec_expire_live (n := service.jobs.retention) (@live?_insert _ s.now s.store (attemptsKey t id)
    ⟨.str (Payload.ofInt 1), none⟩ rfl)
  have hall : Redis.execAll s.now [.incr (attemptsKey t id), .expire (attemptsKey t id) service.jobs.retention] s.store =
      ([.int 1, .int 1], (s.store.insert (attemptsKey t id) ⟨.str (Payload.ofInt 1), none⟩).insert (attemptsKey t id)
        ⟨.str (Payload.ofInt 1), some (deadline s.now service.jobs.retention)⟩) := by
    simp only [Redis.execAll, hincr, hexp]
  have hattempt : Stretch (system service) (service.jobs.startAttempt t id) s (.ok 1) _ :=
    Stretch.bind (multi_part (by rw [hall]; rfl)) (by rw [hall]; exact .ret)
  refine ⟨_, _, Stretch.solo (Stretch.bind (redis_part hget rfl) .ret) (Stretch.solo hattempt .refl), ?_⟩
  have hlive : (⟨.str (Payload.ofInt 1), some (deadline s.now service.jobs.retention)⟩ : Entry Blob).live s.now = true := by
    simp [Entry.live, deadline, hr]
  rw [value?, live?_insert hlive]
  rfl

end Parts

/-! ### The condition -/

/-- The key spaces are separate at a tenant and a job id that a client asks for: in every run of the
    accepted tenants' calls, `JobStore.get` finds nothing there but the record of that job; and in every run
    in which only this tenant may have a reserved name, the global keys are what they are for. -/
structure KeySpaces (service : IngestionJobService) (t j : String) : Prop where
  global : ∀ k ∈ tenantKeys t j, k ∉ globalKeys
  others : ∀ t' j', tenantPattern t' = true → t' ≠ t → (tenantKeys t j).Disjoint (tenantKeys t' j')
  reads : ∀ w, World.Reaches (Starts fun t' => tenantPattern t' = true) (emptyPool service) w →
    ∀ v, value? w.state.now w.state.store (jobKey t j) = some v →
      ∃ job, v = .str (.job job) ∧ job.tenantId = t ∧ job.jobId = j
  uploads : ∀ w, World.Reaches (Starts fun t' => tenantPattern t' = true ∧ (t' = t ∨ t' ∉ reservedTenants))
    (emptyPool service) w → Intact w.state.store

/-- A run after which the counter of a job of the tenant is set. -/
theorem exists_attempts (service : IngestionJobService) (t id : String) (hr : 0 < service.jobs.retention)
    (hp : 0 < service.payloads.ttl) (ht : tenantPattern t = true) (hfree : t ∉ reservedTenants)
    (hid : isUuidHex id = true) :
    ∃ w, World.Reaches (Starts fun t' => tenantPattern t' = true) (emptyPool service) w ∧
      value? w.state.now w.state.store (attemptsKey t id) = some (.str (.int 1)) := by
  obtain ⟨pid, hpid, hne⟩ : ∃ pid, isUuidHex pid = true ∧ id ≠ pid := by
    by_cases h : id = "00000000000000000000000000000000"
    · exact ⟨"00000000000000000000000000000001", by decide, by rw [h]; decide⟩
    · exact ⟨"00000000000000000000000000000000", by decide, h⟩
  let upload : DocumentUpload := { filename := "", contentType := none, data := [] }
  obtain ⟨job, s, hsub, hmsg, hrec, hnew⟩ := submit_part service upload hr hp hpid hid hne hfree
  obtain ⟨q, st, hsolo, hval⟩ := attempt_solo pid hrec hnew hr
  have go : ∀ w a, (∃ ch, a = .op 0 ch) → @Starts service (fun t' => tenantPattern t' = true) w a := by
    rintro w _ ⟨ch, rfl⟩
    trivial
  obtain ⟨w₁, h₁, hs₁, hat₁⟩ := World.At.start (w := emptyPool service) (i := 0) (c := .submit t upload none) rfl rfl rfl
  obtain ⟨w₂, h₂, hs₂, hat₂⟩ := hat₁.reaches (by rw [hs₁]; exact hsub.map.toSolo)
  have hadm : (system service).admits w₂.state (.execute t id pid) = true := by
    rw [hs₂]
    exact decide_eq_true hmsg
  obtain ⟨w₃, h₃, hs₃, hat₃⟩ := World.At.start (S := system service) (i := 0) (c := .execute t id pid) hat₂.thread hadm
    hat₂.free
  obtain ⟨w₄, h₄, hs₄, -⟩ := hat₃.reaches (by rw [hs₃, hs₂]; exact hsolo)
  have second := Relation.ReflTransGen.head ⟨.start 0 (.execute t id pid), ht, h₃⟩ (h₄.mono go)
  refine ⟨w₄, .head ⟨.start 0 (.submit t upload none), ht, h₁⟩ ((h₂.mono go).trans second), ?_⟩
  rw [hs₄]
  exact hval

/-- The key spaces are separate exactly when the tenant's name is not reserved and the job id is not a job's
    id followed by `:attempts`. -/
theorem keySpaces_iff (service : IngestionJobService) (hr : 0 < service.jobs.retention)
    (hp : 0 < service.payloads.ttl) {t : String} (ht : tenantPattern t = true) (j : String) :
    KeySpaces service t j ↔ t ∉ reservedTenants ∧ ∀ id, isUuidHex id = true → j ≠ id ++ ":attempts" := by
  constructor
  · intro h
    have hfree : t ∉ reservedTenants := fun hmem => h.global (indexKey t) (by simp [tenantKeys])
      (indexKey_mem_globalKeys.mpr hmem)
    refine ⟨hfree, ?_⟩
    rintro id hid rfl
    obtain ⟨w, hw, hval⟩ := exists_attempts service t id hr hp ht hfree hid
    rw [attemptsKey_eq] at hval
    obtain ⟨job, hjob, -⟩ := h.reads w hw _ hval
    cases hjob
  · rintro ⟨hfree, hj⟩
    refine ⟨fun k hk => tenantKeys_not_global hfree hk, fun t' j' ht' hne => tenantKeys_disjoint ht ht' hne.symm,
      fun w hw v hv => ?_, fun w hw => ?_⟩
    · obtain ⟨e, he, rfl⟩ := lookup_of_value? hv
      exact (keyed_of_reaches hw).1.record (fun _ h => h) ht hj he
    · exact (keyed_of_reaches hw).2 fun t' ht' => ht'.2.elim (fun h => h ▸ hfree) id

/-- A tenant called `dlq`, and a job id that ends like a counter's key. -/
theorem not_keySpaces : tenantPattern "dlq" = true ∧ tenantPattern "acme" = true ∧
    ¬KeySpaces Redelivery.service "dlq" "00000000000000000000000000000002" ∧
    ¬KeySpaces Redelivery.service "acme" "00000000000000000000000000000002:attempts" := by
  refine ⟨by decide, by decide, fun h => ?_, fun h => ?_⟩
  · exact h.global (indexKey "dlq") (by simp [tenantKeys]) (indexKey_mem_globalKeys.mpr (by decide))
  · obtain ⟨w, hw, hval⟩ := exists_attempts Redelivery.service "acme" Redelivery.job
      (by decide) (by decide) (by decide) (by decide) (by decide)
    rw [attemptsKey_eq] at hval
    obtain ⟨job, hjob, -⟩ := h.reads w hw _ hval
    cases hjob

/-- An ordinary tenant and an id as `uuid4` gives it out. -/
theorem keySpaces_acme : KeySpaces Redelivery.service "acme" "00000000000000000000000000000002" :=
  (keySpaces_iff Redelivery.service (by decide) (by decide) (by decide) _).mpr
    ⟨by decide, fun id hid h => isUuidHex_no_colon (s := "00000000000000000000000000000002") (by decide) (by simp [h])⟩

end NexusGate.Workers
