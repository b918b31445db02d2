import NexusGate.Theorems.Workers.Watch

/-! # The life of a job record

What the operations of a pool leave of the job records, and the invariant of the runs in which a job ends
only once: a job is open, its record not terminal and nothing counted or pushed for it, or it is closed,
and all that is left to do is what its one closing delivery owes. -/

namespace NexusGate.Workers
open Async Async.System Redis Rag

/-- A run of the service's calls. -/
abbrev Pool (service : IngestionJobService) := (system service).World

/-- An empty Redis and nobody at work. -/
def emptyPool (service : IngestionJobService) : Pool service := { state := ({} : State) }

/-- The record that `JobStore.get` reads. -/
def State.record? (s : State) (t j : String) : Option IngestJob :=
  match value? s.now s.store (jobKey t j) with
  | some (.str (.job job)) => some job
  | _ => none

section Events
variable {service : IngestionJobService}

/-- The event pushes the job to the dead-letter queue. -/
def pushesJob (t j : String) : (system service).Event → Bool
  | .did _ _ e _ => (Op.pushes e).any fun job => job.tenantId == t && job.jobId == j
  | _ => false

/-- The event counts `outcome` for a delivery of the job. -/
def countsJob (t j outcome : String) : (system service).Event → Bool
  | .did _ (.execute t' j' _) e _ => t' == t && j' == j && Op.counts outcome e
  | _ => false

end Events

/-! ### What an operation leaves -/

section Exec
variable {s s' : State} {ch : Choice}

/-- Everything but the store is as it was. -/
structure SameRest (s s' : State) : Prop where
  now : s'.now = s.now
  drawn : s'.drawn = s.drawn
  messages : s'.messages = s.messages

/-- A command is carried out, or it never arrives. -/
theorem exec_redis {c : Cmd Blob} {r : Except Exn (Op.Reply (.redis c))} (h : exec (.redis c) ch s = some (r, s')) :
    SameRest s s' ∧ (s'.store = s.store ∨ s'.store = (Redis.exec s.now c s.store).2) := by
  cases ch with
  | ok =>
    simp only [exec, Option.some.injEq, Prod.mk.injEq] at h
    obtain ⟨-, rfl⟩ := h
    exact ⟨⟨rfl, rfl, rfl⟩, Or.inr rfl⟩
  | lost applied =>
    simp only [exec, Option.some.injEq, Prod.mk.injEq] at h
    obtain ⟨-, rfl⟩ := h
    cases applied
    · exact ⟨⟨rfl, rfl, rfl⟩, Or.inl rfl⟩
    · exact ⟨⟨rfl, rfl, rfl⟩, Or.inr rfl⟩
  | _ => cases h

theorem exec_multi {cs : List (Cmd Blob)} {r : Except Exn (Op.Reply (.multi cs))}
    (h : exec (.multi cs) ch s = some (r, s')) :
    SameRest s s' ∧ (s'.store = s.store ∨ s'.store = (Redis.execAll s.now cs s.store).2) := by
  cases ch with
  | ok =>
    simp only [exec, Option.some.injEq, Prod.mk.injEq] at h
    obtain ⟨-, rfl⟩ := h
    exact ⟨⟨rfl, rfl, rfl⟩, Or.inr rfl⟩
  | lost applied =>
    simp only [exec, Option.some.injEq, Prod.mk.injEq] at h
    obtain ⟨-, rfl⟩ := h
    cases applied
    · exact ⟨⟨rfl, rfl, rfl⟩, Or.inl rfl⟩
    · exact ⟨⟨rfl, rfl, rfl⟩, Or.inr rfl⟩
  | _ => cases h

theorem exec_uuid {r : Except Exn (Op.Reply .uuid)} (hex : exec .uuid ch s = some (r, s')) :
    ∃ u, r = .ok u ∧ isUuidHex u = true ∧ u ∉ s.drawn ∧ s' = { s with drawn := u :: s.drawn } := by
  cases ch <;> simp only [exec, reduceCtorEq, Option.ite_none_right_eq_some, Option.some.injEq, Prod.mk.injEq] at hex
  obtain ⟨hc, rfl, rfl⟩ := hex
  rw [Bool.and_eq_true, decide_eq_true_iff] at hc
  exact ⟨_, rfl, hc.1, hc.2, rfl⟩

/-- A message is sent once, or not at all. -/
theorem exec_enqueue {job : IngestJob} {p : String} {r : Except Exn (Op.Reply (.enqueue job p))}
    (h : exec (.enqueue job p) ch s = some (r, s')) :
    s' = s ∨ s' = { s with messages := (job.tenantId, job.jobId, p) :: s.messages } := by
  cases ch with
  | ok =>
    simp only [exec, Option.some.injEq, Prod.mk.injEq] at h
    exact Or.inr h.2.symm
  | lost applied =>
    simp only [exec, Option.some.injEq, Prod.mk.injEq] at h
    cases applied
    · exact Or.inl h.2.symm
    · exact Or.inr h.2.symm
  | _ => cases h

/-- A record that was read is the one that was stored. -/
theorem exec_get {t j : String} {r : Except Exn (Op.Reply (.redis (.get (jobKey t j))))} {job : IngestJob}
    (hex : exec (.redis (.get (jobKey t j))) ch s = some (r, s')) (hr : Op.loaded _ r = some job) :
    ∃ x, live? s.now s.store (jobKey t j) = some x ∧ x.value = .str (.job job) := by
  cases ch with
  | ok =>
    simp only [exec, Option.some.injEq, Prod.mk.injEq] at hex
    obtain ⟨rfl, -⟩ := hex
    cases he : live? s.now s.store (jobKey t j) with
    | none => simp [Redis.exec, value?, he, Reply.failed, Op.loaded] at hr
    | some x =>
      refine ⟨x, rfl, ?_⟩
      cases hv : x.value with
      | str b =>
        simp only [Redis.exec, value?, he, Option.map_some, hv, Reply.failed, Bool.false_eq_true, ↓reduceIte] at hr
        cases b <;> simp only [Op.loaded, Option.some.injEq, reduceCtorEq] at hr
        rw [hr]
      | _ => simp [Redis.exec, value?, he, hv, Reply.failed, Op.loaded] at hr
  | lost applied =>
    simp only [exec, Option.some.injEq, Prod.mk.injEq] at hex
    obtain ⟨rfl, -⟩ := hex
    cases hr
  | _ => cases hex

/-- A quiet operation leaves every job record alone. -/
theorem exec_quiet {e : Op} (he : e.Quiet) {r : Except Exn e.Reply} (h : exec e ch s = some (r, s')) :
    SameRest s s' ∧ ∀ t j, isUuidHex j = true → s'.store.lookup (jobKey t j) = s.store.lookup (jobKey t j) := by
  cases e with
  | redis c =>
    obtain ⟨hrest, hs | hs⟩ := exec_redis h
    · exact ⟨hrest, fun t j _ => by rw [hs]⟩
    · exact ⟨hrest, fun t j hj => by rw [hs, exec_frame (he t j hj)]⟩
  | multi cs =>
    obtain ⟨hrest, hs | hs⟩ := exec_multi h
    · exact ⟨hrest, fun t j _ => by rw [hs]⟩
    · exact ⟨hrest, fun t j hj => by rw [hs, execAll_frame fun c hc => he c hc t j hj]⟩
  | uuid => exact he.elim
  | enqueue job p => exact he.elim
  | utcnow =>
    cases ch <;> simp only [exec, Option.some.injEq, Prod.mk.injEq, reduceCtorEq] at h
    exact h.2 ▸ ⟨⟨rfl, rfl, rfl⟩, fun _ _ _ => rfl⟩
  | perfCounter =>
    cases ch <;> simp only [exec, Option.some.injEq, Prod.mk.injEq, reduceCtorEq] at h
    exact h.2 ▸ ⟨⟨rfl, rfl, rfl⟩, fun _ _ _ => rfl⟩
  | ingest t u =>
    cases ch <;> simp only [exec, Option.some.injEq, Prod.mk.injEq, reduceCtorEq] at h <;>
      exact h.2 ▸ ⟨⟨rfl, rfl, rfl⟩, fun _ _ _ => rfl⟩

theorem execAll_save (jobs : JobStore) (job : IngestJob) (n : Int) (now : Nat) (store : Store Blob) :
    let out := execAll now (jobs.saveCmds job n) store
    (∀ k, k ≠ jobKey job.tenantId job.jobId → k ≠ indexKey job.tenantId → out.2.lookup k = store.lookup k) ∧
    (out.2.lookup (jobKey job.tenantId job.jobId) = store.lookup (jobKey job.tenantId job.jobId) ∧
        out.1.any Reply.failed = true ∨
      ∃ e, out.2.lookup (jobKey job.tenantId job.jobId) = some e ∧ e.value = .str (.job job)) := by
  intro out
  refine ⟨fun k hk hi => execAll_frame fun c hc => ?_, ?_⟩
  · simp only [JobStore.saveCmds, List.mem_cons, List.not_mem_nil, or_false] at hc
    rcases hc with rfl | rfl | rfl <;> simpa [Cmd.writes]
  · have frame : out.2.lookup (jobKey job.tenantId job.jobId) =
        (Redis.exec now (.set (jobKey job.tenantId job.jobId) (.job job) (some jobs.retention) false) store).2.lookup
          (jobKey job.tenantId job.jobId) :=
      execAll_cons_frame (by simp [Cmd.writes, jobKey_ne_indexKey])
    by_cases hr : jobs.retention = 0
    · refine Or.inl ⟨frame.trans (by simp [Redis.exec, hr]), ?_⟩
      simp [out, JobStore.saveCmds, execAll_cons_fst, Redis.exec, hr, Reply.failed]
    · exact Or.inr ⟨⟨.str (.job job), some (deadline now jobs.retention)⟩,
        frame.trans (by simp [Redis.exec, hr]), rfl⟩

/-- A save stores the record, or fails; a failed one may have stored it all the same. -/
theorem exec_save {jobs : JobStore} {job : IngestJob} {n : Int} (hj : isUuidHex job.jobId = true)
    {r : Except Exn (Op.Reply (.multi (jobs.saveCmds job n)))}
    (h : exec (.multi (jobs.saveCmds job n)) ch s = some (r, s')) :
    SameRest s s' ∧
    (∀ t j, isUuidHex j = true → (t, j) ≠ (job.tenantId, job.jobId) →
      s'.store.lookup (jobKey t j) = s.store.lookup (jobKey t j)) ∧
    (s'.store.lookup (jobKey job.tenantId job.jobId) = s.store.lookup (jobKey job.tenantId job.jobId) ∧
        succeeded r = false ∨
      ∃ e, s'.store.lookup (jobKey job.tenantId job.jobId) = some e ∧ e.value = .str (.job job)) := by
  have other : ∀ t j, isUuidHex j = true → (t, j) ≠ (job.tenantId, job.jobId) →
      jobKey t j ≠ jobKey job.tenantId job.jobId := fun t j hu hne heq => by
    obtain ⟨rfl, rfl⟩ := jobKey_inj (isUuidHex_no_colon hu) (isUuidHex_no_colon hj) heq
    exact hne rfl
  obtain ⟨hframe, hrec⟩ := execAll_save jobs job n s.now s.store
  cases ch with
  | ok =>
    simp only [exec, Option.some.injEq, Prod.mk.injEq] at h
    obtain ⟨rfl, rfl⟩ := h
    refine ⟨⟨rfl, rfl, rfl⟩, fun t j hu hne => hframe _ (other t j hu hne) jobKey_ne_indexKey, ?_⟩
    rcases hrec with ⟨hsame, hfail⟩ | hrec
    · exact Or.inl ⟨hsame, by rw [if_pos hfail]; rfl⟩
    · exact Or.inr hrec
  | lost applied =>
    simp only [exec, Option.some.injEq, Prod.mk.injEq] at h
    obtain ⟨rfl, rfl⟩ := h
    cases applied
    · exact ⟨⟨rfl, rfl, rfl⟩, fun _ _ _ _ => rfl, Or.inl ⟨rfl, rfl⟩⟩
    · refine ⟨⟨rfl, rfl, rfl⟩, fun t j hu hne => hframe _ (other t j hu hne) jobKey_ne_indexKey, ?_⟩
      rcases hrec with ⟨hsame, -⟩ | hrec
      · exact Or.inl ⟨hsame, rfl⟩
      · exact Or.inr hrec
  | _ => cases h

end Exec

/-! ### The invariant -/

section Invariant
variable {service : IngestionJobService}

/-- The phases of the calls under way. -/
abbrev Board := Nat → Option (Call × Phase)

/-- The ids in use: a message carries the id of a saved job, an upload owns the id it drew, and no record
    has an id that was not drawn, or that its upload has yet to save. -/
structure Ids (s : State) (Γ : Board) : Prop where
  sent : ∀ t j p, (t, j, p) ∈ s.messages → isUuidHex j = true ∧ j ∈ s.drawn
  running : ∀ i t j p g, Γ i = some (.execute t j p, g) → (t, j, p) ∈ s.messages
  unsaved : ∀ t j, isUuidHex j = true → j ∉ s.drawn → s.store.lookup (jobKey t j) = none
  holder : ∀ i c j, Γ i = some (c, .holds j) →
    (∀ t, s.store.lookup (jobKey t j) = none) ∧ ∀ t p, (t, j, p) ∉ s.messages
  owner : ∀ i c g j, Γ i = some (c, g) → g.owns = some j → isUuidHex j = true ∧ j ∈ s.drawn
  single : ∀ i i' c c' g g' j, Γ i = some (c, g) → Γ i' = some (c', g') → g.owns = some j → g'.owns = some j → i = i'

/-- What an entry holds, if anything, is a record of the job that `P` is true of. -/
def Holds (e : Option (Entry Blob)) (t j : String) (P : IngestJob → Prop) : Prop :=
  ∀ x, e = some x → ∃ job, x.value = .str (.job job) ∧ job.tenantId = t ∧ job.jobId = j ∧ P job

/-- The job has not ended. -/
structure OpenJob (s : State) (tr : List (system service).Event) (Γ : Board) (t j : String) : Prop where
  record : Holds (s.store.lookup (jobKey t j)) t j fun job => job.status.terminal = false
  pushed : tr.countP (pushesJob t j) = 0
  failed : tr.countP (countsJob t j "failed") = 0
  done : tr.countP (countsJob t j "done") = 0
  phases : ∀ i p f c q, Γ i ≠ some (.execute t j p, .closing f c q)

/-- The job has ended as `job` says. -/
structure ClosedJob (s : State) (tr : List (system service).Event) (Γ : Board) (t j : String) (job : IngestJob) :
    Prop where
  terminal : job.status.terminal = true
  sent : ∃ p, (t, j, p) ∈ s.messages
  record : Holds (s.store.lookup (jobKey t j)) t j fun job' =>
    job'.status = job.status ∧ job'.docId = job.docId ∧ job'.error = job.error
  phases : ∀ i p g, Γ i = some (.execute t j p, g) → g = .leaving ∨
    (g = .waiting ∧ live? s.now s.store (jobKey t j) = none) ∨ ∃ c q, g = .closing (job.status == .failed) c q
  one : ∀ i i' p p' f c q f' c' q', Γ i = some (.execute t j p, .closing f c q) →
    Γ i' = some (.execute t j p', .closing f' c' q') → i = i'
  unpushed : ∀ i p f c, Γ i = some (.execute t j p, .closing f c false) → tr.countP (pushesJob t j) = 0
  uncounted : ∀ i p f q, Γ i = some (.execute t j p, .closing f false q) →
    tr.countP (countsJob t j "failed") = 0 ∧ tr.countP (countsJob t j "done") = 0
  pushed : tr.countP (pushesJob t j) ≤ if job.status = .failed then 1 else 0
  failed : tr.countP (countsJob t j "failed") ≤ if job.status = .failed then 1 else 0
  done : tr.countP (countsJob t j "done") ≤ if job.status = .done then 1 else 0

/-- The jobs that are known to have ended, and how. -/
abbrev Ended := String → String → Option IngestJob

/-- The job is open or closed, and closed as `F` says if `F` knows it to have ended. -/
def JobOk (F : Ended) (s : State) (tr : List (system service).Event) (Γ : Board) (t j : String) : Prop :=
  (F t j = none ∧ OpenJob s tr Γ t j) ∨ ∃ job, (∀ job₀, F t j = some job₀ → job₀ = job) ∧ ClosedJob s tr Γ t j job

/-- What holds of the jobs in every state of a run. -/
structure Inv (F : Ended) (s : State) (tr : List (system service).Event) (Γ : Board) : Prop where
  ids : Ids s Γ
  jobs : ∀ t j, isUuidHex j = true → JobOk F s tr Γ t j

/-- The event neither counts nor pushes the job. -/
structure Silent (t j : String) (v : (system service).Event) : Prop where
  pushed : pushesJob t j v = false
  failed : countsJob t j "failed" v = false
  done : countsJob t j "done" v = false

variable {s s' : State} {tr : List (system service).Event} {v : (system service).Event} {Γ Γ' : Board} {t j : String}

theorem countP_silent {q : (system service).Event → Bool} (h : q v = false) : (v :: tr).countP q = tr.countP q := by
  rw [List.countP_cons_of_neg (by simp [h])]

theorem Holds.congr {e e' : Option (Entry Blob)} {P : IngestJob → Prop} (h : Holds e t j P) (he : e' = e) :
    Holds e' t j P := he ▸ h

/-! #### Steps that leave a job alone -/

theorem OpenJob.keep (h : OpenJob s tr Γ t j)
    (hl : s'.store.lookup (jobKey t j) = s.store.lookup (jobKey t j))
    (hΓ : ∀ i p f c q, Γ' i = some (.execute t j p, .closing f c q) → Γ i = some (.execute t j p, .closing f c q)) :
    OpenJob s' tr Γ' t j where
  record := h.record.congr hl
  pushed := h.pushed
  failed := h.failed
  done := h.done
  phases i p f c q hi := h.phases i p f c q (hΓ i p f c q hi)

theorem OpenJob.log (h : OpenJob s tr Γ t j) (hv : Silent t j v) : OpenJob s (v :: tr) Γ t j where
  record := h.record
  pushed := (countP_silent hv.pushed).trans h.pushed
  failed := (countP_silent hv.failed).trans h.failed
  done := (countP_silent hv.done).trans h.done
  phases := h.phases

theorem ClosedJob.keep {job : IngestJob} (h : ClosedJob s tr Γ t j job)
    (hl : s'.store.lookup (jobKey t j) = s.store.lookup (jobKey t j)) (hnow : s.now ≤ s'.now)
    (hm : ∀ m ∈ s.messages, m ∈ s'.messages)
    (hΓ : ∀ i p g, Γ' i = some (.execute t j p, g) → Γ i = some (.execute t j p, g) ∨ g = .leaving ∨
      g = .waiting ∧ live? s.now s.store (jobKey t j) = none) : ClosedJob s' tr Γ' t j job where
  terminal := h.terminal
  sent := h.sent.imp fun p hp => hm _ hp
  record := h.record.congr hl
  phases i p g hi := by
    have gone : live? s.now s.store (jobKey t j) = none → live? s'.now s'.store (jobKey t j) = none := fun hg => by
      rcases live?_later hnow (s := s.store) (k := jobKey t j) with h' | h'
      · rw [live?_congr hl, h']
      · rw [live?_congr hl, h', hg]
    rcases hΓ i p g hi with hi | hg | ⟨hg, hgone⟩
    · rcases h.phases i p g hi with hg | ⟨hg, hgone⟩ | hg
      · exact Or.inl hg
      · exact Or.inr (Or.inl ⟨hg, gone hgone⟩)
      · exact Or.inr (Or.inr hg)
    · exact Or.inl hg
    · exact Or.inr (Or.inl ⟨hg, gone hgone⟩)
  one i i' p p' f c q f' c' q' hi hi' :=
    h.one i i' p p' f c q f' c' q' ((hΓ _ _ _ hi).resolve_right (by simp)) ((hΓ _ _ _ hi').resolve_right (by simp))
  unpushed i p f c hi := h.unpushed i p f c ((hΓ _ _ _ hi).resolve_right (by simp))
  uncounted i p f q hi := h.uncounted i p f q ((hΓ _ _ _ hi).resolve_right (by simp))
  pushed := h.pushed
  failed := h.failed
  done := h.done

theorem ClosedJob.log {job : IngestJob} (h : ClosedJob s tr Γ t j job) (hv : Silent t j v) :
    ClosedJob s (v :: tr) Γ t j job where
  terminal := h.terminal
  sent := h.sent
  record := h.record
  phases := h.phases
  one := h.one
  unpushed i p f c hi := (countP_silent hv.pushed).trans (h.unpushed i p f c hi)
  uncounted i p f q hi := ⟨(countP_silent hv.failed).trans (h.uncounted i p f q hi).1,
    (countP_silent hv.done).trans (h.uncounted i p f q hi).2⟩
  pushed := (countP_silent hv.pushed).le.trans h.pushed
  failed := (countP_silent hv.failed).le.trans h.failed
  done := (countP_silent hv.done).le.trans h.done

/-- A job whose record, count and deliveries a step leaves alone. -/
theorem JobOk.keep {F : Ended} (h : JobOk F s tr Γ t j) (hv : Silent t j v)
    (hl : s'.store.lookup (jobKey t j) = s.store.lookup (jobKey t j)) (hnow : s.now ≤ s'.now)
    (hm : ∀ m ∈ s.messages, m ∈ s'.messages)
    (hΓ : ∀ i p g, Γ' i = some (.execute t j p, g) → Γ i = some (.execute t j p, g) ∨ g = .leaving) :
    JobOk F s' (v :: tr) Γ' t j := by
  rcases h with ⟨hF, h⟩ | ⟨job, hF, h⟩
  · exact Or.inl ⟨hF, (h.keep hl fun i p f c q hi => (hΓ _ _ _ hi).resolve_right (by simp)).log hv⟩
  · exact Or.inr ⟨job, hF, (h.keep hl hnow hm fun i p g hi => (hΓ i p g hi).imp_right Or.inl).log hv⟩

theorem Ids.keep {i : Nat} {x : Option (Call × Phase)} (h : Ids s Γ) (hrest : SameRest s s')
    (hl : ∀ t j, isUuidHex j = true → s'.store.lookup (jobKey t j) = s.store.lookup (jobKey t j) ∨
      j ∈ s.drawn ∧ ∀ i' c, Function.update Γ i x i' ≠ some (c, .holds j))
    (hx : ∀ c g, x = some (c, g) → (∀ t j p, c = .execute t j p → (t, j, p) ∈ s.messages) ∧
      (∀ j, g.owns = some j → ∃ g₀, Γ i = some (c, g₀) ∧ g₀.owns = some j) ∧
      ∀ j, g = .holds j → Γ i = some (c, .holds j)) : Ids s' (Function.update Γ i x) := by
  have old : ∀ i' c g j, Function.update Γ i x i' = some (c, g) → g.owns = some j →
      ∃ g₀, Γ i' = some (c, g₀) ∧ g₀.owns = some j := by
    intro i' c g j hi ho
    by_cases hii : i' = i
    · subst hii
      rw [Function.update_self] at hi
      exact (hx c g hi).2.1 j ho
    · rw [Function.update_of_ne hii] at hi
      exact ⟨g, hi, ho⟩
  constructor
  · rw [hrest.messages, hrest.drawn]
    exact h.sent
  · intro i' t j p g hi
    rw [hrest.messages]
    by_cases hii : i' = i
    · subst hii
      rw [Function.update_self] at hi
      exact (hx _ g hi).1 t j p rfl
    · rw [Function.update_of_ne hii] at hi
      exact h.running i' t j p g hi
  · intro t j hj hd
    rw [hrest.drawn] at hd
    rcases hl t j hj with hl | hl
    · rw [hl]
      exact h.unsaved t j hj hd
    · exact absurd hl.1 hd
  · intro i' c j hi
    have hold : Γ i' = some (c, .holds j) := by
      by_cases hii : i' = i
      · subst hii
        rw [Function.update_self] at hi
        exact (hx c _ hi).2.2 j rfl
      · rwa [Function.update_of_ne hii] at hi
    rw [hrest.messages]
    refine ⟨fun t => ?_, (h.holder i' c j hold).2⟩
    rcases hl t j (h.owner i' c _ j hold rfl).1 with hl | hl
    · rw [hl]
      exact (h.holder i' c j hold).1 t
    · exact absurd hi (hl.2 i' c)
  · intro i' c g j hi ho
    obtain ⟨g₀, hg, ho⟩ := old i' c g j hi ho
    rw [hrest.drawn]
    exact h.owner i' c g₀ j hg ho
  · intro i₁ i₂ c₁ c₂ g₁ g₂ j h₁ h₂ ho₁ ho₂
    obtain ⟨g₁', hg₁, ho₁⟩ := old i₁ c₁ g₁ j h₁ ho₁
    obtain ⟨g₂', hg₂, ho₂⟩ := old i₂ c₂ g₂ j h₂ ho₂
    exact h.single i₁ i₂ c₁ c₂ g₁' g₂' j hg₁ hg₂ ho₁ ho₂

end Invariant
end NexusGate.Workers
